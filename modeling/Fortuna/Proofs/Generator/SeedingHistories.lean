import Fortuna.Proofs.Generator.Invariants
import Fortuna.Proofs.Sha256.Streaming

/-!
# Different seeds, different keys

Each seed turns the key into the SHA-256d digest of the key followed by the seed.
Keys are of one length, so a key and a seed are known from their concatenation.
Hence two histories of as many seeds that end in one key are the same history, or
there is a last point at which they differ; at that point two different byte
strings were hashed to one digest, in the first layer of SHA-256d or in the second
(`exists_collision_of_foldl_eq`).  The colliding strings are among those that the
two generators have hashed, and a search through what the seeds determine finds
them (`seeds_meet_only_in_collision`).  Nothing is assumed of SHA-256.
-/

namespace Fortuna

/-- Two byte strings that collide under SHA-256. -/
def Sha256.Collide (x y : Bytes) : Prop :=
  x ≠ y ∧ Sha256.hash x = Sha256.hash y

instance (x y : Bytes) : Decidable (Sha256.Collide x y) :=
  inferInstanceAs (Decidable (_ ∧ _))

namespace Generator

/-! ## Seeds mixed into a key -/

/-- A seed turns the key into the SHA-256d digest of the key followed by the seed. -/
theorem mixedKey_eq (key seed : Bytes) :
    mixedKey key seed = Sha256.hash (Sha256.hash (key ++ seed)) := by
  rw [mixedKey, ← Sha256d.Hasher.update_append, Sha256d.Hasher.finish_update_empty]
  rfl

/-- What is hashed while seeds are mixed into a key: the key before each seed
followed by the seed, and then the digest of both. -/
def mixingInputs (key : Bytes) : List Bytes → List Bytes
  | [] => []
  | seed :: seeds =>
    (key ++ seed) :: Sha256.hash (key ++ seed) :: mixingInputs (mixedKey key seed) seeds

/-- The first collision between what two histories of seeds, mixed into the zero
key, hash at one point. -/
def collision? (seeds seeds' : List Bytes) : Option (Bytes × Bytes) :=
  ((mixingInputs zeroKey seeds).zip (mixingInputs zeroKey seeds')).find?
    fun p => Sha256.Collide p.1 p.2

/-- Two keys and seeds that give one key are the same, or collide in one of the
two layers of SHA-256d. -/
theorem collide_of_mixedKey_eq {key key' seed seed' : Bytes} (hlength : key.length = key'.length)
    (heq : mixedKey key seed = mixedKey key' seed') :
    (key = key' ∧ seed = seed') ∨ Sha256.Collide (key ++ seed) (key' ++ seed') ∨
      Sha256.Collide (Sha256.hash (key ++ seed)) (Sha256.hash (key' ++ seed')) := by
  rw [mixedKey_eq, mixedKey_eq] at heq
  by_cases hdigest : Sha256.hash (key ++ seed) = Sha256.hash (key' ++ seed')
  · by_cases hinput : key ++ seed = key' ++ seed'
    · exact .inl (List.append_inj hinput hlength)
    · exact .inr (.inl ⟨hinput, hdigest⟩)
  · exact .inr (.inr ⟨hdigest, heq⟩)

/-- Histories that end in one key are the same, or hash colliding strings at one
point. -/
theorem exists_collision_of_foldl_eq {seeds seeds' : List Bytes}
    (hlength : seeds.length = seeds'.length) {key key' : Bytes} (hkeys : key.length = key'.length)
    (heq : seeds.foldl mixedKey key = seeds'.foldl mixedKey key') :
    (key = key' ∧ seeds = seeds') ∨
      ∃ p ∈ (mixingInputs key seeds).zip (mixingInputs key' seeds'), Sha256.Collide p.1 p.2 := by
  induction seeds generalizing seeds' key key' with
  | nil =>
      obtain rfl : seeds' = [] := List.length_eq_zero_iff.mp hlength.symm
      exact .inl ⟨heq, rfl⟩
  | cons seed seeds ih =>
      cases seeds' with
      | nil => cases hlength
      | cons seed' seeds' =>
          rw [List.foldl_cons, List.foldl_cons] at heq
          rw [mixingInputs, mixingInputs, List.zip_cons_cons, List.zip_cons_cons]
          have hmixed_keys : (mixedKey key seed).length = (mixedKey key' seed').length := by
            rw [length_mixedKey, length_mixedKey]
          -- the last difference lies behind these seeds, or they are where it is
          rcases ih (Nat.succ.inj hlength) hmixed_keys heq with ⟨hmixed, rfl⟩ | ⟨p, hmem, hcollide⟩
          · rcases collide_of_mixedKey_eq hkeys hmixed with ⟨rfl, rfl⟩ | hfirst | hsecond
            · exact .inl ⟨rfl, rfl⟩
            · exact .inr ⟨_, List.mem_cons_self, hfirst⟩
            · exact .inr ⟨_, List.mem_cons_of_mem _ List.mem_cons_self, hsecond⟩
          · exact .inr ⟨p, List.mem_cons_of_mem _ (List.mem_cons_of_mem _ hmem), hcollide⟩

/-- Different histories that end in one key have a collision, and the search finds
one. -/
theorem exists_collision?_of_foldl_eq {seeds seeds' : List Bytes}
    (hlength : seeds.length = seeds'.length) (hne : seeds ≠ seeds')
    (heq : seeds.foldl mixedKey zeroKey = seeds'.foldl mixedKey zeroKey) :
    ∃ x y, collision? seeds seeds' = some (x, y) ∧ x ∈ mixingInputs zeroKey seeds ∧
      y ∈ mixingInputs zeroKey seeds' ∧ x ≠ y ∧ Sha256.hash x = Sha256.hash y := by
  rcases exists_collision_of_foldl_eq hlength rfl heq with ⟨-, hsame⟩ | ⟨p, hmem, hcollide⟩
  · exact absurd hsame hne
  · have hfound : (collision? seeds seeds').isSome = true := by
      rw [collision?, List.find?_isSome]
      exact ⟨p, hmem, decide_eq_true hcollide⟩
    obtain ⟨⟨x, y⟩, hsome⟩ := Option.isSome_iff_exists.mp hfound
    have hfind := hsome
    rw [collision?] at hfind
    have hzip := List.mem_of_find?_eq_some hfind
    have hcollide := List.find?_some hfind
    rw [decide_eq_true_eq] at hcollide
    obtain ⟨hdiffer, hdigest⟩ := hcollide
    obtain ⟨hx, hy⟩ := List.of_mem_zip hzip
    exact ⟨x, y, hsome, hx, hy, hdiffer, hdigest⟩

/-! ## Seeds given to a generator -/

variable {F F' : CipherFactory}

/-- Each of the requests succeeds. -/
def Served (g : Generator F) : List Operation → Prop
  | [] => True
  | op :: ops => (∃ answer, (op.perform g).result = .ok answer) ∧ (op.perform g).state.Served ops

/-- What a generator hashes while it is reseeded: its key before each seed followed
by the seed, and then the digest of both. -/
def hashInputs (g : Generator F) : List Bytes → List Bytes
  | [] => []
  | seed :: seeds =>
    (g.key ++ seed) :: Sha256.hash (g.key ++ seed) :: (reseed seed g).state.hashInputs seeds

theorem key_reseed_of_ok {g : Generator F} {seed : Bytes} {u : Unit}
    (hok : (reseed seed g).result = .ok u) :
    (reseed seed g).state.key = mixedKey g.key seed := by
  cases hcipher : F.cipherFor g.blockSize (mixedKey g.key seed) with
  | error e =>
      rw [reseed_of_refused hcipher] at hok
      cases hok
  | ok cipher =>
      rw [reseed_of_cipher hcipher]
      rfl

theorem key_restart_of_ok {g : Generator F} {seed : Int64} {u : Unit}
    (hok : (restart seed g).result = .ok u) :
    (restart seed g).state.key = mixedKey zeroKey (seedBytes seed) := by
  cases hzero : F.cipherFor g.blockSize zeroKey with
  | error e =>
      rw [restart_eq, Step.bind_apply, wipe_of_refused hzero] at hok
      cases hok
  | ok zero =>
      obtain ⟨hresult, hstate⟩ := restart_of_wiped hzero seed
      rw [hresult] at hok
      rw [hstate, key_reseed_of_ok hok]
      rfl

/-- Seeds that succeed are mixed into the key one after the other. -/
theorem key_after_reseeds {g : Generator F} {seeds : List Bytes}
    (hserved : g.Served (seeds.map .reseed)) :
    (g.after (seeds.map .reseed)).key = seeds.foldl mixedKey g.key ∧
      g.hashInputs seeds = mixingInputs g.key seeds := by
  induction seeds generalizing g with
  | nil => exact ⟨rfl, rfl⟩
  | cons seed seeds ih =>
      obtain ⟨hanswer, hlater⟩ := hserved
      obtain ⟨hstate, -, hok⟩ := perform_reseed seed g
      obtain ⟨u, hu⟩ := hok.mp hanswer
      rw [hstate] at hlater
      obtain ⟨hkey, hinputs⟩ := ih hlater
      rw [key_reseed_of_ok hu] at hkey hinputs
      rw [List.map_cons, after, hstate, hkey, hashInputs, mixingInputs, hinputs]
      exact ⟨rfl, rfl⟩

theorem key_of_create {c : Created F} (hcreate : create F = .ok c) : c.generator.key = zeroKey := by
  obtain ⟨cipher, -, -, rfl⟩ := (create_eq_ok_iff c).mp hcreate
  rfl

/-- Deterministic seeds have different bytes. -/
theorem seedBytes_injective : Function.Injective seedBytes := by
  intro x y heq
  have hbytes := List.reverse_injective heq
  have hwidth : 256 ^ 8 = 2 ^ 64 := by decide
  rw [Bytes.ofNatLE_eq_ofNatLE_iff, hwidth, Nat.mod_eq_of_lt x.toUInt64.toNat_lt,
    Nat.mod_eq_of_lt y.toUInt64.toNat_lt] at hbytes
  exact Function.LeftInverse.injective Int64.toInt64_toUInt64 (UInt64.toNat_inj.mp hbytes)

/-- Fresh generators that take different seeds, as many of them, have different
keys, or two of the strings that they have hashed collide under SHA-256, and the
seeds alone suffice to find such a pair.  The same holds of generators in any
states that take different deterministic seeds. -/
theorem seeds_meet_only_in_collision (F F' : CipherFactory) :
    (∀ (c : Created F) (c' : Created F') (S T : List Bytes),
      create F = .ok c → create F' = .ok c' → S.length = T.length → S ≠ T →
      c.generator.Served (S.map .reseed) → c'.generator.Served (T.map .reseed) →
        (c.generator.after (S.map .reseed)).key ≠ (c'.generator.after (T.map .reseed)).key ∨
          ∃ x y, collision? S T = some (x, y) ∧ x ∈ c.generator.hashInputs S ∧
            y ∈ c'.generator.hashInputs T ∧ x ≠ y ∧ Sha256.hash x = Sha256.hash y) ∧
      ∀ (g : Generator F) (h : Generator F') (a b : Int64), a ≠ b →
        (restart a g).result = .ok () → (restart b h).result = .ok () →
          (restart a g).state.key ≠ (restart b h).state.key ∨
            ∃ x y, collision? [seedBytes a] [seedBytes b] = some (x, y) ∧
              x ∈ [zeroKey ++ seedBytes a, Sha256.hash (zeroKey ++ seedBytes a)] ∧
              y ∈ [zeroKey ++ seedBytes b, Sha256.hash (zeroKey ++ seedBytes b)] ∧
              x ≠ y ∧ Sha256.hash x = Sha256.hash y := by
  constructor
  · intro c c' S T hcreate hcreate' hlength hne hS hT
    obtain ⟨hkey, hinputs⟩ := key_after_reseeds hS
    obtain ⟨hkey', hinputs'⟩ := key_after_reseeds hT
    rw [hkey, hkey', hinputs, hinputs', key_of_create hcreate, key_of_create hcreate']
    by_cases heq : S.foldl mixedKey zeroKey = T.foldl mixedKey zeroKey
    · exact .inr (exists_collision?_of_foldl_eq hlength hne heq)
    · exact .inl heq
  · intro g h a b hne ha hb
    rw [key_restart_of_ok ha, key_restart_of_ok hb]
    have hseeds : [seedBytes a] ≠ [seedBytes b] := by
      intro hsame
      exact hne (seedBytes_injective (List.singleton_inj.mp hsame))
    by_cases heq : mixedKey zeroKey (seedBytes a) = mixedKey zeroKey (seedBytes b)
    · exact .inr (exists_collision?_of_foldl_eq rfl hseeds heq)
    · exact .inl heq

theorem seeds_meet_only_in_collision_of_two :
    let S : List Bytes := [[1], [2]]
    let T : List Bytes := [[1], [3]]
    ((plainGenerator.after (S.map .reseed)).key ≠ (plainGenerator.after (T.map .reseed)).key ∨
      ∃ x y, collision? S T = some (x, y) ∧ x ∈ plainGenerator.hashInputs S ∧
        y ∈ plainGenerator.hashInputs T ∧ x ≠ y ∧ Sha256.hash x = Sha256.hash y) ∧
      ((restart 1 plainGenerator).state.key ≠ (restart (-1) plainGenerator).state.key ∨
        ∃ x y, collision? [seedBytes 1] [seedBytes (-1)] = some (x, y) ∧
          x ∈ [zeroKey ++ seedBytes 1, Sha256.hash (zeroKey ++ seedBytes 1)] ∧
          y ∈ [zeroKey ++ seedBytes (-1), Sha256.hash (zeroKey ++ seedBytes (-1))] ∧
          x ≠ y ∧ Sha256.hash x = Sha256.hash y) := by
  intro S T
  have hcreate : create (Transparent.factory ⟨.identity, 16, none⟩) =
      .ok ⟨plainGenerator, [.installed zeroKey, .logged (.created 16)]⟩ := rfl
  have hS : plainGenerator.Served (S.map .reseed) := ⟨⟨.done, rfl⟩, ⟨.done, rfl⟩, trivial⟩
  have hT : plainGenerator.Served (T.map .reseed) := ⟨⟨.done, rfl⟩, ⟨.done, rfl⟩, trivial⟩
  obtain ⟨hreseeds, hrestarts⟩ := seeds_meet_only_in_collision
    (Transparent.factory ⟨.identity, 16, none⟩) (Transparent.factory ⟨.identity, 16, none⟩)
  have hreseeded := hreseeds _ _ S T hcreate hcreate rfl (by decide) hS hT
  have hrestarted := hrestarts plainGenerator plainGenerator 1 (-1) (by decide) rfl rfl
  exact ⟨hreseeded, hrestarted⟩

end Generator

end Fortuna
