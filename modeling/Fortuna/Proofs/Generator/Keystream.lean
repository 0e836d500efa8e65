import Fortuna.Proofs.Generator.Epochs
import Fortuna.Proofs.Generator.Seededness

/-!
# Keystream under one key

Every epoch of every run follows the grammar of epochs, whatever requests fail
in it (`Run.course_of_mem_epochs`).  What that grammar says of counters decides
where keystream repeats: a chunk of `k` blocks that is alone in its epoch shares
a counter with the key after it exactly when the `k` blocks and those of the key
go round the circle of the counter.  From blocks of three bytes on no chunk is
that long.  With blocks of two bytes the longest chunk goes round exactly once,
and the key after it is its own beginning.
-/

namespace Fortuna

namespace Generator

variable {F : CipherFactory}

/-! ## Epochs of a run -/

theorem isInstallation_trail (g : Generator F) (purpose : Purpose) (k : Nat) :
    ∀ a ∈ g.trail purpose k, a.isInstallation = false := by
  rw [trail, List.forall_mem_map]
  exact fun _ _ => rfl

theorem isInstallation_chunkTrail (g : Generator F) (size : Nat) :
    ∀ a ∈ g.chunkTrail size, a.isInstallation = false :=
  List.forall_mem_append.mpr ⟨isInstallation_trail g _ _, isInstallation_trail _ _ _⟩

theorem encryptions_trail (g : Generator F) (purpose : Purpose) (k : Nat) :
    Action.encryptions (g.trail purpose k) = draws purpose g.counter k := by
  rw [Action.encryptions, trail, List.filterMap_map, draws, ← List.filterMap_eq_map]
  rfl

theorem encryptions_chunkTrail (g : Generator F) (size : Nat) :
    Action.encryptions (g.chunkTrail size) = chunkDraws g.counter size g.keyBlocks := by
  rw [chunkTrail, Action.encryptions_append, encryptions_trail, encryptions_trail, counter_drawn,
    chunkDraws]

/-- What a run does under the key that it finds. -/
theorem Run.course {g h : Generator F} {as : List Action} (hrun : Run Stage g as h) :
    Course g.cipher g.keyBlocks g.counter
      (Action.encryptions (Action.current as)) (Action.nextRekey as) := by
  induction hrun with
  | refl g => exact .idle g.counter
  | @head g h k as bs hstage hrun ih =>
      cases hstage with
      | mixed seed cipher hcipher => exact .idle g.counter
      | wiped cipher hcipher => exact .idle g.counter
      | restarted seed => exact ih
      | draw hdraw =>
          cases hdraw with
          | delivered n => exact ih
          | chunk size hpos hmax o hend =>
              cases hend with
              | unseeded hseeded => exact ih
              | stalled hseeded hdrawn =>
                  obtain ⟨hnone, hkeep⟩ := ih.eq_nil_of_isZero ((isSeeded_eq_false_iff _).mp hdrawn)
                  rw [Action.current_append (isInstallation_trail g _ _),
                    Action.nextRekey_append (isInstallation_trail g _ _), Action.encryptions_append,
                    encryptions_trail, hnone, hkeep, List.append_nil]
                  exact .stalled _ size ((isSeeded_eq_true_iff g).mp hseeded)
              | refused e hseeded hdrawn hcipher =>
                  rw [Action.current_append (isInstallation_chunkTrail g size),
                    Action.nextRekey_append (isInstallation_chunkTrail g size),
                    Action.encryptions_append, encryptions_chunkTrail]
                  rw [keyBlocks_drawn] at ih
                  exact .refused _ size ((isSeeded_eq_true_iff g).mp hseeded) hpos _ _ ih
              | rekeyed cipher hseeded hdrawn hcipher =>
                  have hcurrent (cs : List Action) :
                      Action.current (g.chunkTrail size ++ .installed (g.nextKey size) :: cs) =
                        g.chunkTrail size := by
                    rw [Action.current_append (isInstallation_chunkTrail g size)]
                    exact List.append_nil _
                  have hnext (n : Nat) (cs : List Action) :
                      Action.nextRekey (g.chunkTrail size ++
                        .installed (g.nextKey size) :: .logged (.rekeyed n) :: cs) =
                        some (g.nextKey size) := by
                    rw [Action.nextRekey_append (isInstallation_chunkTrail g size)]
                    rfl
                  rw [List.append_assoc, List.cons_append, List.cons_append, hcurrent, hnext,
                    encryptions_chunkTrail, nextKey_eq]
                  exact .rekeyed g.counter size ((isSeeded_eq_true_iff g).mp hseeded) hpos hmax

/-- Every epoch of a run follows the grammar, for a cipher of its own key. -/
theorem Run.course_of_mem_epochs {g h : Generator F} {as : List Action} (hrun : Run Stage g as h)
    (hg : g.Consistent) {epoch : Epoch} (hmem : epoch ∈ epochs as) :
    ∃ cipher c, F.build epoch.key = .ok cipher ∧ cipher.blockSize = g.blockSize ∧
      c.width = g.blockSize ∧ Course cipher g.keyBlocks c epoch.encryptions epoch.rekey := by
  induction hrun with
  | refl g => cases hmem
  | @head g h k as bs hstage hrun ih =>
      have hh := hstage.consistent hg
      have hwidth := hstage.blockSize_eq
      have hblocks : h.keyBlocks = g.keyBlocks := by
        rw [keyBlocks, keyBlocks, blocksFor, blocksFor, hwidth]
      have hcourse := hrun.course
      rw [hwidth, hblocks] at ih
      rw [hblocks] at hcourse
      -- the epoch that the stage opens, if it installs a key
      have hopened : ∃ cipher c, F.build h.key = .ok cipher ∧ cipher.blockSize = g.blockSize ∧
          c.width = g.blockSize ∧ Course cipher g.keyBlocks c
            (Action.encryptions (Action.current bs)) (Action.nextRekey bs) :=
        ⟨h.cipher, h.counter, hh.build_key, hh.blockSize_cipher.trans hwidth, hwidth, hcourse⟩
      cases hstage with
      | mixed seed cipher hcipher =>
          rcases List.mem_cons.mp hmem with rfl | hlater
          · exact hopened
          · exact ih hh hlater
      | wiped cipher hcipher =>
          rcases List.mem_cons.mp hmem with rfl | hlater
          · exact hopened
          · exact ih hh hlater
      | restarted seed => exact ih hh hmem
      | draw hdraw =>
          cases hdraw with
          | delivered n => exact ih hh hmem
          | chunk size hpos hmax o hend =>
              cases hend with
              | unseeded hseeded => exact ih hh hmem
              | stalled hseeded hdrawn =>
                  rw [Action.epochs_append (isInstallation_trail g _ _)] at hmem
                  exact ih hh hmem
              | refused e hseeded hdrawn hcipher =>
                  rw [Action.epochs_append (isInstallation_chunkTrail g size)] at hmem
                  exact ih hh hmem
              | rekeyed cipher hseeded hdrawn hcipher =>
                  rw [List.append_assoc, Action.epochs_append (isInstallation_chunkTrail g size)]
                    at hmem
                  rcases List.mem_cons.mp hmem with rfl | hlater
                  · exact hopened
                  · exact ih hh hlater

/-- The same from the creation of a generator on. -/
theorem course_of_mem_epochs {c : Created F} (hcreate : create F = .ok c)
    {ops : List Operation} {epoch : Epoch} (hmem : epoch ∈ epochs (c.history ops)) :
    ∃ cipher start, F.build epoch.key = .ok cipher ∧
      cipher.blockSize = c.generator.blockSize ∧ start.width = c.generator.blockSize ∧
      Course cipher c.generator.keyBlocks start epoch.encryptions epoch.rekey := by
  have hconsistent := consistent_of_create hcreate
  have hrun := run_after c.generator ops
  obtain ⟨cipher, hbuild, hpos, hc⟩ := (create_eq_ok_iff c).mp hcreate
  have hkey : c.generator.key = zeroKey := by rw [hc]
  have hactions : c.actions = [.installed zeroKey, .logged (.created cipher.blockSize)] := by
    rw [hc]
  rw [Created.history, hactions] at hmem
  rcases List.mem_cons.mp hmem with rfl | hlater
  · exact ⟨c.generator.cipher, c.generator.counter, hkey ▸ hconsistent.build_key,
      hconsistent.blockSize_cipher, rfl, hrun.course⟩
  · exact hrun.course_of_mem_epochs hconsistent hlater

end Generator

/-! ## Repetition -/

theorem Epoch.countersFor_output {epoch : Epoch} {c : Counter} {k r : Nat}
    (hepoch : epoch.encryptions = chunkDraws c k r) :
    epoch.countersFor .output = c.upcoming k := by
  rw [countersFor, hepoch, chunkDraws, List.filter_append, filter_draws, filter_draws,
    if_pos rfl, if_neg (by decide), List.append_nil, map_snd_draws]

theorem Epoch.countersFor_key {epoch : Epoch} {c : Counter} {k r : Nat}
    (hepoch : epoch.encryptions = chunkDraws c k r) :
    epoch.countersFor .key = (c.advance k).upcoming r := by
  rw [countersFor, hepoch, chunkDraws, List.filter_append, filter_draws, filter_draws,
    if_neg (by decide), if_pos rfl, List.nil_append, map_snd_draws]

/-- In an epoch that is one chunk and its key, no block of the key is a block of
the chunk exactly as long as no counter comes twice. -/
theorem Epoch.separated_iff {epoch : Epoch} {cipher : Cipher} {c : Counter} {k r : Nat}
    (hinjective : cipher.InjectiveOnBlocks) (hwidth : c.width = cipher.blockSize)
    (hk : 0 < k) (hr : 0 < r) (hepoch : epoch.encryptions = chunkDraws c k r) :
    epoch.Separated cipher ↔ k + r ≤ 256 ^ c.width := by
  rw [Separated, countersFor_output hepoch, countersFor_key hepoch,
    ← Counter.upcoming_ne_upcoming_iff c hk hr]
  refine forall₂_congr fun x hx => forall₂_congr fun y hy => not_congr ?_
  have hlengthx : x.bytes.length = cipher.blockSize :=
    (Counter.width_of_mem_upcoming hx).trans hwidth
  have hlengthy : y.bytes.length = cipher.blockSize :=
    (Counter.width_of_mem_upcoming hy).trans ((Counter.width_advance c k).trans hwidth)
  constructor
  · intro hsame
    have hbytes := hinjective _ _ hlengthx hlengthy hsame
    rcases x with ⟨bytes⟩
    rcases y with ⟨bytes'⟩
    exact congrArg Counter.mk hbytes
  · rintro rfl
    rfl

namespace Generator

variable {F : CipherFactory}

/-- A chunk that goes round the circle and comes to its start is followed by its
own beginning as the key. -/
theorem nextKey_of_dvd {g : Generator F} {size : Nat} (hpos : 0 < g.blockSize)
    (hround : 256 ^ g.blockSize ∣ size) (hlong : g.keyBlocks ≤ size) :
    g.nextKey size = (g.blocks size).take keySize := by
  have hback : g.counter.advance size = g.counter := Counter.advance_of_dvd g.counter hround
  obtain ⟨rest, rfl⟩ := Nat.exists_eq_add_of_le hlong
  have hcover : keySize ≤ (g.blocks g.keyBlocks).length := by
    rw [length_blocks]
    exact le_blocksFor_mul hpos keySize
  have hsplit : g.blocks (g.keyBlocks + rest) =
      g.blocks g.keyBlocks ++ (g.drawn g.keyBlocks).blocks rest := by
    rw [blocks, Counter.upcoming_add, List.flatMap_append]
    rfl
  rw [nextKey_eq, hback, hsplit, List.take_append_of_le_length hcover]
  rfl

/-- With blocks of two bytes a full chunk goes round exactly once, so that a
request of that length installs the beginning of its output. -/
theorem key_read_of_round {g : Generator F} (hsize : g.blockSize = 2) {out : Bytes}
    (hout : (read 131072 g).result = .ok out) :
    (read 131072 g).state.key = out.take keySize := by
  have hblocks : g.blocksFor 131072 = 65536 := by
    rw [blocksFor, hsize]
  have hkey : g.keyBlocks = 16 := by
    rw [keyBlocks, blocksFor, hsize]
    rfl
  have hsizes : chunkSizes 65536 = [65536] := rfl
  cases hseeded : g.isSeeded with
  | false =>
      rw [read_of_unseeded _ hseeded] at hout
      cases hout
  | true =>
      rw [read_of_seeded _ hseeded, hblocks, hsizes, chunks_singleton] at hout ⊢
      obtain ⟨whole, hwhole, htake⟩ := (Outcome.result_andThen_eq_ok_iff _ _ _).mp hout
      obtain rfl : whole.take 131072 = out := Except.ok.inj htake
      rw [Outcome.andThen_of_ok hwhole, deliver_apply]
      obtain ⟨cipher, -, rfl, hstate⟩ := chunk_of_ok hwhole
      have hround : 256 ^ g.blockSize ∣ 65536 := hsize ▸ by decide
      have hnext : g.nextKey 65536 = (g.blocks 65536).take keySize :=
        nextKey_of_dvd (by omega) hround (by omega)
      rw [hstate, List.take_take]
      exact hnext

theorem add_keyBlocks_le_round {bs k : Nat} (hbs : 3 ≤ bs) (hk : k ≤ maxBlocks) :
    k + (keySize + bs - 1) / bs ≤ 256 ^ bs := by
  have hkey : keySize = 32 := rfl
  have hr : (keySize + bs - 1) / bs < 12 := Nat.div_lt_of_lt_mul (by omega)
  have hround : 256 ^ 3 ≤ 256 ^ bs := Nat.pow_le_pow_right (by decide) hbs
  have hmax : maxBlocks = 65536 := rfl
  omega

section Epochs

variable {c : Created F} (hcreate : create F = .ok c) {ops : List Operation} {epoch : Epoch}
  (hmem : epoch ∈ epochs (c.history ops))
include hcreate hmem

theorem exists_counters_eq_upcoming :
    ∃ start : Counter, start.width = c.generator.blockSize ∧
      epoch.counters = start.upcoming epoch.counters.length := by
  obtain ⟨cipher, start, -, -, hwidth, hcourse⟩ := course_of_mem_epochs hcreate hmem
  refine ⟨start, hwidth, ?_⟩
  rw [Epoch.counters, List.length_map]
  exact hcourse.map_snd

theorem nodup_counters_iff :
    epoch.counters.Nodup ↔ epoch.counters.length ≤ 256 ^ c.generator.blockSize := by
  obtain ⟨start, hwidth, hcounters⟩ := exists_counters_eq_upcoming hcreate hmem
  have hiff := Counter.nodup_upcoming_iff start epoch.counters.length
  rwa [← hcounters, hwidth] at hiff

/-- What an epoch is that consists of one chunk and the key after it. -/
theorem sole_chunk {k : Nat} {key : Bytes} (hchunks : epoch.chunks = [k])
    (hrekey : epoch.rekey = some key) :
    0 < k ∧ k ≤ maxBlocks ∧ epoch.counters.length = k + c.generator.keyBlocks ∧
      ∃ cipher, F.build epoch.key = .ok cipher ∧
        key = ((epoch.countersFor .key).flatMap fun d => cipher.encrypt d.bytes).take keySize ∧
        (cipher.InjectiveOnBlocks → (epoch.Separated cipher ↔
          k + c.generator.keyBlocks ≤ 256 ^ c.generator.blockSize)) := by
  have hr : 0 < c.generator.keyBlocks :=
    keyBlocks_pos (consistent_of_create hcreate).blockSize_pos
  obtain ⟨cipher, start, hbuild, hsize, hwidth, hcourse⟩ := course_of_mem_epochs hcreate hmem
  rw [hrekey] at hcourse
  obtain ⟨hk, hmax, hdraws, hkey⟩ := hcourse.eq_chunkDraws hr hchunks
  refine ⟨hk, hmax, ?_, cipher, hbuild, ?_, ?_⟩
  · rw [Epoch.counters, hdraws, List.length_map, length_chunkDraws]
  · rw [Epoch.countersFor_key hdraws]
    exact hkey
  · intro hinjective
    have hiff := Epoch.separated_iff hinjective (hwidth.trans hsize.symm) hk hr hdraws
    rwa [hwidth] at hiff

end Epochs

/-- The epochs make up a history, and within each of them counters are
consecutive.  An epoch that is one chunk and its key repeats none of them with
blocks of three bytes or more; with smaller blocks it does exactly when the chunk
is too long to leave room for the key, up to the two-byte case in which a full
chunk gives away the key. -/
theorem keystream_repeats_in_epoch_iff {c : Created F} (hcreate : create F = .ok c)
    (ops : List Operation) :
    let bs := c.generator.blockSize
    let r := (keySize + bs - 1) / bs
    (epochs (c.history ops)).flatMap (fun epoch => .installed epoch.key :: epoch.actions) =
      c.history ops ∧
    (∀ epoch ∈ epochs (c.history ops),
      (∃ v, epoch.counters =
        (List.range epoch.counters.length).map fun i => .ofNat bs (v + i)) ∧
      (epoch.counters.Nodup ↔ epoch.counters.length ≤ 256 ^ bs)) ∧
    (∀ epoch ∈ epochs (c.history ops), ∀ k key,
      epoch.chunks = [k] → epoch.rekey = some key →
      ∃ cipher, F.build epoch.key = .ok cipher ∧ k ≤ maxBlocks ∧
        epoch.counters.length = k + r ∧
        key = ((epoch.countersFor .key).flatMap fun d => cipher.encrypt d.bytes).take keySize ∧
        (3 ≤ bs → epoch.counters.Nodup ∧
          (cipher.InjectiveOnBlocks → epoch.Separated cipher)) ∧
        (bs ≤ 2 → (¬ epoch.counters.Nodup ↔ 256 ^ bs - r < k) ∧
          (cipher.InjectiveOnBlocks → (¬ epoch.Separated cipher ↔ 256 ^ bs - r < k)))) ∧
    (bs = 2 → ∀ out, (read 131072 (c.generator.after ops)).result = .ok out →
      (read 131072 (c.generator.after ops)).state.key = out.take keySize) := by
  intro bs r
  refine ⟨?_, ?_, ?_, ?_⟩
  · obtain ⟨cipher, -, -, rfl⟩ := (create_eq_ok_iff c).mp hcreate
    exact flatMap_epochs zeroKey _
  · intro epoch hmem
    obtain ⟨start, hwidth, hcounters⟩ := exists_counters_eq_upcoming hcreate hmem
    refine ⟨⟨start.value, ?_⟩, nodup_counters_iff hcreate hmem⟩
    have hpositions := Counter.upcoming_eq_map start epoch.counters.length
    rwa [← hcounters, hwidth] at hpositions
  · intro epoch hmem k key hchunks hrekey
    obtain ⟨hk, hmax, hlength, cipher, hbuild, hkey, hseparated⟩ :=
      sole_chunk hcreate hmem hchunks hrekey
    have hnodup : epoch.counters.Nodup ↔ k + r ≤ 256 ^ bs := by
      rw [nodup_counters_iff hcreate hmem, hlength]
      rfl
    refine ⟨cipher, hbuild, hmax, hlength, hkey, ?_, ?_⟩
    · intro hbs
      have hle : k + r ≤ 256 ^ bs := add_keyBlocks_le_round hbs hmax
      exact ⟨hnodup.mpr hle, fun hinjective => (hseparated hinjective).mpr hle⟩
    · intro _
      have hlong : ¬ k + r ≤ 256 ^ bs ↔ 256 ^ bs - r < k := by omega
      refine ⟨(not_congr hnodup).trans hlong, ?_⟩
      intro hinjective
      exact (not_congr (hseparated hinjective)).trans hlong
  · intro hbs out hout
    have hsize := (run_after c.generator ops).blockSize_eq
    exact key_read_of_round (hsize.trans hbs) hout

/-- A generator with transparent blocks of two bytes. -/
def twoByteGenerator : Generator (Transparent.factory ⟨.identity, 2, none⟩) where
  key := zeroKey
  cipher := Transparent.cipher .identity 2 zeroKey
  counter := .zero 2

/-- Its first request takes three blocks and the sixteen of the next key, in which no
counter comes twice and no block of the key is output; a full chunk gives away the key. -/
theorem key_of_full_chunk_is_output :
    let c : Created _ := ⟨twoByteGenerator, [.installed zeroKey, .logged (.created 2)]⟩
    (∃ epoch ∈ epochs (c.history [.reseed [], .read 5]),
      epoch.chunks = [3] ∧ epoch.counters.length = 19 ∧ epoch.counters.Nodup ∧
        epoch.Separated (Transparent.cipher .identity 2 epoch.key)) ∧
      ∃ out, (read 131072 (c.generator.after [.reseed []])).result = .ok out ∧
        (read 131072 (c.generator.after [.reseed []])).state.key = out.take keySize := by
  intro c
  have hcreate : create (Transparent.factory ⟨.identity, 2, none⟩) = .ok c := rfl
  constructor
  · have hsecond : (epochs (c.history [.reseed [], .read 5]))[1]?.map
        (fun epoch => (epoch.chunks, epoch.rekey.isSome)) = some ([3], true) := by
      decide +kernel
    obtain ⟨epoch, hget, hepoch⟩ := Option.map_eq_some_iff.mp hsecond
    obtain ⟨hchunks, hrekey⟩ := Prod.mk.inj hepoch
    obtain ⟨key, hkey⟩ := Option.isSome_iff_exists.mp hrekey
    have hmem := List.mem_of_getElem? hget
    obtain ⟨-, -, hsole, -⟩ := keystream_repeats_in_epoch_iff hcreate [.reseed [], .read 5]
    obtain ⟨cipher, hbuild, -, hlength, -, -, hsmall⟩ := hsole epoch hmem 3 key hchunks hkey
    obtain rfl : Transparent.cipher .identity 2 epoch.key = cipher := Except.ok.inj hbuild
    have hinjective : (Transparent.cipher .identity 2 epoch.key).InjectiveOnBlocks :=
      fun _ _ _ _ hsame => hsame
    obtain ⟨hrepeats, hmeets⟩ := hsmall (Nat.le_refl 2)
    have hshort : ¬ 256 ^ 2 - (keySize + 2 - 1) / 2 < 3 := by decide
    refine ⟨epoch, hmem, hchunks, hlength.trans (by decide +kernel), ?_, ?_⟩
    · exact not_not.mp (mt hrepeats.mp hshort)
    · exact not_not.mp (mt (hmeets hinjective).mp hshort)
  · have hcounter : (c.generator.after [.reseed []]).counter = .ofNat 2 1 := rfl
    have hone : (131072 + 2 - 1) / 2 ≤ maxBlocks := by decide
    have hread := (Transparent.steady .identity Nat.two_pos).result_read_iff_of_le hcounter hone
    obtain ⟨out, hout⟩ := hread.mpr (by decide)
    obtain ⟨-, -, -, hround⟩ := keystream_repeats_in_epoch_iff hcreate [.reseed []]
    exact ⟨out, hout, hround rfl out hout⟩

end Generator

end Fortuna
