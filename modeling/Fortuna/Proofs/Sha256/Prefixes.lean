import Mathlib.Data.List.Infix
import Fortuna.Cipher.Transparent
import Fortuna.Proofs.Generator.SeedingHistories

/-!
# Digests along a message

What a hasher keeps of a message is determined by the message alone, and not by the
parts in which it came: the compression of its complete blocks, and the bytes behind
them, which are fewer than a block (`Hasher.holding`).  Each part carries this on to the
message with the part behind it (`update_holding`), so the hashers along a list of parts
are those of its prefixes (`scanl_update_holding`), wherever the parts cut the blocks.  A
digest is taken of a hasher without changing it.
-/

namespace Fortuna

namespace Sha256

namespace Hasher

/-- The hasher that a message has reached. -/
def holding (message : Bytes) : Hasher where
  chain := (chunksOf 64 (message.take (message.length / 64 * 64))).foldl Chain.compress
    Chain.initial
  pending := (message.drop (message.length / 64 * 64)).reverse
  length := message.length

/-- Less than a block is kept. -/
theorem length_pending_holding (message : Bytes) :
    (holding message).pending.length = message.length % 64 := by
  have hsplit := Nat.div_add_mod message.length 64
  rw [holding, List.length_reverse, List.length_drop]
  omega

theorem update_empty (message : Bytes) : empty.update message = holding message := by
  have hsplit := Nat.div_add_mod message.length 64
  have hwhole : (message.take (message.length / 64 * 64)).length = message.length / 64 * 64 := by
    rw [List.length_take]
    omega
  have hrest : (message.drop (message.length / 64 * 64)).length = message.length % 64 := by
    rw [List.length_drop]
    omega
  have haligned : (message.take (message.length / 64 * 64)).length % 64 = 0 := by
    rw [hwhole, Nat.mul_mod_left]
  -- the complete blocks are compressed, and the rest does not complete another
  have hblocks := update_blocks (h := empty) rfl rfl haligned
  conv_lhs => rw [← List.take_append_drop (message.length / 64 * 64) message]
  rw [update_append, hblocks, update_of_lt]
  · rw [hwhole, hrest, List.append_nil, holding, Hasher.mk.injEq]
    refine ⟨rfl, rfl, ?_⟩
    change 0 + _ + _ = _
    omega
  · change (0 + (message.take _).length) % 64 + _ < 64
    rw [hwhole, hrest]
    omega

theorem holding_nil : holding [] = empty :=
  (update_empty []).symm

/-- A part carries the hasher on to the message with the part behind it. -/
theorem update_holding (message part : Bytes) :
    (holding message).update part = holding (message ++ part) := by
  rw [← update_empty, ← update_append, update_empty]

theorem finish_holding (message : Bytes) : (holding message).finish = hash message := by
  rw [← update_empty, finish_update_empty]

end Hasher

end Sha256

namespace Sha256d

namespace Hasher

/-- The hashers along a list of parts are those of its prefixes. -/
theorem scanl_update_holding (message : Bytes) (parts : List Bytes) :
    parts.scanl update ⟨.holding message⟩ =
      parts.inits.map fun front => ⟨.holding (message ++ front.flatten)⟩ := by
  induction parts generalizing message with
  | nil =>
      rw [List.scanl_nil, List.inits, List.map_singleton, List.flatten_nil, List.append_nil]
  | cons part parts ih =>
      rw [List.scanl_cons, update, Sha256.Hasher.update_holding, ih, List.inits_cons,
        List.map_cons, List.map_map, List.flatten_nil, List.append_nil]
      simp only [Function.comp_def, List.flatten_cons, List.append_assoc]

end Hasher

open Generator

/-- Of a message that arrives in parts, the digests taken at its beginning and after each
part are the SHA-256d digests of the prefixes that have arrived, which are also what each
prefix gives in one part; the hasher keeps less than a block of it.  A SHA-256d digest is
the SHA-256 digest of the 32 bytes of the SHA-256 digest.  It is what a seed of any
length installs, hashed behind the key, if the factory has a fitting cipher for it;
otherwise nothing is changed. -/
theorem digests_along_parts (parts : List Bytes) :
    let hashers := parts.scanl Hasher.update .empty
    hashers.map Hasher.finish =
        parts.inits.map (fun front => hash front.flatten) ∧
      hashers.map Hasher.finish =
        parts.inits.map (fun front => (Hasher.empty.update front.flatten).finish) ∧
      (∀ h ∈ hashers, h.inner.pending.length < 64) ∧
      (∀ message, hash message = Sha256.hash (Sha256.hash message) ∧
        (Sha256.hash message).length = 32) ∧
      ∀ {F : CipherFactory} (g : Generator F) (seed : Bytes),
        let key := Sha256.hash (Sha256.hash (g.key ++ seed))
        (∀ cipher, F.cipherFor g.blockSize key = .ok cipher →
          (reseed seed g).result = .ok () ∧ (reseed seed g).state.key = key ∧
            (reseed seed g).state.cipher = cipher) ∧
        ∀ e, F.cipherFor g.blockSize key = .error e → reseed seed g = ⟨.error e, g, []⟩ := by
  intro hashers
  have hhashers : hashers = parts.inits.map fun front => ⟨.holding front.flatten⟩ := by
    have hscan := Hasher.scanl_update_holding [] parts
    rw [Sha256.Hasher.holding_nil] at hscan
    exact hscan
  have hdigests : hashers.map Hasher.finish =
      parts.inits.map fun front => hash front.flatten := by
    rw [hhashers, List.map_map]
    exact List.map_congr_left fun front _ =>
      congrArg Sha256.hash (Sha256.Hasher.finish_holding front.flatten)
  refine ⟨hdigests, ?_, ?_, fun message => ⟨rfl, rfl⟩, fun g seed => ?_⟩
  · rw [hdigests]
    exact List.map_congr_left fun front _ =>
      (Hasher.finish_update_empty front.flatten).symm
  · rw [hhashers, List.forall_mem_map]
    intro front _
    rw [Sha256.Hasher.length_pending_holding]
    exact Nat.mod_lt _ (by decide)
  · rw [← mixedKey_eq]
    refine ⟨fun cipher hcipher => ?_, fun e hrefused => reseed_of_refused hrefused⟩
    rw [reseed_of_cipher hcipher]
    exact ⟨rfl, rfl, rfl⟩

/-- Parts that end within a block, add nothing and end with the block, and a seed that an
unseeded generator takes. -/
theorem digests_along_parts_around_a_block :
    let parts : List Bytes := [List.replicate 55 7, [], List.replicate 9 8, [9]]
    let fresh : Generator (Transparent.factory ⟨.identity, 16, none⟩) :=
      ⟨zeroKey, Transparent.cipher .identity 16 zeroKey, .zero 16, {}⟩
    (parts.scanl Hasher.update .empty).map Hasher.finish =
        [[], parts[0], parts[0], parts[0] ++ parts[2], parts[0] ++ parts[2] ++ parts[3]].map
          hash ∧
      (reseed [1, 2, 3] fresh).state.key =
        Sha256.hash (Sha256.hash (zeroKey ++ [1, 2, 3])) := by
  intro parts fresh
  obtain ⟨hdigests, -, -, -, hseeds⟩ := digests_along_parts parts
  exact ⟨hdigests.trans rfl, ((hseeds fresh [1, 2, 3]).1 _ rfl).2.1⟩

end Sha256d

end Fortuna
