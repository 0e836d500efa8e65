import Fortuna.Proofs.Chunks
import Fortuna.Sha256.Hasher

/-!
# Digests of messages that arrive in parts

A hasher compresses a block as soon as the block is complete and keeps the bytes
of the block being filled.  Bytes that do not complete a block are only kept
(`update_of_lt`); 64 bytes that begin where a block begins are compressed as one
block (`update_block`), and so is every block of a message whose length is a
multiple of 64 (`update_blocks`).  Padding makes any message such a one, so a
message that arrives in parts has the digest of the whole (`finish_update_empty`).
-/

namespace Fortuna

namespace Sha256

/-- Padding fills the last block. -/
theorem length_append_padding_mod (message : Bytes) :
    (message ++ padding message.length).length % 64 = 0 := by
  simp only [padding, List.length_append, List.length_cons, List.length_replicate,
    Bytes.length_ofNatBE]
  omega

namespace Hasher

theorem length_update (h : Hasher) (data : Bytes) :
    (h.update data).length = h.length + data.length := by
  induction data generalizing h with
  | nil => rfl
  | cons b data ih =>
      have hstep : (h.absorb b).length = h.length + 1 := by
        rw [absorb]
        split <;> rfl
      have hcons : h.update (b :: data) = (h.absorb b).update data := rfl
      rw [hcons, ih, hstep, List.length_cons]
      omega

/-- Bytes that do not complete the block are kept. -/
theorem update_of_lt {h : Hasher} {data : Bytes} (hlt : h.length % 64 + data.length < 64) :
    h.update data = ⟨h.chain, data.reverse ++ h.pending, h.length + data.length⟩ := by
  induction data generalizing h with
  | nil => rfl
  | cons b data ih =>
      rw [List.length_cons] at hlt
      have hstep : h.absorb b = ⟨h.chain, b :: h.pending, h.length + 1⟩ :=
        if_neg (by omega)
      have hcons : h.update (b :: data) = (h.absorb b).update data := rfl
      have hrest : (h.length + 1) % 64 + data.length < 64 := by omega
      rw [hcons, hstep, ih hrest, List.reverse_cons, List.append_assoc, List.length_cons]
      simp only [List.singleton_append, Hasher.mk.injEq, true_and]
      omega

/-- A block that begins where a block begins is compressed. -/
theorem update_block {h : Hasher} (hpending : h.pending = []) (haligned : h.length % 64 = 0)
    {block : Bytes} (hblock : block.length = 64) :
    h.update block = ⟨h.chain.compress block, [], h.length + 64⟩ := by
  -- all bytes but the last are kept, and the last one completes the block
  rcases List.eq_nil_or_concat block with rfl | ⟨start, last, rfl⟩
  · cases hblock
  · rw [List.concat_eq_append] at hblock ⊢
    rw [List.length_append, List.length_singleton] at hblock
    have hstart : start.length = 63 := by omega
    have hlt : h.length % 64 + start.length < 64 := by omega
    have hfull : (h.length + 63 + 1) % 64 = 0 := by omega
    rw [update_append, update_of_lt hlt, hpending, List.append_nil, hstart]
    refine (if_pos hfull).trans ?_
    rw [List.reverse_cons, List.reverse_reverse]

/-- Whole blocks are compressed one after the other. -/
theorem update_blocks {h : Hasher} (hpending : h.pending = []) (haligned : h.length % 64 = 0)
    {data : Bytes} (hdata : data.length % 64 = 0) :
    h.update data =
      ⟨(chunksOf 64 data).foldl Chain.compress h.chain, [], h.length + data.length⟩ := by
  induction data using chunk_induction (by decide : 0 < 64) generalizing h with
  | nil =>
      rcases h with ⟨chain, pending, length⟩
      obtain rfl : pending = [] := hpending
      rw [chunksOf_nil]
      rfl
  | short data hne hlt =>
      have hlength : 0 < data.length := List.length_pos_iff.mpr hne
      omega
  | chunk block data hblock ih =>
      rw [List.length_append, hblock] at hdata
      have haligned' : (h.length + 64) % 64 = 0 := by omega
      rw [update_append, update_block hpending haligned hblock, ih rfl haligned' (by omega),
        chunksOf_append (by decide) hblock, List.foldl_cons, List.length_append, hblock,
        Nat.add_assoc]

/-- A message that has arrived has the digest of the whole message. -/
theorem finish_update_empty (message : Bytes) : (empty.update message).finish = hash message := by
  have hlength : (empty.update message).length = message.length := by
    rw [length_update]
    exact Nat.zero_add _
  rw [finish, hlength, ← update_append,
    update_blocks rfl rfl (length_append_padding_mod message)]
  rfl

end Hasher

end Sha256

/-- The same for SHA-256d. -/
theorem Sha256d.Hasher.finish_update_empty (message : Bytes) :
    (empty.update message).finish = Sha256d.hash message :=
  congrArg Sha256.hash (Sha256.Hasher.finish_update_empty message)

end Fortuna
