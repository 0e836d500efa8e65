import Fortuna.Cipher.Transparent
import Fortuna.Proofs.Generator.Request

/-!
# Random access to the output of a request

Every byte of a successful request, and the state behind it, in terms of the
state before it.  Byte `p` lies in block `p / blockSize`, which lies in chunk
`p / blockSize / maxBlocks`; the counter of that block is ahead of its index by
the keys of the chunks before.  The keys themselves follow the recurrence
`Generator.epochKey`.
-/

namespace Fortuna

/-! ## Blocks of one length -/

theorem length_flatMap_range {α : Type} {f : Nat → List α} {count size : Nat}
    (hf : ∀ b < count, (f b).length = size) :
    ((List.range count).flatMap f).length = count * size := by
  induction count with
  | zero => simp
  | succ count ih =>
      have hinit := ih fun b hb => hf b (Nat.lt_succ_of_lt hb)
      rw [List.range_succ, List.flatMap_append, List.length_append, hinit, List.flatMap_singleton,
        hf count (Nat.lt_succ_self count), Nat.succ_mul]

theorem getElem?_flatMap_range {α : Type} {f : Nat → List α} {count size p : Nat}
    (hf : ∀ b < count, (f b).length = size) (hp : p < count * size) :
    ((List.range count).flatMap f)[p]? = (f (p / size))[p % size]? := by
  induction count with
  | zero => simp at hp
  | succ count ih =>
      have hinit : ∀ b < count, (f b).length = size :=
        fun b hb => hf b (Nat.lt_succ_of_lt hb)
      have hlen := length_flatMap_range hinit
      rw [List.range_succ, List.flatMap_append, List.flatMap_singleton]
      by_cases hlt : p < count * size
      · rw [List.getElem?_append_left (by rw [hlen]; exact hlt)]
        exact ih hinit hlt
      · rw [Nat.succ_mul] at hp
        have hdiv : p / size = count :=
          Nat.div_eq_of_lt_le (Nat.le_of_not_lt hlt) (by rw [Nat.succ_mul]; exact hp)
        have hmod : p % size = p - count * size := by
          have hsum := Nat.div_add_mod p size
          rw [hdiv, Nat.mul_comm] at hsum
          omega
        rw [List.getElem?_append_right (by rw [hlen]; omega), hlen, hdiv, hmod]

namespace Generator

variable {F : CipherFactory}

/-! ## The output -/

/-- Every key of a successful request has a cipher. -/
theorem exists_build_epochKey {g : Generator F} (hg : g.Consistent)
    {blocks e : Nat} {out : Bytes}
    (hout : (chunks (chunkSizes blocks) g).result = .ok out)
    (he : e ≤ (chunkSizes blocks).length) :
    ∃ cipher, F.build (g.epochKey blocks e) = .ok cipher := by
  obtain ⟨before, hbefore⟩ := exists_result_take hout e
  obtain ⟨hafter, -⟩ := afterChunks_take hg he hbefore
  exact ⟨_, hafter.key ▸ hafter.build_key⟩

theorem length_outputBlock {g : Generator F} (hg : g.Consistent)
    {blocks b : Nat} {out : Bytes}
    (hout : (chunks (chunkSizes blocks) g).result = .ok out) (hb : b < blocks) :
    (g.outputBlock blocks b).length = g.blockSize := by
  have hchunk : b / maxBlocks < (chunkSizes blocks).length := by
    rw [lt_length_chunkSizes_iff]
    exact lt_of_le_of_lt (Nat.div_mul_le_self b maxBlocks) hb
  obtain ⟨cipher, hcipher⟩ := exists_build_epochKey hg hout hchunk.le
  rw [outputBlock, CipherFactory.encryption_of_build hcipher, cipher.length_encrypt,
    Bytes.length_ofNatLE]

/-- A request for `blocks` blocks, in closed form. -/
theorem chunks_chunkSizes {g : Generator F} (hg : g.Consistent)
    {blocks : Nat} {out : Bytes}
    (hout : (chunks (chunkSizes blocks) g).result = .ok out) :
    AfterChunks g blocks (chunkSizes blocks).length (chunks (chunkSizes blocks) g).state ∧
      out = (List.range blocks).flatMap (g.outputBlock blocks) := by
  have hwhole : (chunks ((chunkSizes blocks).take (chunkSizes blocks).length) g).result =
      .ok out := by
    rw [List.take_length]
    exact hout
  have htake := afterChunks_take hg (le_refl _) hwhole
  rwa [List.take_length, Nat.min_eq_right (le_length_chunkSizes_mul blocks)] at htake

/-- Byte `p` of the output of a request is byte `p % bs` of the block at position
`c + b + e * r` under key `e`, where `b` is the block and `e` the chunk in which
`p` lies; and the request leaves the key behind its last chunk, the counter
advanced by every block made, and totals grown to match. -/
theorem read_random_access {g : Generator F} (hg : g.Consistent) {n : Nat} {out : Bytes}
    (hout : (read n g).result = .ok out) :
    let bs := g.blockSize
    let c := g.counter.value
    let r := (keySize + bs - 1) / bs
    let B := (n + bs - 1) / bs
    let m := (B + maxBlocks - 1) / maxBlocks
    out.length = n ∧
      (∀ p < n,
        let b := p / bs
        let e := b / maxBlocks
        out[p]? = (F.encryption (g.epochKey B e) (Bytes.ofNatLE bs (c + b + e * r)))[p % bs]?) ∧
      ∃ cipher, F.build (g.epochKey B m) = .ok cipher ∧ cipher.blockSize = bs ∧
        (read n g).state =
          { key := g.epochKey B m
            cipher
            counter := .ofNat bs (c + B + m * r)
            totals :=
              { reseeds := g.totals.reseeds
                rekeys := g.totals.rekeys + m
                blocks := g.totals.blocks + (B + m * r)
                bytes := g.totals.bytes + n } } := by
  intro bs c r B m
  have hB : g.blocksFor n = B := rfl
  have hm : (chunkSizes B).length = m := length_chunkSizes B
  cases hseeded : g.isSeeded with
  | false =>
      rw [read_of_unseeded n hseeded] at hout
      cases hout
  | true =>
      rw [read_of_seeded n hseeded, Outcome.result_andThen_eq_ok_iff] at hout
      obtain ⟨whole, hwhole, htake⟩ := hout
      obtain rfl : whole.take n = out := Except.ok.inj htake
      rw [hB] at hwhole
      obtain ⟨⟨hkey, hcipher, hsize, hcounter, htotals⟩, hbytes⟩ := chunks_chunkSizes hg hwhole
      have hlen : ∀ b < B, (g.outputBlock B b).length = bs :=
        fun b hb => length_outputBlock hg hwhole hb
      have hcover : n ≤ B * bs := le_blocksFor_mul hg.blockSize_pos n
      have hall : min (m * maxBlocks) B = B := by
        have hlast := (lt_length_chunkSizes_iff B m).not
        rw [hm] at hlast
        exact Nat.min_eq_right (Nat.le_of_not_lt (hlast.mp (Nat.lt_irrefl m)))
      refine ⟨?_, ?_, ?_⟩
      · rw [List.length_take, hbytes, length_flatMap_range hlen, Nat.min_eq_left hcover]
      · intro p hp b e
        rw [List.getElem?_take_of_lt hp, hbytes, getElem?_flatMap_range hlen (by omega)]
        rfl
      · rw [hm] at hkey hcounter htotals
        rw [hall] at hcounter htotals
        refine ⟨_, hkey ▸ hcipher, hsize, ?_⟩
        rw [read_of_seeded n hseeded, hB, Outcome.andThen_of_ok hwhole, deliver_apply, delivered]
        generalize (chunks (chunkSizes B) g).state = h at *
        rcases h with ⟨key, cipher, counter, totals⟩
        simp only at hkey hcounter htotals ⊢
        rw [hkey, hcounter, htotals]
        rfl

/-- A generator with transparent blocks of five bytes, two steps before its
first carry. -/
def fiveByteGenerator : Generator (Transparent.factory ⟨.identity, 5, none⟩) where
  key := zeroKey
  cipher := Transparent.cipher .identity 5 zeroKey
  counter := .ofNat 5 254

theorem consistent_fiveByteGenerator : fiveByteGenerator.Consistent :=
  ⟨rfl, rfl, rfl, by decide⟩

theorem read_random_access_across_carry :
    (read 12 fiveByteGenerator).result = .ok [254, 0, 0, 0, 0, 255, 0, 0, 0, 0, 0, 1] ∧
      ([254, 0, 0, 0, 0, 255, 0, 0, 0, 0, 0, 1] : Bytes)[11]? =
        ((Transparent.factory ⟨.identity, 5, none⟩).encryption zeroKey
          (Bytes.ofNatLE 5 (254 + 2 + 0 * 7)))[1]? ∧
      ∃ cipher, (Transparent.factory ⟨.identity, 5, none⟩).build
          (fiveByteGenerator.epochKey 3 1) = .ok cipher ∧ cipher.blockSize = 5 ∧
        (read 12 fiveByteGenerator).state =
          { key := fiveByteGenerator.epochKey 3 1
            cipher
            counter := .ofNat 5 (254 + 3 + 1 * 7)
            totals := { rekeys := 1, blocks := 10, bytes := 12 } } := by
  have hout : (read 12 fiveByteGenerator).result =
      .ok [254, 0, 0, 0, 0, 255, 0, 0, 0, 0, 0, 1] := rfl
  obtain ⟨-, hbyte, hstate⟩ := read_random_access consistent_fiveByteGenerator hout
  exact ⟨hout, hbyte 11 (by decide), hstate⟩

end Generator

end Fortuna
