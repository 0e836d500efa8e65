import Fortuna.Chunks

/-!
# Chunks of a list

A chunk in front of a list is the first of its chunks (`chunksOf_append`), and what is
shorter than a chunk is a chunk by itself (`chunksOf_of_lt`).  Every list is reached from
such an end by putting chunks in front (`chunk_induction`), so these two equations decide
how many chunks there are and how long each is.
-/

namespace Fortuna

variable {α : Type} {size : Nat}

/-- A list is reached from the empty list or one that is shorter than a chunk by putting
chunks in front. -/
theorem chunk_induction {motive : List α → Prop} (hpos : 0 < size) (nil : motive [])
    (short : ∀ xs, xs ≠ [] → xs.length < size → motive xs)
    (chunk : ∀ block xs, block.length = size → motive xs → motive (block ++ xs))
    (xs : List α) : motive xs := by
  induction h : xs.length using Nat.strongRecOn generalizing xs with
  | ind n ih =>
      rcases Nat.lt_or_ge xs.length size with hlt | hle
      · by_cases hnil : xs = []
        · exact hnil ▸ nil
        · exact short xs hnil hlt
      · rw [← List.take_append_drop size xs]
        refine chunk _ _ (List.length_take_of_le hle) (ih _ ?_ _ rfl)
        rw [List.length_drop]
        omega

theorem chunksOf_append (hpos : 0 < size) {block : List α}
    (hlength : block.length = size) (xs : List α) :
    chunksOf size (block ++ xs) = block :: chunksOf size xs := by
  cases block with
  | nil =>
      rw [← hlength] at hpos
      cases hpos
  | cons x block =>
      have hrest : size - 1 = block.length := by
        rw [← hlength, List.length_cons, Nat.add_sub_cancel]
      rw [List.cons_append, chunksOf_cons, hrest, List.take_left, List.drop_left]

theorem chunksOf_of_lt {xs : List α} (hne : xs ≠ []) (hlt : xs.length < size) :
    chunksOf size xs = [xs] := by
  obtain ⟨x, xs, rfl⟩ := List.exists_cons_of_ne_nil hne
  rw [List.length_cons] at hlt
  have hrest : xs.length ≤ size - 1 := by omega
  rw [chunksOf_cons, List.take_of_length_le hrest, List.drop_of_length_le hrest, chunksOf_nil]

/-- The number of chunks is the number of elements by the size, rounded up. -/
theorem length_chunksOf (hpos : 0 < size) (xs : List α) :
    (chunksOf size xs).length = (xs.length + size - 1) / size := by
  induction xs using chunk_induction hpos with
  | nil =>
      rw [chunksOf_nil, List.length_nil, List.length_nil, Nat.zero_add]
      exact (Nat.div_eq_of_lt (by omega)).symm
  | short xs hne hlt =>
      have hlength : 0 < xs.length := List.length_pos_iff.mpr hne
      have hsum : xs.length + size - 1 = xs.length - 1 + size := by omega
      rw [chunksOf_of_lt hne hlt, List.length_singleton, hsum, Nat.add_div_right _ hpos,
        Nat.div_eq_of_lt (by omega)]
  | chunk block xs hblock ih =>
      have hsum : size + xs.length + size - 1 = xs.length + size - 1 + size := by omega
      rw [chunksOf_append hpos hblock, List.length_cons, ih, List.length_append, hblock, hsum,
        Nat.add_div_right _ hpos]

theorem length_of_mem_chunksOf (hpos : 0 < size) {xs chunk : List α}
    (hmem : chunk ∈ chunksOf size xs) : 0 < chunk.length ∧ chunk.length ≤ size := by
  induction xs using chunk_induction hpos with
  | nil =>
      rw [chunksOf_nil] at hmem
      cases hmem
  | short xs hne hlt =>
      rw [chunksOf_of_lt hne hlt, List.mem_singleton] at hmem
      rw [hmem]
      exact ⟨List.length_pos_iff.mpr hne, Nat.le_of_lt hlt⟩
  | chunk block xs hblock ih =>
      rw [chunksOf_append hpos hblock] at hmem
      rcases List.mem_cons.mp hmem with rfl | hrest
      · exact ⟨hblock ▸ hpos, Nat.le_of_eq hblock⟩
      · exact ih hrest

/-- All chunks but the last are full. -/
theorem length_of_mem_dropLast_chunksOf (hpos : 0 < size) {xs chunk : List α}
    (hmem : chunk ∈ (chunksOf size xs).dropLast) : chunk.length = size := by
  induction xs using chunk_induction hpos with
  | nil =>
      rw [chunksOf_nil] at hmem
      cases hmem
  | short xs hne hlt =>
      rw [chunksOf_of_lt hne hlt] at hmem
      cases hmem
  | chunk block xs hblock ih =>
      rw [chunksOf_append hpos hblock] at hmem
      by_cases hlast : chunksOf size xs = []
      · rw [hlast] at hmem
        cases hmem
      · rw [List.dropLast_cons_of_ne_nil hlast] at hmem
        rcases List.mem_cons.mp hmem with rfl | hrest
        · exact hblock
        · exact ih hrest

end Fortuna
