/-!
# Cutting a list into chunks

A list is cut into consecutive chunks of one size, the last of which may be
shorter.  No chunk is empty and nothing is lost: the chunks concatenate to the
list (`flatten_chunksOf`).
-/

namespace Fortuna

/-- The chunks of `xs`, put behind the chunks already cut (latest first). -/
def cutChunks (size : Nat) (cut : List (List α)) (xs : List α) : List (List α) :=
  match xs with
  | [] => cut.reverse
  | x :: xs => cutChunks size ((x :: xs.take (size - 1)) :: cut) (xs.drop (size - 1))
termination_by xs.length
decreasing_by simp only [List.length_drop, List.length_cons]; omega

/-- The consecutive chunks of `size` elements of `xs`; the last one holds what
remains.  Size 0 counts as 1. -/
def chunksOf (size : Nat) (xs : List α) : List (List α) :=
  cutChunks size [] xs

theorem cutChunks_eq_append (size : Nat) (cut : List (List α)) (xs : List α) :
    cutChunks size cut xs = cut.reverse ++ cutChunks size [] xs := by
  induction h : xs.length using Nat.strongRecOn generalizing cut xs with
  | ind n ih =>
    match xs with
    | [] => simp [cutChunks]
    | x :: xs =>
      have hlt : (xs.drop (size - 1)).length < n := by
        simp only [List.length_drop, ← h, List.length_cons]; omega
      rw [cutChunks, cutChunks, ih _ hlt _ _ rfl, ih _ hlt [_] _ rfl]
      simp

@[simp] theorem chunksOf_nil (size : Nat) : chunksOf size ([] : List α) = [] := by
  simp [chunksOf, cutChunks]

theorem chunksOf_cons (size : Nat) (x : α) (xs : List α) :
    chunksOf size (x :: xs) =
      (x :: xs.take (size - 1)) :: chunksOf size (xs.drop (size - 1)) := by
  rw [chunksOf, cutChunks, cutChunks_eq_append]
  rfl

theorem flatten_chunksOf (size : Nat) (xs : List α) :
    (chunksOf size xs).flatten = xs := by
  induction h : xs.length using Nat.strongRecOn generalizing xs with
  | ind n ih =>
    match xs with
    | [] => simp
    | x :: xs =>
      have hlt : (xs.drop (size - 1)).length < n := by
        simp only [List.length_drop, ← h, List.length_cons]; omega
      rw [chunksOf_cons, List.flatten_cons, ih _ hlt _ rfl, List.cons_append,
        List.take_append_drop]

end Fortuna
