import Fortuna.Toml.Scan

/-!
# What scanners read, and what they leave

Three things are said about scanners.  What a composite does on one text follows
from what its parts do there.  A repetition finds a list of values if its scanner
finds them one after another and then fails (`Collects`).  And a property of all
values that the parts can give holds of what a composite gives (`Yields`).
-/

namespace Fortuna

namespace Toml

namespace Scan

variable {α β : Type} {x y : Scan α} {f : α → Scan β} {a : α} {cs rest : List Char}

/-! ## Composite scanners on one text -/

theorem bind_of_some (hx : x cs = some (a, rest)) : (x >>= f) cs = f a rest := by
  change (x cs).bind _ = _
  rw [hx]
  rfl

theorem bind_of_none (hx : x cs = none) : (x >>= f) cs = none := by
  change (x cs).bind _ = _
  rw [hx]
  rfl

theorem exists_of_bind_eq_some {b : β} (h : (x >>= f) cs = some (b, rest)) :
    ∃ a next, x cs = some (a, next) ∧ f a next = some (b, rest) := by
  cases hx : x cs with
  | none => exact absurd ((bind_of_none hx).symm.trans h) nofun
  | some r => exact ⟨r.1, r.2, rfl, (bind_of_some hx).symm.trans h⟩

theorem orElse_of_some (hx : x cs = some (a, rest)) : (x <|> y) cs = some (a, rest) := by
  change (x cs).orElse _ = _
  rw [hx]
  rfl

theorem orElse_of_none (hx : x cs = none) : (x <|> y) cs = y cs := by
  change (x cs).orElse _ = _
  rw [hx]
  rfl

theorem map_of_some {g : α → β} (hx : x cs = some (a, rest)) :
    (g <$> x) cs = some (g a, rest) := by
  rw [map_eq_pure_bind, bind_of_some hx]
  rfl

theorem map_of_none {g : α → β} (hx : x cs = none) : (g <$> x) cs = none := by
  rw [map_eq_pure_bind, bind_of_none hx]

theorem optional_of_none (hx : x cs = none) : (optional x) cs = some (none, cs) := by
  rw [optional, orElse_of_none (map_of_none hx)]
  rfl

theorem satisfying_cons {p : Char → Bool} {c : Char} (hc : p c = true) (cs : List Char) :
    satisfying p (c :: cs) = some (c, cs) := by
  rw [satisfying, if_pos hc]

theorem eq_cons_of_satisfying {p : Char → Bool} {c : Char}
    (h : satisfying p cs = some (c, rest)) : cs = c :: rest := by
  cases cs with
  | nil => exact absurd h nofun
  | cons d cs =>
      rw [satisfying] at h
      split at h
      · obtain ⟨rfl, rfl⟩ := Prod.mk.inj (Option.some.inj h)
        rfl
      · exact absurd h nofun

theorem exactly_cons (c : Char) (cs : List Char) : exactly c (c :: cs) = some ((), cs) := by
  have hfirst : satisfying (· == c) (c :: cs) = some (c, cs) :=
    satisfying_cons (beq_self_eq_true c) cs
  rw [exactly, bind_of_some hfirst]
  rfl

/-! ## Runs of a class -/

/-- The text does not begin with a character of the class. -/
def Leaves (p : Char → Bool) (cs : List Char) : Prop :=
  ∀ c ∈ cs.head?, p c = false

variable {p : Char → Bool} {text : List Char}

theorem leaves_cons {c : Char} (hc : p c = false) (cs : List Char) : Leaves p (c :: cs) := by
  intro d hd
  rw [← Option.some.inj hd]
  exact hc

theorem Leaves.append (htext : Leaves p text) (hrest : Leaves p rest) :
    Leaves p (text ++ rest) := by
  cases text with
  | nil => exact hrest
  | cons c text => exact leaves_cons (htext c rfl) _

theorem span_of_leaves (hrest : Leaves p rest) : span p rest = some ([], rest) := by
  cases rest with
  | nil => rfl
  | cons c rest =>
      have hc : ¬p c = true := by
        rw [hrest c rfl]
        exact Bool.false_ne_true
      rw [span, List.takeWhile_cons_of_neg hc, List.dropWhile_cons_of_neg hc]

theorem span_append (htext : ∀ c ∈ text, p c = true) (hrest : Leaves p rest) :
    span p (text ++ rest) = some (text, rest) := by
  obtain ⟨htake, hdrop⟩ := Prod.mk.inj (Option.some.inj (span_of_leaves hrest))
  rw [span, List.takeWhile_append_of_pos htext, List.dropWhile_append_of_pos htext, htake, hdrop,
    List.append_nil]

theorem satisfying_of_leaves (hrest : Leaves p rest) : satisfying p rest = none := by
  cases rest with
  | nil => rfl
  | cons c rest => rw [satisfying, hrest c rfl, if_neg Bool.false_ne_true]

theorem exactly_of_leaves {c : Char} (hrest : Leaves (· == c) rest) : exactly c rest = none := by
  rw [exactly, bind_of_none (satisfying_of_leaves hrest)]

theorem span1_append (hne : text ≠ []) (htext : ∀ c ∈ text, p c = true) (hrest : Leaves p rest) :
    span1 p (text ++ rest) = some (text, rest) := by
  obtain ⟨c, text, rfl⟩ := List.exists_cons_of_ne_nil hne
  rw [List.forall_mem_cons] at htext
  rw [span1, List.cons_append, bind_of_some (satisfying_cons htext.1 _),
    bind_of_some (span_append htext.2 hrest)]
  rfl

theorem span1_of_leaves (hrest : Leaves p rest) : span1 p rest = none := by
  rw [span1, bind_of_none (satisfying_of_leaves hrest)]

/-! ## Repetitions -/

/-- On a text a scanner finds the values one after another, fails, and leaves the
rest. -/
inductive Collects (x : Scan α) : List Char → List α → List Char → Prop
  | done {cs : List Char} (hend : x cs = none) : Collects x cs [] cs
  | step {cs next rest : List Char} {a : α} {as : List α} (hx : x cs = some (a, next))
      (hless : next.length < cs.length) (hrest : Collects x next as rest) :
      Collects x cs (a :: as) rest

theorem Collects.collect_eq {as : List α} (h : Collects x cs as rest) (found : List α) (n : Nat)
    (hn : cs.length ≤ n) : collect x found n cs = some (found.reverse ++ as, rest) := by
  induction h generalizing found n with
  | done hend =>
      cases n with
      | zero => rw [collect, List.append_nil]
      | succ n => rw [collect, hend, List.append_nil]
  | step hx hless _ ih =>
      cases n with
      | zero => omega
      | succ n =>
          rw [collect, hx]
          dsimp only
          rw [ih _ n (by omega), List.reverse_cons, List.append_assoc, List.singleton_append]

theorem Collects.many_eq {as : List α} (h : Collects x cs as rest) :
    many x cs = some (as, rest) :=
  h.collect_eq [] cs.length (Nat.le_refl _)

theorem Collects.length_le {as : List α} (h : Collects x cs as rest) : rest.length ≤ cs.length := by
  induction h with
  | done => exact Nat.le_refl _
  | step _ hless _ ih => exact Nat.le_trans ih (Nat.le_of_lt hless)

/-! ## Properties of what is read -/

/-- Whatever a scanner reads has the property. -/
def Yields (P : α → Prop) (x : Scan α) : Prop :=
  ∀ cs a rest, x cs = some (a, rest) → P a

variable {P : α → Prop} {Q : β → Prop}

theorem Yields.trivial : Yields (fun _ => True) x :=
  fun _ _ _ _ => True.intro

theorem Yields.pure (ha : P a) : Yields P (pure a) := by
  intro cs b rest h
  obtain ⟨rfl, -⟩ := Prod.mk.inj (Option.some.inj h)
  exact ha

theorem Yields.failure : Yields P (failure : Scan α) := by
  intro cs a rest h
  exact absurd h nofun

theorem Yields.bind (hx : Yields P x) (hf : ∀ a, P a → Yields Q (f a)) :
    Yields Q (x >>= f) := by
  intro cs b rest h
  obtain ⟨a, next, hfirst, hthen⟩ := exists_of_bind_eq_some h
  exact hf a (hx _ _ _ hfirst) _ _ _ hthen

theorem Yields.seqLeft {z : Scan β} (hx : Yields P x) : Yields P (x <* z) := by
  rw [seqLeft_eq_bind]
  exact hx.bind fun a ha => Yields.trivial.bind fun _ _ => Yields.pure ha

theorem Yields.seqRight {z : Scan β} (hz : Yields Q z) : Yields Q (x *> z) := by
  rw [seqRight_eq_bind]
  exact Yields.trivial.bind fun _ _ => hz

theorem Yields.orElse (hx : Yields P x) (hy : Yields P y) : Yields P (x <|> y) := by
  intro cs a rest h
  cases hcs : x cs with
  | none =>
      rw [orElse_of_none hcs] at h
      exact hy _ _ _ h
  | some r =>
      rw [orElse_of_some hcs] at h
      exact hx _ _ _ (hcs.trans h)

theorem Yields.collect (hx : Yields P x) {found : List α} (hfound : ∀ a ∈ found, P a) (n : Nat) :
    Yields (fun as => ∀ a ∈ as, P a) (collect x found n) := by
  intro cs as rest h
  induction n generalizing cs found with
  | zero =>
      obtain ⟨rfl, -⟩ := Prod.mk.inj (Option.some.inj h)
      intro a ha
      exact hfound a (List.mem_reverse.mp ha)
  | succ n ih =>
      rw [Scan.collect] at h
      cases hcs : x cs with
      | none =>
          rw [hcs] at h
          obtain ⟨rfl, -⟩ := Prod.mk.inj (Option.some.inj h)
          intro a ha
          exact hfound a (List.mem_reverse.mp ha)
      | some r =>
          rw [hcs] at h
          exact ih (List.forall_mem_cons.mpr ⟨hx _ _ _ hcs, hfound⟩) _ h

theorem Yields.many (hx : Yields P x) : Yields (fun as => ∀ a ∈ as, P a) (many x) :=
  fun cs _ _ h => hx.collect (fun _ h => absurd h List.not_mem_nil) cs.length _ _ _ h

end Scan

end Toml

end Fortuna
