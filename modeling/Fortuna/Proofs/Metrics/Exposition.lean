import Fortuna.Metrics.Exposition
import Mathlib.Algebra.Group.Nat.Defs

/-!
# Reading an exposition back

The value of a metric stands on the one line of an exposition that begins with its
name and a blank (`samples_text`).  It is printed as a float, by the same rule for
small numbers and for large ones: of the numerals that read back as the float, the
shortest.  Up to `2 ^ 53` a whole number is the only one that reads back as its
float, so it is printed exactly (`shortestText_of_le`).
-/

namespace Fortuna

/-! ## Exact numerals -/

namespace Binary64

open Whole (nearest)

theorem nearest_of_lt {n : Nat} (hn : n < 2 ^ 53) : nearest n = ⟨n, 0⟩ := by
  have hexponent : n.log2 - 52 = 0 := by
    by_cases hzero : n = 0
    · rw [hzero, Nat.log2_zero]
    · have hlog := (Nat.log2_lt hzero).mpr hn
      omega
  have hsize : n ≠ Nat.pow 2 53 := Nat.ne_of_lt hn
  have hunit : Nat.pow 2 0 = 1 := rfl
  simp only [nearest, hexponent, hunit, Nat.div_one, Nat.mod_one, Nat.mul_zero,
    Nat.not_lt_zero, Nat.zero_ne_one, false_and, or_self, ↓reduceIte, hsize]

/-- What is found on a grid reads back. -/
theorem readsBack_of_onGrid {f : Whole} {unit m : Nat} (hm : f.onGrid unit = some m) :
    f.readsBack m = true := by
  rw [Whole.onGrid] at hm
  by_cases hlow : f.readsBack (f.value / unit * unit) = true
  · by_cases hhigh : f.readsBack (f.value / unit * unit + unit) = true
    · simp only [hlow, hhigh, Option.some.injEq] at hm
      rw [← hm]
      split
      · exact hlow
      · exact hhigh
    · rw [Bool.not_eq_true] at hhigh
      simp only [hlow, hhigh, Option.some.injEq] at hm
      rwa [← hm]
  · rw [Bool.not_eq_true] at hlow
    by_cases hhigh : f.readsBack (f.value / unit * unit + unit) = true
    · simp only [hlow, hhigh, Option.some.injEq] at hm
      rwa [← hm]
    · rw [Bool.not_eq_true] at hhigh
      simp only [hlow, hhigh, reduceCtorEq] at hm

/-- With exponent 0 only the float itself reads back, among whole numbers. -/
theorem eq_of_readsBack {n x : Nat} (hx : (⟨n, 0⟩ : Whole).readsBack x = true) : x = n := by
  have hvalue : (⟨n, 0⟩ : Whole).value = n := Nat.mul_one n
  have habove : Nat.pow 2 (0 + 1) = 2 := rfl
  have hunit : Nat.pow 2 0 = 1 := rfl
  have hbelow : (if n = Nat.pow 2 52 then 1 else 2) ≤ 2 := by
    split
    · exact Nat.le_succ 1
    · exact Nat.le_refl 2
  simp only [Whole.readsBack, hvalue, habove, hunit] at hx
  generalize (if n = Nat.pow 2 52 then 1 else 2) = below at hx hbelow
  split at hx
  · rw [decide_eq_true_eq] at hx
    omega
  · rw [decide_eq_true_eq] at hx
    omega

theorem shortest_of_exponent_zero (n zeros : Nat) : (⟨n, 0⟩ : Whole).shortest zeros = n := by
  induction zeros with
  | zero => exact Nat.mul_one n
  | succ zeros ih =>
      rw [Whole.shortest, ih]
      cases hgrid : (⟨n, 0⟩ : Whole).onGrid (Nat.pow 10 (zeros + 1)) with
      | none => rfl
      | some m => exact eq_of_readsBack (readsBack_of_onGrid hgrid)

/-- Whole numbers up to `2 ^ 53` are printed exactly. -/
theorem shortestText_of_le {n : Nat} (hn : n ≤ 2 ^ 53) : shortestText n = Decimal.ofNat n := by
  rcases Nat.lt_or_eq_of_le hn with hlt | rfl
  · rw [shortestText, nearest_of_lt hlt]
    simp only [shortest_of_exponent_zero]
  · decide +kernel

/-- One more is printed as `2 ^ 53` too. -/
example : shortestText (2 ^ 53 + 1) = Decimal.ofNat (2 ^ 53) := by
  decide +kernel

theorem integerText_natCast (n : Nat) : integerText n = shortestText n := by
  rw [integerText, if_neg (Int.not_lt.mpr (Int.natCast_nonneg n)), Int.natAbs_natCast]

/-- Numerals keep to their line. -/
theorem newline_notMem_integerText (n : Int) : '\n' ∉ (integerText n).toList := by
  have hdigits (m : Nat) : '\n' ∉ (Decimal.ofNat m).toList := by
    rw [Decimal.ofNat, String.toList_ofList]
    intro hmem
    have hdigit := Nat.isDigit_of_mem_toDigits (by decide) (by decide) hmem
    cases hdigit
  rw [integerText]
  split
  · rw [String.toList_append, List.mem_append]
    rintro (hsign | hmem)
    · revert hsign
      decide
    · exact hdigits _ hmem
  · exact hdigits _

end Binary64

/-! ## Samples -/

/-- Whether a line begins with a name and a blank. -/
def isNamed (name : String) (line : List Char) : Bool :=
  line.takeWhile (· != ' ') == name.toList

/-- The lines of an exposition that begin with the given name and a blank. -/
def samples (text name : String) : List String :=
  ((text.toList.splitOn '\n').filter (isNamed name)).map String.ofList

namespace Family

def helpLine (f : Family) : String :=
  "# HELP " ++ f.name ++ " " ++ f.help

def typeLine (f : Family) : String :=
  "# TYPE " ++ f.name ++ " " ++ f.type.name

/-- The line that shows the value. -/
def sample (f : Family) : String :=
  f.name ++ " " ++ Binary64.integerText f.value

/-- A family whose name is one word and whose help is one line. -/
structure OnLines (f : Family) : Prop where
  blank_notMem_name : ' ' ∉ f.name.toList
  newline_notMem_name : '\n' ∉ f.name.toList
  newline_notMem_help : '\n' ∉ f.help.toList

theorem text_eq (f : Family) :
    f.text = f.helpLine ++ "\n" ++ (f.typeLine ++ "\n" ++ (f.sample ++ "\n")) := by
  unfold text helpLine typeLine sample
  simp only [String.append_assoc]

theorem toList_text_append (f : Family) (rest : List Char) :
    f.text.toList ++ rest =
      f.helpLine.toList ++ '\n' ::
        (f.typeLine.toList ++ '\n' :: (f.sample.toList ++ '\n' :: rest)) := by
  have hend (line text : String) :
      (line ++ "\n" ++ text).toList = line.toList ++ '\n' :: text.toList := by
    rw [String.toList_append, String.toList_append, List.append_assoc]
    rfl
  rw [text_eq, hend, hend, String.toList_append]
  simp only [List.append_assoc, List.cons_append]
  rfl

variable {f : Family}

theorem splitOn_text_append (hf : f.OnLines) (rest : List Char) :
    (f.text.toList ++ rest).splitOn '\n' =
      f.helpLine.toList :: f.typeLine.toList :: f.sample.toList :: rest.splitOn '\n' := by
  obtain ⟨-, hname, hhelp⟩ := hf
  have htype : '\n' ∉ f.type.name.toList := by
    cases f.type <;> decide
  have hhelpLine : '\n' ∉ f.helpLine.toList := by
    simp [helpLine, hname, hhelp]
  have htypeLine : '\n' ∉ f.typeLine.toList := by
    simp [typeLine, hname, htype]
  have hsample : '\n' ∉ f.sample.toList := by
    simp [sample, hname, Binary64.newline_notMem_integerText]
  rw [toList_text_append, List.splitOn_append_cons_self_of_not_mem hhelpLine,
    List.splitOn_append_cons_self_of_not_mem htypeLine,
    List.splitOn_append_cons_self_of_not_mem hsample]

theorem isNamed_sample (hf : f.OnLines) (name : String) :
    isNamed name f.sample.toList = (f.name == name) := by
  have htake : f.sample.toList.takeWhile (· != ' ') = f.name.toList := by
    have hword : ∀ c ∈ f.name.toList, (c != ' ') = true := by
      intro c hc
      rw [bne_iff_ne]
      rintro rfl
      exact hf.blank_notMem_name hc
    have hblank : " ".toList = [' '] := rfl
    have hstop (rest : List Char) : (' ' :: rest).takeWhile (· != ' ') = [] := rfl
    rw [sample, String.toList_append, String.toList_append, hblank, List.append_assoc,
      List.takeWhile_append_of_pos hword, List.singleton_append, hstop, List.append_nil]
  rw [isNamed, htake, Bool.eq_iff_iff, beq_iff_eq, beq_iff_eq, String.toList_inj]

/-- Comments have no name. -/
theorem isNamed_comment {name : String} (hname : name ≠ "#") (text : List Char) :
    isNamed name ('#' :: ' ' :: text) = false := by
  have htake : ('#' :: ' ' :: text).takeWhile (· != ' ') = "#".toList := rfl
  rw [isNamed, htake, beq_eq_false_iff_ne]
  intro heq
  exact hname (String.toList_inj.mp heq.symm)

theorem isNamed_helpLine {name : String} (hname : name ≠ "#") (f : Family) :
    isNamed name f.helpLine.toList = false := by
  rw [helpLine, String.append_assoc, String.append_assoc, String.toList_append]
  exact isNamed_comment hname _

theorem isNamed_typeLine {name : String} (hname : name ≠ "#") (f : Family) :
    isNamed name f.typeLine.toList = false := by
  rw [typeLine, String.append_assoc, String.append_assoc, String.toList_append]
  exact isNamed_comment hname _

end Family

/-- An exposition shows the values of the families with a name, and no others, on
the lines that begin with the name. -/
theorem samples_join {families : List Family} (hlines : ∀ f ∈ families, f.OnLines) {name : String}
    (hcomment : name ≠ "#") (hempty : name ≠ "") :
    samples (String.join (families.map Family.text)) name =
      (families.filter (·.name == name)).map Family.sample := by
  have hchars : ((families.flatMap fun f => f.text.toList).splitOn '\n').filter (isNamed name) =
      (families.filter (·.name == name)).map fun f => f.sample.toList := by
    induction families with
    | nil =>
        have hnone : isNamed name [] = false := by
          rw [isNamed, List.takeWhile_nil, beq_eq_false_iff_ne]
          intro heq
          exact hempty (String.toList_inj.mp heq.symm)
        rw [List.flatMap_nil, List.splitOn_nil, List.filter_cons, hnone]
        rfl
    | cons f families ih =>
        rw [List.forall_mem_cons] at hlines
        obtain ⟨hf, hrest⟩ := hlines
        have hhelp : ¬ isNamed name f.helpLine.toList = true :=
          Bool.eq_false_iff.mp (Family.isNamed_helpLine hcomment f)
        have htype : ¬ isNamed name f.typeLine.toList = true :=
          Bool.eq_false_iff.mp (Family.isNamed_typeLine hcomment f)
        rw [List.flatMap_cons, Family.splitOn_text_append hf, List.filter_cons_of_neg hhelp,
          List.filter_cons_of_neg htype, List.filter_cons, List.filter_cons, ih hrest,
          Family.isNamed_sample hf]
        split
        · rfl
        · rfl
  rw [samples, String.toList_join, List.flatMap_map, hchars, List.map_map]
  refine List.map_congr_left fun f _ => ?_
  exact String.ofList_toList

end Fortuna
