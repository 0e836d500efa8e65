import Fortuna.Proofs.Toml.Scan
import Fortuna.Toml.Grammar

/-!
# Texts that spell values

Numerals, truth values and strings that are written at the end of a line are read
back as what was written (`Spells`).

A scalar is scanned in two steps: all characters that scalars are made of are
taken, and what was taken must be a date or the text of a value.  A numeral is no
date, because it has no hyphen behind digits, and its digits have no underscore,
no mark of another base and no needless zero in front.
-/

namespace Fortuna

namespace Toml

/-! ## Digits -/

theorem digits?_eq_map {digit? : Char → Option Nat} {g : Char → Nat} {cs : List Char}
    (hne : cs ≠ []) (hplain : '_' ∉ cs) (hdigit : ∀ c ∈ cs, digit? c = some (g c)) :
    digits? digit? cs = some (cs.map g) := by
  fun_induction digits? digit? cs with
  | case1 => exact absurd rfl hne
  | case2 c =>
      rw [hdigit c List.mem_cons_self]
      rfl
  | case3 c rest ih => exact absurd (List.mem_cons_of_mem _ List.mem_cons_self) hplain
  | case4 c rest hrest _ ih =>
      rw [List.forall_mem_cons] at hdigit
      rw [List.mem_cons, not_or] at hplain
      rw [hdigit.1, ih hrest hplain.2 hdigit.2]
      rfl

theorem digitBelow_of_isDigit {c : Char} (hc : c.isDigit = true) :
    digitBelow 10 c = some (Decimal.digitValue c) := by
  simp only [Char.isDigit, Bool.and_eq_true, decide_eq_true_eq] at hc
  have hrange : '0' ≤ c ∧ c ≤ '9' := hc
  have hhex : Bytes.hexDigit? c = some (Decimal.digitValue c) := by
    rw [Bytes.hexDigit?, if_pos hrange]
    rfl
  have hhigh : c.toNat ≤ '9'.toNat := hrange.2
  have hlow : '0'.toNat = 48 := rfl
  have hnine : '9'.toNat = 57 := rfl
  have hvalue : Decimal.digitValue c < 10 := by
    rw [Decimal.digitValue]
    omega
  rw [digitBelow, hhex, Option.filter_some, decide_eq_true hvalue, if_pos rfl]

theorem decimal?_digits (n : Nat) : decimal? (Decimal.digits n) = some n := by
  have hds : digits? (digitBelow 10) (Decimal.digits n) =
      some ((Decimal.digits n).map Decimal.digitValue) :=
    digits?_eq_map (Decimal.digits_ne_nil n) Nat.underscore_not_in_toDigits fun c hc =>
      digitBelow_of_isDigit (Decimal.isDigit_of_mem_digits hc)
  rw [decimal?, hds]
  split
  · next d ds hzero =>
      exact absurd (Decimal.eq_nil_of_map_digits (Option.some.inj hzero)) (List.cons_ne_nil _ _)
  · rw [Option.map_some, Decimal.value_digits]

/-! ## Integers -/

theorem notMem_digits {c : Char} (hc : c.isDigit = false) (n : Nat) : c ∉ Decimal.digits n := by
  intro hmem
  rw [Decimal.isDigit_of_mem_digits hmem] at hc
  exact Bool.noConfusion hc

theorem splitSign_digits (n : Nat) : splitSign (Decimal.digits n) = (false, Decimal.digits n) := by
  unfold splitSign
  split
  · next cs hplus => exact absurd (hplus ▸ List.mem_cons_self) (notMem_digits rfl n)
  · next cs hminus => exact absurd (hminus ▸ List.mem_cons_self) (notMem_digits rfl n)
  · rfl

/-- A numeral without the mark of another base is decimal. -/
theorem unboundedInteger?_of_notMem {cs : List Char} (hx : 'x' ∉ cs) (ho : 'o' ∉ cs)
    (hb : 'b' ∉ cs) :
    unboundedInteger? cs =
      (decimal? (splitSign cs).2).map fun n : Nat =>
        if (splitSign cs).1 then -(n : Int) else n := by
  unfold unboundedInteger?
  split
  · exact absurd (List.mem_cons_of_mem _ List.mem_cons_self) hx
  · exact absurd (List.mem_cons_of_mem _ List.mem_cons_self) ho
  · exact absurd (List.mem_cons_of_mem _ List.mem_cons_self) hb
  · rfl

theorem unboundedInteger?_digits (n : Nat) :
    unboundedInteger? (Decimal.digits n) = some (n : Int) := by
  rw [unboundedInteger?_of_notMem (notMem_digits rfl n) (notMem_digits rfl n)
    (notMem_digits rfl n), splitSign_digits, decimal?_digits]
  rfl

theorem unboundedInteger?_negative (n : Nat) :
    unboundedInteger? ('-' :: Decimal.digits n) = some (-(n : Int)) := by
  have hmark : ∀ c : Char, c ≠ '-' → c.isDigit = false → c ∉ '-' :: Decimal.digits n :=
    fun c hne hc => List.not_mem_cons_of_ne_of_not_mem hne (notMem_digits hc n)
  rw [unboundedInteger?_of_notMem (hmark 'x' (by decide) rfl) (hmark 'o' (by decide) rfl)
    (hmark 'b' (by decide) rfl)]
  change (decimal? (Decimal.digits n)).map _ = _
  rw [decimal?_digits]
  rfl

theorem toList_ofInt (n : Int) :
    (Decimal.ofInt n).toList =
      if n < 0 then '-' :: Decimal.digits n.natAbs else Decimal.digits n.natAbs := by
  rw [Decimal.ofInt]
  split
  · rw [String.toList_append, Decimal.ofNat, String.toList_ofList (l := Decimal.digits _)]
    rfl
  · exact String.toList_ofList

theorem isDigit_or_eq_of_mem_ofInt {n : Int} {c : Char} (hc : c ∈ (Decimal.ofInt n).toList) :
    c.isDigit = true ∨ c = '-' := by
  rw [toList_ofInt] at hc
  split at hc
  · obtain rfl | hdigit := List.mem_cons.mp hc
    · exact .inr rfl
    · exact .inl (Decimal.isDigit_of_mem_digits hdigit)
  · exact .inl (Decimal.isDigit_of_mem_digits hc)

theorem integer?_ofInt {n : Int} (hn : fitsWord n = true) :
    integer? (Decimal.ofInt n).toList = some n := by
  have hspelt : unboundedInteger? (Decimal.ofInt n).toList = some n := by
    rw [toList_ofInt]
    split
    · rw [unboundedInteger?_negative]
      congr 1
      omega
    · rw [unboundedInteger?_digits]
      congr 1
      omega
  rw [integer?, hspelt, Option.filter_some, if_pos hn]

/-! ## Dates -/

namespace Scan

variable {cs : List Char}

theorem times_suffix {p : Char → Bool} {n : Nat} {text rest : List Char}
    (h : times p n cs = some (text, rest)) : rest <:+ cs := by
  induction n generalizing cs text with
  | zero =>
      obtain ⟨-, rfl⟩ := Prod.mk.inj (Option.some.inj h)
      exact List.suffix_refl cs
  | succ n ih =>
      obtain ⟨c, next, hfirst, hmore⟩ := exists_of_bind_eq_some h
      obtain ⟨text, rest', htext, hend⟩ := exists_of_bind_eq_some hmore
      obtain ⟨-, rfl⟩ := Prod.mk.inj (Option.some.inj hend)
      rw [eq_cons_of_satisfying hfirst]
      exact (ih htext).trans (List.suffix_cons c next)

theorem numberIn_suffix {n low high m : Nat} {rest : List Char}
    (h : numberIn n low high cs = some (m, rest)) : rest <:+ cs := by
  obtain ⟨text, next, htext, hrange⟩ := exists_of_bind_eq_some h
  dsimp only at hrange
  split at hrange
  · obtain ⟨-, rfl⟩ := Prod.mk.inj (Option.some.inj hrange)
    exact times_suffix htext
  · exact absurd hrange nofun

theorem date_of_notMem (hcs : '-' ∉ cs) : date cs = none := by
  cases hyear : numberIn 4 0 9999 cs with
  | none => rw [date, bind_of_none hyear]
  | some r =>
      have hhyphen : Leaves (· == '-') r.2 := by
        intro c hc
        apply beq_false_of_ne
        rintro rfl
        exact hcs ((numberIn_suffix hyear).mem (List.mem_of_mem_head? hc))
      rw [date, bind_of_some hyear, bind_of_none (exactly_of_leaves hhyphen)]

end Scan

theorem isDate_ofInt (n : Int) : isDate (Decimal.ofInt n).toList = false := by
  rw [toList_ofInt]
  split
  · rfl
  · rw [isDate, Scan.whole, Scan.date_of_notMem (notMem_digits rfl _)]
    rfl

/-! ## Scalars -/

theorem scalarValue?_ofInt {n : Int} (hn : fitsWord n = true) :
    Scan.scalarValue? (Decimal.ofInt n).toList = some (.integer n) := by
  have htrue : (Decimal.ofInt n).toList ≠ ['t', 'r', 'u', 'e'] := by
    intro h
    have ht := isDigit_or_eq_of_mem_ofInt (h ▸ List.mem_cons_self : 't' ∈ _)
    exact absurd ht (by decide)
  have hfalse : (Decimal.ofInt n).toList ≠ ['f', 'a', 'l', 's', 'e'] := by
    intro h
    have hf := isDigit_or_eq_of_mem_ofInt (h ▸ List.mem_cons_self : 'f' ∈ _)
    exact absurd hf (by decide)
  rw [Scan.scalarValue?, if_neg htrue, if_neg hfalse, integer?_ofInt hn]

namespace Scan

theorem scalar_append {text rest : List Char} {v : Value} (hne : text ≠ [])
    (htext : ∀ c ∈ text, isScalar c = true) (hdate : isDate text = false)
    (hvalue : scalarValue? text = some v) (hrest : Leaves isScalar rest) :
    scalar (text ++ rest) = some (v, rest) := by
  rw [scalar, bind_of_some (span1_append hne htext hrest), hdate, if_neg Bool.false_ne_true, hvalue]
  rfl

variable {cs rest : List Char} {c : Char}

theorem value_of_isScalar (hc : isScalar c = true) (depth : Nat) :
    value (depth + 1) (c :: cs) = scalar (c :: cs) := by
  have hpeek : peek (c :: cs) = some (some c, c :: cs) := rfl
  rw [value, bind_of_some hpeek]
  generalize hnext : some c = next
  split
  · exact absurd (Option.some.inj hnext ▸ hc) (by decide)
  · exact absurd (Option.some.inj hnext ▸ hc) (by decide)
  · exact absurd (Option.some.inj hnext ▸ hc) (by decide)
  · exact absurd (Option.some.inj hnext ▸ hc) (by decide)
  · rfl

/-! ## Strings -/

theorem value_quote (depth : Nat) (cs : List Char) :
    value (depth + 1) (quote :: cs) =
      (do return .string (String.ofList (← string)) : Scan Value) (quote :: cs) :=
  rfl

/-- Quotes around characters that need no escape. -/
theorem basicString_append {text : List Char} (htext : ∀ c ∈ text, isBasic c = true)
    (rest : List Char) : basicString (quote :: (text ++ quote :: rest)) = some (text, rest) := by
  have hquote : Leaves isBasic (quote :: rest) := leaves_cons rfl rest
  have hend : (span1 isBasic <|> List.singleton <$> escape) (quote :: rest) = none := by
    rw [orElse_of_none (span1_of_leaves hquote), map_of_none]
    exact bind_of_none (exactly_of_leaves (leaves_cons rfl rest))
  by_cases hne : text = []
  · have hparts := (Collects.done hend).many_eq
    rw [hne, basicString, bind_of_some (exactly_cons quote _), List.nil_append,
      bind_of_some hparts, bind_of_some (exactly_cons quote rest)]
    rfl
  · have hrun := span1_append hne htext hquote
    have hless : (quote :: rest).length < (text ++ quote :: rest).length := by
      have hpos := List.length_pos_iff.mpr hne
      rw [List.length_append]
      omega
    have hparts := (Collects.step (orElse_of_some hrun) hless (.done hend)).many_eq
    rw [basicString, bind_of_some (exactly_cons quote _), bind_of_some hparts,
      bind_of_some (exactly_cons quote rest)]
    exact congrArg (fun text => some (text, rest)) (List.append_nil text)

theorem string_append {text : List Char} (htext : ∀ c ∈ text, isBasic c = true)
    (hrest : Leaves (· == quote) rest) :
    string (quote :: (text ++ quote :: rest)) = some (text, rest) := by
  -- three quotes would open a string over several lines
  have hsingle : word [quote, quote, quote] (quote :: (text ++ quote :: rest)) = none := by
    rw [word, bind_of_some (exactly_cons quote _), word]
    cases text with
    | nil =>
        rw [List.nil_append, bind_of_some (exactly_cons quote rest), word,
          bind_of_none (exactly_of_leaves hrest)]
    | cons c text =>
        have hsecond : Leaves (· == quote) (c :: (text ++ quote :: rest)) := by
          rintro d ⟨⟩
          apply beq_false_of_ne
          rintro rfl
          exact absurd (htext quote List.mem_cons_self) (by decide)
        exact bind_of_none (exactly_of_leaves hsecond)
  have hbasicText : basicText (quote :: (text ++ quote :: rest)) = none := bind_of_none hsingle
  rw [string, orElse_of_none hbasicText, orElse_of_some (basicString_append htext rest)]

end Scan

/-! ## Texts of values -/

/-- The value is read from the text where a line ends behind it. -/
structure Spells (text : String) (v : Value) : Prop where
  starts : Scan.Leaves isBlank text.toList
  reads : ∀ depth rest,
    Scan.value (depth + 1) (text.toList ++ '\n' :: rest) = some (v, '\n' :: rest)

/-- A class of characters without space and tab. -/
theorem isBlank_of_class {p : Char → Bool} {c : Char} (hspace : p ' ' = false)
    (htab : p '\t' = false) (hc : p c = true) : isBlank c = false := by
  have hne : ∀ d, p d = false → (c == d) = false := by
    intro d hd
    apply beq_false_of_ne
    rintro rfl
    exact Bool.noConfusion (hc.symm.trans hd)
  rw [isBlank, hne ' ' hspace, hne '\t' htab, Bool.or_false]

theorem spells_of_scalar {text : String} {v : Value} (hne : text.toList ≠ [])
    (htext : ∀ c ∈ text.toList, Scan.isScalar c = true) (hdate : isDate text.toList = false)
    (hvalue : Scan.scalarValue? text.toList = some v) : Spells text v := by
  have hscalar : ∀ rest, Scan.scalar (text.toList ++ '\n' :: rest) = some (v, '\n' :: rest) :=
    fun rest => Scan.scalar_append hne htext hdate hvalue (Scan.leaves_cons rfl rest)
  obtain ⟨c, cs, htext'⟩ := List.exists_cons_of_ne_nil hne
  rw [htext'] at hscalar htext
  have hc : Scan.isScalar c = true := htext c List.mem_cons_self
  constructor
  · rw [htext']
    exact Scan.leaves_cons (isBlank_of_class rfl rfl hc) cs
  · intro depth rest
    rw [htext', ← hscalar rest, List.cons_append]
    exact Scan.value_of_isScalar hc depth

theorem spells_ofInt {n : Int} (hn : fitsWord n = true) :
    Spells (Decimal.ofInt n) (.integer n) := by
  refine spells_of_scalar ?_ ?_ (isDate_ofInt n) (scalarValue?_ofInt hn)
  · rw [toList_ofInt]
    split
    · exact List.cons_ne_nil _ _
    · exact Decimal.digits_ne_nil _
  · intro c hc
    obtain hdigit | rfl := isDigit_or_eq_of_mem_ofInt hc
    · rw [Scan.isScalar, Char.isAlphanum, hdigit, Bool.or_true]
      rfl
    · rfl

theorem spells_boolean (b : Bool) : Spells (if b then "true" else "false") (.boolean b) := by
  cases b with
  | true => exact spells_of_scalar (by decide) (List.all_eq_true.mp rfl) rfl rfl
  | false => exact spells_of_scalar (by decide) (List.all_eq_true.mp rfl) rfl rfl

theorem spells_string {text : String} (htext : ∀ c ∈ text.toList, isBasic c = true) :
    Spells ("\"" ++ text ++ "\"") (.string text) := by
  have htoList : ∀ rest, ("\"" ++ text ++ "\"").toList ++ '\n' :: rest =
      quote :: (text.toList ++ quote :: '\n' :: rest) := by
    intro rest
    rw [String.toList_append, String.toList_append, List.append_assoc, List.append_assoc]
    rfl
  constructor
  · rw [String.toList_append, String.toList_append, List.append_assoc]
    exact Scan.leaves_cons rfl _
  · intro depth rest
    have hnewline : Scan.Leaves (· == quote) ('\n' :: rest) := Scan.leaves_cons rfl rest
    rw [htoList, Scan.value_quote, Scan.bind_of_some (Scan.string_append htext hnewline),
      String.ofList_toList]
    rfl

end Toml

end Fortuna
