import Mathlib.Data.List.TakeDrop
import Mathlib.Data.List.TakeWhile
import Fortuna.Proofs.CommandLine.Sizes

/-!
# Ways to write a setting

A setting can be written in several ways: its value behind the option or attached to it,
and a count also with its letter (`Setting.Spelling`).  The words are read in one of two
ways, as a single argument or as an option and its value (`Reads`), and every spelling of
a setting is read as the setting wherever its option is admitted (`Setting.Spelling.reads`).

A value attached to its option can be any text.  One that stands behind it must not look
like an option, which is so of numbers without a sign, of formats and of such paths as a
setting may hold (`Setting.Writable`); the seed is the option that takes anything.
-/

namespace Fortuna

namespace Decimal

theorem exists_digits_eq_cons (n : Nat) : ∃ c cs, digits n = c :: cs ∧ c.isDigit = true := by
  obtain ⟨c, cs, hdigits⟩ := List.exists_cons_of_ne_nil (digits_ne_nil n)
  exact ⟨c, cs, hdigits, isDigit_of_mem_digits (hdigits ▸ List.mem_cons_self)⟩

/-- Only a digit begins a numeral. -/
theorem head?_ofNat_ne {c : Char} (hc : c.isDigit = false) (n : Nat) :
    (ofNat n).toList.head? ≠ some c := by
  obtain ⟨d, ds, hdigits, hdigit⟩ := exists_digits_eq_cons n
  rw [ofNat, String.toList_ofList, hdigits, List.head?_cons]
  rintro ⟨⟩
  rw [hc] at hdigit
  cases hdigit

theorem signedNatural?_digits (n : Nat) : signedNatural? (digits n) = some n := by
  have hread := natural?_digits n
  obtain ⟨c, cs, hdigits, hdigit⟩ := exists_digits_eq_cons n
  rw [hdigits] at hread ⊢
  unfold signedNatural?
  split
  · obtain ⟨rfl, -⟩ := List.cons.inj ‹_›
    cases hdigit
  · exact hread

theorem integer?_ofInt (n : Int) : integer? (ofInt n).toList = some n := by
  rw [Toml.toList_ofInt]
  split
  · rw [integer?, natural?_digits]
    change some (-(n.natAbs : Int)) = some n
    congr 1
    omega
  · have hread := signedNatural?_digits n.natAbs
    obtain ⟨c, cs, hdigits, hdigit⟩ := exists_digits_eq_cons n.natAbs
    rw [hdigits] at hread ⊢
    unfold integer?
    split
    · obtain ⟨rfl, -⟩ := List.cons.inj ‹_›
      cases hdigit
    · rw [hread]
      change some (n.natAbs : Int) = some n
      congr 1
      omega

end Decimal

namespace CommandLine

/-! ## Shapes -/

namespace Shape

/-- What does not begin with a hyphen is plain. -/
theorem of_plain {arg : String} (harg : arg.toList.head? ≠ some '-') : of arg = .plain := by
  have hne (cs : List Char) : arg.toList ≠ '-' :: cs := by
    intro hlist
    rw [hlist] at harg
    exact harg rfl
  unfold of
  split
  · rename_i hlist
    exact absurd hlist (hne _)
  · rename_i hlist
    exact absurd hlist (hne _)
  · rename_i hlist
    exact absurd hlist (hne _)
  · rfl

theorem of_hyphens {arg : String} {cs : List Char} (hne : cs ≠ [])
    (harg : arg.toList = '-' :: '-' :: cs) :
    of arg = .long (String.ofList (cs.takeWhile (· != '=')))
      (if cs.dropWhile (· != '=') = [] then none
        else some (String.ofList (cs.dropWhile (· != '=')).tail)) := by
  obtain ⟨c, cs, rfl⟩ := List.exists_cons_of_ne_nil hne
  unfold of
  rw [harg]
  simp only [List.span_eq_takeWhile_dropWhile]

theorem of_letter (rest : String) : of ("-n" ++ rest) = .short 'n' rest.toList := by
  have hlist : ("-n" ++ rest).toList = '-' :: 'n' :: rest.toList := by
    rw [String.toList_append]
    rfl
  unfold of
  rw [hlist]
  rfl

theorem toList_long_ne_nil (o : OptionName) : o.long.toList ≠ [] := by
  cases o <;> decide

theorem equals_notMem_long (o : OptionName) : '=' ∉ o.long.toList := by
  cases o <;> decide

theorem ne_equals_of_mem_long (o : OptionName) : ∀ c ∈ o.long.toList, (c != '=') = true :=
  fun _ hc => bne_iff_ne.mpr fun heq => equals_notMem_long o (heq ▸ hc)

theorem of_long (o : OptionName) : of ("--" ++ o.long) = .long o.long none := by
  have hlist : ("--" ++ o.long).toList = '-' :: '-' :: o.long.toList := by
    rw [String.toList_append]
    rfl
  have hname := ne_equals_of_mem_long o
  rw [of_hyphens (toList_long_ne_nil o) hlist, List.takeWhile_eq_self_iff.mpr hname,
    List.dropWhile_eq_nil_iff.mpr hname, if_pos rfl, String.ofList_toList]

theorem of_long_value (o : OptionName) (value : String) :
    of ("--" ++ o.long ++ "=" ++ value) = .long o.long (some value) := by
  have hlist : ("--" ++ o.long ++ "=" ++ value).toList =
      '-' :: '-' :: (o.long.toList ++ '=' :: value.toList) := by
    simp only [String.toList_append, List.append_assoc]
    rfl
  have hname := ne_equals_of_mem_long o
  rw [of_hyphens (List.append_ne_nil_of_right_ne_nil _ (List.cons_ne_nil _ _)) hlist,
    List.takeWhile_append_of_pos hname, List.dropWhile_append_of_pos hname,
    List.takeWhile_cons_of_neg (by decide), List.dropWhile_cons_of_neg (by decide),
    List.append_nil, String.ofList_toList, if_neg (List.cons_ne_nil _ _), List.tail_cons,
    String.ofList_toList]

end Shape

/-! ## Meanings -/

namespace Meaning

/-- An argument that says something of an option is no command and no request for help,
and does not end the options. -/
theorem ne_of_ne_refused {place : Place} {arg : String} {m : Meaning} (harg : of place arg = m)
    (hm : m ≠ .stops .refused) : arg ≠ "--" ∧ Command.ofName? arg = none ∧ arg ≠ "help" := by
  have hplain {text : String} (hshape : Shape.of text = .plain) : arg ≠ text := by
    rintro rfl
    rw [of, hshape] at harg
    exact hm harg.symm
  refine ⟨?_, ?_, hplain (by decide)⟩
  · rintro rfl
    exact hm harg.symm
  · rw [Command.ofName?, List.find?_eq_none]
    intro c _ hname
    have hshape : Shape.of c.name = .plain := by
      cases c <;> decide
    exact hplain hshape (eq_of_beq hname).symm

theorem ofLong_long (place : Place) (o : OptionName) (value : Option String) :
    place.admits o = true → ofLong place o.long value =
      match o, value with
      | .metrics, none => .sets .metrics
      | _, none => .awaits o
      | _, some value => .ofValue o value := by
  intro hadmits
  have hhelp : o.long ≠ "help" := by
    cases o <;> decide
  have hversion : o.long ≠ "version" := by
    cases o <;> decide
  rw [ofLong, if_neg hhelp, if_neg (fun h => hversion h.1), OptionName.ofLong?_long]
  exact if_pos hadmits

section

variable {place : Place} (hadmits : place.admits .count = true)

include hadmits

theorem ofShort_count (rest : List Char) :
    ofShort place 'n' rest =
      match rest with
      | [] => .awaits .count
      | '=' :: value => .ofValue .count (String.ofList value)
      | value => .ofValue .count (String.ofList value) := by
  have hhelp : 'n' ≠ 'h' := by decide
  have hversion : ¬('n' = 'V' ∧ place = .beforeCommand) := fun h => absurd h.1 (by decide)
  exact (if_neg hhelp).trans ((if_neg hversion).trans (if_pos ⟨rfl, hadmits⟩))

/-- A value right behind the letter of the count. -/
theorem ofShort_value {value : String} (hne : value.toList ≠ [])
    (hhead : value.toList.head? ≠ some '=') :
    ofShort place 'n' value.toList = .ofValue .count value := by
  rw [ofShort_count hadmits]
  split
  · exact absurd ‹_› hne
  · rename_i hequals
    rw [hequals] at hhead
    exact absurd rfl hhead
  · rw [String.ofList_toList]

theorem ofShort_equals (value : String) :
    ofShort place 'n' ('=' :: value.toList) = .ofValue .count value := by
  rw [ofShort_count hadmits]
  exact congrArg (ofValue .count) String.ofList_toList

end

theorem ofValue_of_some {o : OptionName} {value : String} {s : Setting}
    (hvalue : Setting.ofValue? value o = some s) : ofValue o value = .sets s := by
  rw [ofValue, hvalue]
  rfl

end Meaning

/-! ## Settings and how they are written -/

namespace Setting

/-- The value of a setting as it is written; a flag has none. -/
def text? : Setting → Option String
  | .config path => some path
  | .seed x => some (Decimal.ofInt x.toInt)
  | .metrics => none
  | .count n | .chunk n => some (Decimal.ofNat n)
  | .format f => some f.name

/-- The words of a setting: the name of its option, its value behind or attached, and for
a count also the letter. -/
inductive Spelling : Setting → List String → Prop
  | flag {s : Setting} (hflag : s.text? = none) : Spelling s ["--" ++ s.option.long]
  | spaced {s : Setting} {value : String} (hvalue : s.text? = some value) :
      Spelling s ["--" ++ s.option.long, value]
  | attached {s : Setting} {value : String} (hvalue : s.text? = some value) :
      Spelling s ["--" ++ s.option.long ++ "=" ++ value]
  | letter (n : Nat) : Spelling (.count n) ["-n", Decimal.ofNat n]
  | letterJoined (n : Nat) : Spelling (.count n) ["-n" ++ Decimal.ofNat n]
  | letterAttached (n : Nat) : Spelling (.count n) ["-n=" ++ Decimal.ofNat n]

/-- A size is a word, and a path neither is empty nor looks like an option. -/
def Writable (s : Setting) : Prop :=
  s.Fits ∧ ∀ path, s = .config path → path ≠ "" ∧ path.toList.head? ≠ some '-'

theorem size?_ofNat {n : Nat} (hn : n < 2 ^ 64) : size? (Decimal.ofNat n) = some n := by
  have hread : Decimal.signedNatural? (Decimal.ofNat n).toList = some n := by
    rw [Decimal.ofNat, String.toList_ofList, Decimal.signedNatural?_digits]
  rw [size?, hread, Option.filter_some]
  exact if_pos (decide_eq_true hn)

theorem seed?_ofInt (x : Int64) : seed? (Decimal.ofInt x.toInt) = some x := by
  rw [seed?, Decimal.integer?_ofInt, Option.bind_some,
    if_pos ⟨Int64.minValue_le_toInt x, Int64.toInt_le x⟩, Int64.ofInt_toInt]

/-- What is written of a value is read as the setting. -/
theorem ofValue?_of_text? {s : Setting} (hs : s.Writable) {value : String}
    (hvalue : s.text? = some value) : ofValue? value s.option = some s := by
  obtain ⟨hfits, hpath⟩ := hs
  cases s with
  | config path =>
      obtain rfl : path = value := Option.some.inj hvalue
      exact if_neg (hpath path rfl).1
  | seed x =>
      obtain rfl := Option.some.inj hvalue
      change (seed? _).map Setting.seed = _
      rw [seed?_ofInt, Option.map_some]
  | metrics => cases hvalue
  | count n =>
      obtain rfl := Option.some.inj hvalue
      change (size? _).map Setting.count = _
      rw [size?_ofNat hfits, Option.map_some]
  | format f =>
      obtain rfl := Option.some.inj hvalue
      change (Format.ofName? _).map Setting.format = _
      rw [Format.ofName?_name, Option.map_some]
  | chunk n =>
      obtain rfl := Option.some.inj hvalue
      change (size? _).map Setting.chunk = _
      rw [size?_ofNat hfits, Option.map_some]

/-- The value of a seed may begin with a hyphen, which no other value does. -/
theorem takes_of_text? {s : Setting} (hs : s.Writable) {value : String}
    (hvalue : s.text? = some value) : s.option.takes value = true := by
  have hplain (hhead : value.toList.head? ≠ some '-') : s.option.takes value = true := by
    rw [OptionName.takes, Shape.of_plain hhead, decide_eq_true rfl, Bool.or_true]
  cases s with
  | config path =>
      obtain rfl : path = value := Option.some.inj hvalue
      exact hplain (hs.2 path rfl).2
  | seed x => rfl
  | metrics => cases hvalue
  | count n | chunk n =>
      obtain rfl := Option.some.inj hvalue
      exact hplain (Decimal.head?_ofNat_ne rfl n)
  | format f =>
      obtain rfl := Option.some.inj hvalue
      cases f with
      | hex => exact hplain (by decide)
      | raw => exact hplain (by decide)

end Setting

/-! ## How words are read -/

/-- The words say the setting at a place. -/
inductive Reads (place : Place) (s : Setting) : List String → Prop
  | alone {arg : String} (hsets : Meaning.of place arg = .sets s) : Reads place s [arg]
  | valued {arg value : String} (hawaits : Meaning.of place arg = .awaits s.option)
      (htakes : s.option.takes value = true)
      (hvalue : Setting.ofValue? value s.option = some s) : Reads place s [arg, value]

theorem Setting.Spelling.reads {s : Setting} {words : List String} (hwords : s.Spelling words)
    (hs : s.Writable) {place : Place} (hadmits : place.admits s.option = true) :
    Reads place s words := by
  cases hwords with
  | flag hflag =>
      apply Reads.alone
      rw [Meaning.of, Shape.of_long]
      change Meaning.ofLong _ _ _ = _
      rw [Meaning.ofLong_long _ _ _ hadmits]
      cases s with
      | metrics => rfl
      | config | seed | count | format | chunk => cases hflag
  | spaced hvalue =>
      refine .valued ?_ (takes_of_text? hs hvalue) (ofValue?_of_text? hs hvalue)
      rw [Meaning.of, Shape.of_long]
      change Meaning.ofLong _ _ _ = _
      rw [Meaning.ofLong_long _ _ _ hadmits]
      cases s with
      | metrics => cases hvalue
      | config | seed | count | format | chunk => rfl
  | attached hvalue =>
      apply Reads.alone
      rw [Meaning.of, Shape.of_long_value]
      change Meaning.ofLong _ _ _ = _
      rw [Meaning.ofLong_long _ _ _ hadmits,
        ← Meaning.ofValue_of_some (ofValue?_of_text? hs hvalue)]
      cases s with
      | metrics => cases hvalue
      | config | seed | count | format | chunk => rfl
  | letter n =>
      refine .valued ?_ (takes_of_text? hs rfl) (ofValue?_of_text? hs rfl)
      have hshape : Shape.of "-n" = .short 'n' [] := by
        decide
      rw [Meaning.of, hshape]
      exact Meaning.ofShort_count hadmits []
  | letterJoined n =>
      have hne : (Decimal.ofNat n).toList ≠ [] := by
        rw [Decimal.ofNat, String.toList_ofList]
        exact Decimal.digits_ne_nil n
      apply Reads.alone
      rw [Meaning.of, Shape.of_letter]
      change Meaning.ofShort place 'n' _ = _
      rw [Meaning.ofShort_value hadmits hne (Decimal.head?_ofNat_ne rfl n)]
      exact Meaning.ofValue_of_some (ofValue?_of_text? hs rfl)
  | letterAttached n =>
      -- the equals sign belongs to what stands behind the letter
      have hletter : "-n=" ++ Decimal.ofNat n = "-n" ++ ("=" ++ Decimal.ofNat n) := by
        rw [← String.append_assoc]
        rfl
      apply Reads.alone
      rw [Meaning.of, hletter, Shape.of_letter, String.toList_append]
      change Meaning.ofShort place 'n' ('=' :: (Decimal.ofNat n).toList) = _
      rw [Meaning.ofShort_equals hadmits]
      exact Meaning.ofValue_of_some (ofValue?_of_text? hs rfl)

end CommandLine

end Fortuna
