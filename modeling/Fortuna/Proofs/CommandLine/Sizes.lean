import Fortuna.Proofs.CommandLine.Demand
import Fortuna.Proofs.Config.RoundTrip

/-!
# Sizes of a run

A size on the command line is a word, and a size in a configuration file is an
integer of TOML, so it is a word too.  A run therefore never asks for more than a
word can say, whether the size comes from an option, from a file or from the
defaults.
-/

namespace Fortuna

namespace CommandLine

/-! ## On the command line -/

/-- A size that a setting holds is a word. -/
def Setting.Fits : Setting → Prop
  | .count n | .chunk n => n < 2 ^ 64
  | .config _ | .seed _ | .metrics | .format _ => True

theorem Setting.Fits.lt_of_count? {s : Setting} (hs : s.Fits) {n : Nat}
    (hcount : s.count? = some n) :
    n < 2 ^ 64 := by
  cases s with
  | count m =>
      obtain rfl : m = n := Option.some.inj hcount
      exact hs
  | config | seed | metrics | format | chunk => cases hcount

theorem Setting.Fits.lt_of_chunk? {s : Setting} (hs : s.Fits) {n : Nat}
    (hchunk : s.chunk? = some n) :
    n < 2 ^ 64 := by
  cases s with
  | chunk m =>
      obtain rfl : m = n := Option.some.inj hchunk
      exact hs
  | config | seed | metrics | format | count => cases hchunk

theorem Setting.lt_of_size? {text : String} {n : Nat} (hsize : size? text = some n) :
    n < 2 ^ 64 := by
  rw [size?, Option.filter_eq_some_iff] at hsize
  exact of_decide_eq_true hsize.2

theorem Setting.fits_of_ofValue? {text : String} {o : OptionName} {s : Setting}
    (hs : ofValue? text o = some s) :
    s.Fits := by
  cases o with
  | count | chunk =>
      obtain ⟨n, hsize, rfl⟩ := Option.map_eq_some_iff.mp hs
      exact lt_of_size? hsize
  | seed | format =>
      obtain ⟨value, -, rfl⟩ := Option.map_eq_some_iff.mp hs
      trivial
  | config =>
      rw [ofValue?, Option.ite_none_left_eq_some] at hs
      obtain rfl : Setting.config text = s := Option.some.inj hs.2
      trivial
  | metrics => cases hs

namespace Meaning

theorem fits_of_ofValue {o : OptionName} {value : String} {s : Setting}
    (hmeaning : ofValue o value = .sets s) :
    s.Fits := by
  rw [ofValue] at hmeaning
  cases hs : Setting.ofValue? value o with
  | none =>
      rw [hs] at hmeaning
      cases hmeaning
  | some t =>
      rw [hs] at hmeaning
      obtain rfl : t = s := Meaning.sets.inj hmeaning
      exact Setting.fits_of_ofValue? hs

theorem fits_of_ofLong {place : Place} {name : String} {value : Option String} {s : Setting}
    (hmeaning : ofLong place name value = .sets s) :
    s.Fits := by
  unfold ofLong at hmeaning
  split at hmeaning
  · cases hmeaning
  · split at hmeaning
    · cases hmeaning
    · split at hmeaning
      · cases hmeaning
      · split at hmeaning
        · split at hmeaning
          · obtain rfl : Setting.metrics = s := Meaning.sets.inj hmeaning
            trivial
          · cases hmeaning
          · exact fits_of_ofValue hmeaning
        · cases hmeaning

theorem fits_of_ofShort {place : Place} {letter : Char} {rest : List Char} {s : Setting}
    (hmeaning : ofShort place letter rest = .sets s) :
    s.Fits := by
  unfold ofShort at hmeaning
  split at hmeaning
  · cases hmeaning
  · split at hmeaning
    · cases hmeaning
    · split at hmeaning
      · split at hmeaning
        · cases hmeaning
        · exact fits_of_ofValue hmeaning
        · exact fits_of_ofValue hmeaning
      · cases hmeaning

theorem fits_of_eq_sets {place : Place} {arg : String} {s : Setting}
    (hmeaning : Meaning.of place arg = .sets s) :
    s.Fits := by
  unfold Meaning.of at hmeaning
  split at hmeaning
  · exact fits_of_ofLong hmeaning
  · exact fits_of_ofShort hmeaning
  · cases hmeaning
  · cases hmeaning

end Meaning

theorem fits_of_addSetting {found settings : List Setting} {s : Setting}
    (hfound : ∀ t ∈ found, t.Fits) (hs : s.Fits) (hadd : addSetting found s = some settings) :
    ∀ t ∈ settings, t.Fits := by
  rw [addSetting, Option.ite_none_left_eq_some] at hadd
  obtain rfl : found ++ [s] = settings := Option.some.inj hadd.2
  rw [List.forall_mem_append, List.forall_mem_singleton]
  exact ⟨hfound, hs⟩

theorem fits_of_settingsBehind {command : Command} {args : List String}
    {found settings : List Setting} (hfound : ∀ s ∈ found, s.Fits)
    (hsettings : settingsBehind command found args = .ok settings) :
    ∀ s ∈ settings, s.Fits := by
  fun_induction settingsBehind command found args with
  | case1 | case2 =>
      obtain rfl := Except.ok.inj hsettings
      exact hfound
  | case5 found arg args _ s hmeaning next hadd ih =>
      exact ih (fits_of_addSetting hfound (Meaning.fits_of_eq_sets hmeaning) hadd) hsettings
  | case8 found arg _ o _ value args _ next hadd ih =>
      obtain ⟨s, hvalue, hadd⟩ := Option.bind_eq_some_iff.mp hadd
      exact ih (fits_of_addSetting hfound (Setting.fits_of_ofValue? hvalue) hadd) hsettings
  | case3 | case4 | case6 | case7 | case9 | case10 => cases hsettings

/-- The task of an invocation comes from the settings behind its command. -/
theorem exists_settingsBehind_of_invocation {found : List Setting} {args : List String}
    {i : Invocation} (hi : invocation found args = .ok i) :
    ∃ command later behind, settingsBehind command [] later = .ok behind ∧
      i.task = Task.ofSettings behind command := by
  fun_induction invocation found args with
  | case2 found arg args command =>
      obtain ⟨behind, hbehind, rfl⟩ : ∃ behind, settingsBehind command [] args = .ok behind ∧
          Invocation.ofSettings found command behind = i := by
        cases hbehind : settingsBehind command [] args with
        | error why =>
            rw [hbehind] at hi
            cases hi
        | ok behind =>
            rw [hbehind] at hi
            exact ⟨behind, rfl, Except.ok.inj hi⟩
      exact ⟨command, args, behind, hbehind, rfl⟩
  | case5 _ _ _ _ _ _ _ _ _ ih | case8 _ _ _ _ _ _ _ _ _ _ _ ih => exact ih hi
  | case1 | case3 | case4 | case6 | case7 | case9 | case10 => cases hi

/-- The size that a task was given. -/
def Task.size? : Task → Option Nat
  | .bytes count _ => count
  | .int63 count => count
  | .stream chunk => chunk

theorem Task.lt_of_size?_ofSettings {command : Command} {settings : List Setting}
    (hsettings : ∀ s ∈ settings, s.Fits) {n : Nat}
    (hsize : (Task.ofSettings settings command).size? = some n) :
    n < 2 ^ 64 := by
  cases command with
  | bytes | int63 =>
      obtain ⟨s, hmem, hs⟩ := List.exists_of_findSome?_eq_some hsize
      exact (hsettings s hmem).lt_of_count? hs
  | stream =>
      obtain ⟨s, hmem, hs⟩ := List.exists_of_findSome?_eq_some hsize
      exact (hsettings s hmem).lt_of_chunk? hs

/-- A size on the command line is a word. -/
theorem lt_of_parse {args : List String} {i : Invocation} (hparse : parse args = .ok i) {n : Nat}
    (hsize : i.task.size? = some n) :
    n < 2 ^ 64 := by
  obtain ⟨command, later, behind, hbehind, htask⟩ := exists_settingsBehind_of_invocation hparse
  rw [htask] at hsize
  exact Task.lt_of_size?_ofSettings (fits_of_settingsBehind (by simp) hbehind) hsize

/-! ## In files -/

theorem sizesFit_of_ofFile {content : Except ReadFailure Bytes} {c : Config}
    (hread : Config.ofFile content = .ok c) :
    c.SizesFit := by
  unfold Config.ofFile at hread
  split at hread
  · obtain ⟨root, hparse, hfound, -⟩ := Config.exists_root_of_ofToml hread
    exact Config.sizesFit_of_ofTable? (Toml.sound_parse? hparse) hfound
  · cases hread

theorem Invocation.sizesFit_of_fileConfig {i : Invocation} {host : Host} {c : Config}
    (hfile : i.fileConfig host = .ok c) :
    c.SizesFit := by
  unfold fileConfig at hfile
  split at hfile
  · exact sizesFit_of_ofFile hfile
  · obtain rfl := Except.ok.inj hfile
    exact ⟨by decide, by decide, by decide, by decide⟩

/-! ## Of a run -/

/-- The size that a demand sets: bytes, integers, or bytes of a chunk. -/
def Demand.amount : Demand → Nat
  | .bytes count _ => count
  | .int63 count => count
  | .stream chunk _ => chunk

/-- No run is asked for more than a word can say. -/
theorem Invocation.amount_lt {args : List String} {i : Invocation} (hparse : parse args = .ok i)
    {host : Host} {c : Config} (hfile : i.fileConfig host = .ok c) :
    (i.task.demand c).amount < 2 ^ 64 := by
  obtain ⟨-, hcount, -, hchunk⟩ := sizesFit_of_fileConfig hfile
  have hpick {o : Option Nat} {default : Nat} (ho : ∀ n, o = some n → n < 2 ^ 64)
      (hdefault : default ≤ 2 ^ 63 - 1) :
      o.getD default < 2 ^ 64 := by
    cases o with
    | none =>
        rw [Option.getD_none]
        omega
    | some n => exact ho n rfl
  have hgiven : ∀ n, i.task.size? = some n → n < 2 ^ 64 := fun n => lt_of_parse hparse
  generalize i.task = task at hgiven ⊢
  cases task with
  | bytes count format => exact hpick hgiven hcount
  | int63 count => exact hpick hgiven hcount
  | stream chunk => exact Nat.max_lt.mpr ⟨by decide, hpick hgiven hchunk⟩

end CommandLine

end Fortuna
