import Fortuna.Proofs.CommandLine.Spelling

/-!
# Ways to write a command line

An invocation can be written with its settings in any order, the global ones on either
side of the command, and each setting in any of its spellings (`Invocation.Renders`).
However it is written, the arguments are parsed to it (`parse_of_renders`).

Each of the two parsers takes the words of one setting in a step and leaves what follows
(`invocation_of_reads`, `settingsBehind_of_reads`), so it takes settings written one after
another if no two are of one option.  What is found is then the settings of the invocation
in some order, and each of its fields is the value of the only member of its kind, so the
order does not show.
-/

namespace Fortuna

namespace CommandLine

/-! ## One setting after another -/

theorem addSetting_of_notMem {found : List Setting} {s : Setting}
    (hnew : s.option ∉ found.map Setting.option) : addSetting found s = some (found ++ [s]) := by
  refine if_neg ?_
  rw [List.any_eq_true]
  rintro ⟨t, ht, hoption⟩
  exact hnew (List.mem_map.mpr ⟨t, ht, eq_of_beq hoption⟩)

variable {found : List Setting} {s : Setting} {words : List String}

theorem notMem_of_nodup {settings : List Setting}
    (hnodup : ((found ++ s :: settings).map Setting.option).Nodup) :
    s.option ∉ found.map Setting.option := by
  rw [List.map_append, List.nodup_append] at hnodup
  intro hmem
  exact hnodup.2.2 _ hmem _ List.mem_cons_self rfl

/-- The words of a setting behind a command are taken, and what follows is left. -/
theorem settingsBehind_of_reads {command : Command} (hwords : Reads (.behind command) s words)
    (hnew : s.option ∉ found.map Setting.option) (args : List String) :
    settingsBehind command found (words ++ args) =
      settingsBehind command (found ++ [s]) args := by
  have hadd := addSetting_of_notMem hnew
  cases hwords with
  | @alone arg hsets =>
      obtain ⟨hends, -, -⟩ := Meaning.ne_of_ne_refused hsets nofun
      rw [List.cons_append, List.nil_append, settingsBehind, hsets]
      · simp only [hadd]
      · exact hends
  | @valued arg value hawaits htakes hvalue =>
      obtain ⟨hends, -, -⟩ := Meaning.ne_of_ne_refused hawaits nofun
      rw [List.cons_append, List.cons_append, List.nil_append, settingsBehind, hawaits]
      · simp only [htakes, hvalue, ↓reduceIte, Option.bind_some, hadd]
      · exact hends

/-- The same before the command. -/
theorem invocation_of_reads (hwords : Reads .beforeCommand s words)
    (hnew : s.option ∉ found.map Setting.option) (args : List String) :
    invocation found (words ++ args) = invocation (found ++ [s]) args := by
  have hadd := addSetting_of_notMem hnew
  cases hwords with
  | @alone arg hsets =>
      obtain ⟨-, hcommand, hhelp⟩ := Meaning.ne_of_ne_refused hsets nofun
      rw [List.cons_append, List.nil_append, invocation, hcommand]
      simp only [if_neg hhelp, hsets, hadd]
  | @valued arg value hawaits htakes hvalue =>
      obtain ⟨-, hcommand, hhelp⟩ := Meaning.ne_of_ne_refused hawaits nofun
      rw [List.cons_append, List.cons_append, List.nil_append, invocation, hcommand]
      simp only [if_neg hhelp, hawaits, htakes, hvalue, ↓reduceIte, Option.bind_some, hadd]

/-- Settings written one after another. -/
inductive Writes : List Setting → List String → Prop
  | nil : Writes [] []
  | cons {s : Setting} {settings : List Setting} {words args : List String}
      (hwords : s.Spelling words) (hargs : Writes settings args) :
      Writes (s :: settings) (words ++ args)

section

variable {settings : List Setting} {written : List String}
  (hwritten : Writes settings written) (hwritable : ∀ s ∈ settings, s.Writable)
  (hnodup : ((found ++ settings).map Setting.option).Nodup)

include hwritten hwritable hnodup

theorem settingsBehind_of_writes {command : Command}
    (hserve : ∀ s ∈ settings, s.option.servesCommand command = true) (args : List String) :
    settingsBehind command found (written ++ args) =
      settingsBehind command (found ++ settings) args := by
  -- each setting moves from what is written to what is found
  induction hwritten generalizing found with
  | nil => rw [List.nil_append, List.append_nil]
  | @cons s settings words rest hwords _ ih =>
      rw [List.forall_mem_cons] at hwritable hserve
      have hreads : Reads (.behind command) s words := hwords.reads hwritable.1 hserve.1
      rw [List.append_assoc, settingsBehind_of_reads hreads (notMem_of_nodup hnodup),
        ih hwritable.2 _ hserve.2, List.append_assoc, List.singleton_append]
      rwa [List.append_assoc, List.singleton_append]

theorem invocation_of_writes (hglobal : ∀ s ∈ settings, s.option.isGlobal = true)
    (args : List String) :
    invocation found (written ++ args) = invocation (found ++ settings) args := by
  induction hwritten generalizing found with
  | nil => rw [List.nil_append, List.append_nil]
  | @cons s settings words rest hwords _ ih =>
      rw [List.forall_mem_cons] at hwritable hglobal
      have hreads : Reads .beforeCommand s words := hwords.reads hwritable.1 hglobal.1
      rw [List.append_assoc, invocation_of_reads hreads (notMem_of_nodup hnodup),
        ih hwritable.2 _ hglobal.2, List.append_assoc, List.singleton_append]
      rwa [List.append_assoc, List.singleton_append]

end

/-! ## Invocations and how they are written -/

def Task.command : Task → Command
  | .bytes _ _ => .bytes
  | .int63 _ => .int63
  | .stream _ => .stream

/-- The settings that a task has from options. -/
def Task.settings : Task → List Setting
  | .bytes count format => (count.map Setting.count).toList ++ (format.map Setting.format).toList
  | .int63 count => (count.map Setting.count).toList
  | .stream chunk => (chunk.map Setting.chunk).toList

/-- The settings that an invocation has apart from its task. -/
def Invocation.globals (i : Invocation) : List Setting :=
  (i.config.map Setting.config).toList ++ (i.seed.map Setting.seed).toList ++
    if i.metrics then [.metrics] else []

def Invocation.settings (i : Invocation) : List Setting :=
  i.globals ++ i.task.settings

/-- The arguments write the settings of the invocation, each once and in any order, with
its command somewhere among them; only global settings stand before the command. -/
def Invocation.Renders (i : Invocation) (args : List String) : Prop :=
  ∃ before behind front back,
    (before ++ behind).Perm i.settings ∧ (∀ s ∈ before, s.option.isGlobal = true) ∧
      Writes before front ∧ Writes behind back ∧ args = front ++ i.task.command.name :: back

section

variable {α : Type}

theorem map_option_sublist {make : α → Setting} (o : OptionName)
    (hmake : ∀ a, (make a).option = o) (value : Option α) :
    ((value.map make).toList.map Setting.option).Sublist [o] := by
  cases value with
  | none => exact List.nil_sublist _
  | some a => exact (congrArg (fun o => [o]) (hmake a)).symm ▸ List.Sublist.refl _

/-- What a list sets in a setting of one kind is the value of its only member of the
kind. -/
theorem findSome?_eq_of_mem_iff {read : Setting → Option α} {make : α → Setting}
    (hread : ∀ s a, read s = some a ↔ s = make a) {settings : List Setting} {value : Option α}
    (hmem : ∀ a, make a ∈ settings ↔ value = some a) : settings.findSome? read = value := by
  cases hfound : settings.findSome? read with
  | some a =>
      obtain ⟨s, hs, ha⟩ := List.exists_of_findSome?_eq_some hfound
      rw [hread] at ha
      exact ((hmem a).mp (ha ▸ hs)).symm
  | none =>
      rw [List.findSome?_eq_none_iff] at hfound
      cases value with
      | none => rfl
      | some a =>
          have hnone := hfound _ ((hmem a).mpr rfl)
          rw [(hread _ a).mpr rfl] at hnone
          cases hnone

end

namespace Setting

theorem path?_eq_some_iff (s : Setting) (path : String) :
    s.path? = some path ↔ s = .config path := by
  cases s <;> simp [path?]

theorem seedValue?_eq_some_iff (s : Setting) (x : Int64) :
    s.seedValue? = some x ↔ s = .seed x := by
  cases s <;> simp [seedValue?]

theorem count?_eq_some_iff (s : Setting) (n : Nat) : s.count? = some n ↔ s = .count n := by
  cases s <;> simp [count?]

theorem format?_eq_some_iff (s : Setting) (f : Format) :
    s.format? = some f ↔ s = .format f := by
  cases s <;> simp [format?]

theorem chunk?_eq_some_iff (s : Setting) (n : Nat) : s.chunk? = some n ↔ s = .chunk n := by
  cases s <;> simp [chunk?]

end Setting

theorem OptionName.servesCommand_of_isGlobal {o : OptionName} (ho : o.isGlobal = true)
    (c : Command) : o.servesCommand c = true := by
  cases o with
  | config | seed | metrics => rfl
  | count | format | chunk => cases ho

namespace Task

theorem mem_settings_iff (task : Task) (s : Setting) :
    s ∈ task.settings ↔
      match task with
      | .bytes count format =>
        (∃ n, count = some n ∧ .count n = s) ∨ ∃ f, format = some f ∧ .format f = s
      | .int63 count => ∃ n, count = some n ∧ .count n = s
      | .stream chunk => ∃ n, chunk = some n ∧ .chunk n = s := by
  cases task with
  | bytes count format =>
      rw [settings, List.mem_append, Option.mem_toList, Option.mem_toList, Option.map_eq_some_iff,
        Option.map_eq_some_iff]
  | int63 count => rw [settings, Option.mem_toList, Option.map_eq_some_iff]
  | stream chunk => rw [settings, Option.mem_toList, Option.map_eq_some_iff]

/-- The settings of a task are options of its command, and not global ones. -/
theorem serves_of_mem_settings {task : Task} {s : Setting} (hs : s ∈ task.settings) :
    s.option.servesCommand task.command = true ∧ s.option.isGlobal = false := by
  rw [mem_settings_iff] at hs
  cases task with
  | bytes count format =>
      rcases hs with ⟨n, -, rfl⟩ | ⟨f, -, rfl⟩
      · exact ⟨rfl, rfl⟩
      · exact ⟨rfl, rfl⟩
  | int63 count =>
      obtain ⟨n, -, rfl⟩ := hs
      exact ⟨rfl, rfl⟩
  | stream chunk =>
      obtain ⟨n, -, rfl⟩ := hs
      exact ⟨rfl, rfl⟩

theorem fits_of_mem_settings {task : Task} (hsize : ∀ n, task.size? = some n → n < 2 ^ 64)
    {s : Setting} (hs : s ∈ task.settings) : s.Fits := by
  rw [mem_settings_iff] at hs
  cases task with
  | bytes count format =>
      rcases hs with ⟨n, hn, rfl⟩ | ⟨f, -, rfl⟩
      · exact hsize n hn
      · trivial
  | int63 count =>
      obtain ⟨n, hn, rfl⟩ := hs
      exact hsize n hn
  | stream chunk =>
      obtain ⟨n, hn, rfl⟩ := hs
      exact hsize n hn

/-- The settings behind a command make the task whose settings they are. -/
theorem ofSettings_eq {task : Task} {behind : List Setting}
    (hbehind : ∀ s, s.option.isGlobal = false → (s ∈ behind ↔ s ∈ task.settings)) :
    ofSettings behind task.command = task := by
  cases task with
  | bytes count format =>
      have hcount : behind.findSome? (·.count?) = count := by
        refine findSome?_eq_of_mem_iff Setting.count?_eq_some_iff fun n => ?_
        rw [hbehind _ rfl, mem_settings_iff]
        simp
      have hformat : behind.findSome? (·.format?) = format := by
        refine findSome?_eq_of_mem_iff Setting.format?_eq_some_iff fun f => ?_
        rw [hbehind _ rfl, mem_settings_iff]
        simp
      rw [command, ofSettings, hcount, hformat]
  | int63 count =>
      have hcount : behind.findSome? (·.count?) = count := by
        refine findSome?_eq_of_mem_iff Setting.count?_eq_some_iff fun n => ?_
        rw [hbehind _ rfl, mem_settings_iff]
        simp
      rw [command, ofSettings, hcount]
  | stream chunk =>
      have hchunk : behind.findSome? (·.chunk?) = chunk := by
        refine findSome?_eq_of_mem_iff Setting.chunk?_eq_some_iff fun n => ?_
        rw [hbehind _ rfl, mem_settings_iff]
        simp
      rw [command, ofSettings, hchunk]

theorem map_option_settings_sublist (task : Task) :
    (task.settings.map Setting.option).Sublist [.count, .format, .chunk] := by
  cases task with
  | bytes count format =>
      rw [settings, List.map_append]
      exact ((map_option_sublist .count (fun _ => rfl) count).append
        (map_option_sublist .format (fun _ => rfl) format)).trans (by decide)
  | int63 count => exact (map_option_sublist .count (fun _ => rfl) count).trans (by decide)
  | stream chunk => exact (map_option_sublist .chunk (fun _ => rfl) chunk).trans (by decide)

end Task

namespace Invocation

theorem mem_globals_iff (i : Invocation) (s : Setting) :
    s ∈ i.globals ↔ (∃ path, i.config = some path ∧ .config path = s) ∨
      (∃ x, i.seed = some x ∧ .seed x = s) ∨ i.metrics = true ∧ .metrics = s := by
  have hmetrics : (s ∈ if i.metrics then [Setting.metrics] else []) ↔
      i.metrics = true ∧ .metrics = s := by
    cases i.metrics with
    | true => simp [eq_comm]
    | false => simp
  rw [globals, List.mem_append, List.mem_append, Option.mem_toList, Option.mem_toList,
    Option.map_eq_some_iff, Option.map_eq_some_iff, hmetrics, or_assoc]

theorem isGlobal_of_mem_globals {i : Invocation} {s : Setting} (hs : s ∈ i.globals) :
    s.option.isGlobal = true := by
  rw [mem_globals_iff] at hs
  rcases hs with ⟨path, -, rfl⟩ | ⟨x, -, rfl⟩ | ⟨-, rfl⟩
  · rfl
  · rfl
  · rfl

theorem mem_settings_of_global (i : Invocation) {s : Setting} (hs : s.option.isGlobal = true) :
    s ∈ i.settings ↔ s ∈ i.globals := by
  rw [settings, List.mem_append]
  refine or_iff_left fun htask => ?_
  rw [(Task.serves_of_mem_settings htask).2] at hs
  cases hs

theorem mem_settings_of_local (i : Invocation) {s : Setting} (hs : s.option.isGlobal = false) :
    s ∈ i.settings ↔ s ∈ i.task.settings := by
  rw [settings, List.mem_append]
  refine or_iff_right fun hglobal => ?_
  rw [isGlobal_of_mem_globals hglobal] at hs
  cases hs

theorem serves_of_mem_settings {i : Invocation} {s : Setting} (hs : s ∈ i.settings) :
    s.option.servesCommand i.task.command = true := by
  rw [settings, List.mem_append] at hs
  rcases hs with hglobal | htask
  · exact OptionName.servesCommand_of_isGlobal (isGlobal_of_mem_globals hglobal) _
  · exact (Task.serves_of_mem_settings htask).1

/-- No two settings of an invocation are of one option. -/
theorem nodup_map_option_settings (i : Invocation) :
    (i.settings.map Setting.option).Nodup := by
  have hmetrics : ((if i.metrics then [Setting.metrics] else []).map Setting.option).Sublist
      [.metrics] := by
    cases i.metrics with
    | true => exact List.Sublist.refl _
    | false => exact List.nil_sublist _
  have hglobals : (i.globals.map Setting.option).Sublist [.config, .seed, .metrics] := by
    rw [globals, List.map_append, List.map_append]
    exact ((map_option_sublist .config (fun _ => rfl) i.config).append
      (map_option_sublist .seed (fun _ => rfl) i.seed)).append hmetrics
  rw [settings, List.map_append]
  have hall : [OptionName.config, .seed, .metrics, .count, .format, .chunk].Nodup := by
    decide
  exact hall.sublist (hglobals.append i.task.map_option_settings_sublist)

theorem writable_of_mem_settings {i : Invocation}
    (hsize : ∀ n, i.task.size? = some n → n < 2 ^ 64)
    (hpath : ∀ path, i.config = some path → path ≠ "" ∧ path.toList.head? ≠ some '-')
    {s : Setting} (hs : s ∈ i.settings) : s.Writable := by
  rw [settings, List.mem_append] at hs
  rcases hs with hglobal | htask
  · rw [mem_globals_iff] at hglobal
    rcases hglobal with ⟨path, hi, rfl⟩ | ⟨x, -, rfl⟩ | ⟨-, rfl⟩
    · refine ⟨trivial, ?_⟩
      rintro _ ⟨⟩
      exact hpath path hi
    · exact ⟨trivial, nofun⟩
    · exact ⟨trivial, nofun⟩
  · refine ⟨Task.fits_of_mem_settings hsize htask, ?_⟩
    rintro path rfl
    cases (Task.serves_of_mem_settings htask).2

/-- The settings before and behind the command make the invocation whose settings they
are. -/
theorem ofSettings_eq {i : Invocation} {before behind : List Setting}
    (hperm : (before ++ behind).Perm i.settings)
    (hglobal : ∀ s ∈ before, s.option.isGlobal = true) :
    ofSettings before i.task.command behind = i := by
  have hmem {s : Setting} (hs : s.option.isGlobal = true) :
      s ∈ behind ++ before ↔ s ∈ i.globals := by
    rw [List.mem_append, or_comm, ← List.mem_append, hperm.mem_iff, i.mem_settings_of_global hs]
  have hconfig : (behind.findSome? (·.path?)).or (before.findSome? (·.path?)) = i.config := by
    rw [← List.findSome?_append]
    refine findSome?_eq_of_mem_iff Setting.path?_eq_some_iff fun path => ?_
    rw [hmem rfl, mem_globals_iff]
    simp
  have hseed :
      (behind.findSome? (·.seedValue?)).or (before.findSome? (·.seedValue?)) = i.seed := by
    rw [← List.findSome?_append]
    refine findSome?_eq_of_mem_iff Setting.seedValue?_eq_some_iff fun x => ?_
    rw [hmem rfl, mem_globals_iff]
    simp
  have hmetrics : (before.contains .metrics || behind.contains .metrics) = i.metrics := by
    rw [Bool.eq_iff_iff, Bool.or_eq_true, List.contains_iff_mem, List.contains_iff_mem, or_comm,
      ← List.mem_append, hmem rfl, mem_globals_iff]
    simp
  -- a setting of the task stands behind the command, since it is not global
  have htask : Task.ofSettings behind i.task.command = i.task := by
    refine Task.ofSettings_eq fun s hs => ?_
    rw [← i.mem_settings_of_local hs, ← hperm.mem_iff, List.mem_append]
    refine (or_iff_right fun hbefore => ?_).symm
    rw [hglobal s hbefore] at hs
    cases hs
  rw [ofSettings, hconfig, hseed, hmetrics, htask]

end Invocation

/-- Sizes are words, and a path neither is empty nor begins with a hyphen.  Then the
arguments that write an invocation are parsed to it: in whatever order its settings stand,
wherever the global ones stand before the command or behind it, and in whatever way each
value is attached to its option. -/
theorem parse_of_renders {i : Invocation} {args : List String}
    (hsize : ∀ n, i.task.size? = some n → n < 2 ^ 64)
    (hpath : ∀ path, i.config = some path → path ≠ "" ∧ path.toList.head? ≠ some '-')
    (hrenders : i.Renders args) : parse args = .ok i := by
  obtain ⟨before, behind, front, back, hperm, hglobal, hfront, hback, rfl⟩ := hrenders
  have hwritable : ∀ s ∈ before ++ behind, s.Writable := fun s hs =>
    Invocation.writable_of_mem_settings hsize hpath (hperm.mem_iff.mp hs)
  rw [List.forall_mem_append] at hwritable
  have hnodup : ((before ++ behind).map Setting.option).Nodup :=
    (hperm.map _).nodup_iff.mpr i.nodup_map_option_settings
  have hnodup_before : (([] ++ before).map Setting.option).Nodup :=
    hnodup.sublist ((List.sublist_append_left before behind).map _)
  have hnodup_behind : (([] ++ behind).map Setting.option).Nodup :=
    hnodup.sublist ((List.sublist_append_right before behind).map _)
  have hserve : ∀ s ∈ behind, s.option.servesCommand i.task.command = true := fun s hs =>
    Invocation.serves_of_mem_settings (hperm.mem_iff.mp (List.mem_append_right before hs))
  -- behind the command the second parser starts anew and takes all that is left
  have hsettings : settingsBehind i.task.command [] back = .ok behind := by
    have hall := settingsBehind_of_writes hback hwritable.2 hnodup_behind hserve []
    rwa [List.append_nil, List.nil_append] at hall
  rw [parse, invocation_of_writes hfront hwritable.1 hnodup_before hglobal, List.nil_append,
    invocation, Command.ofName?_name]
  change (settingsBehind _ [] back).map _ = _
  rw [hsettings]
  exact congrArg Except.ok (Invocation.ofSettings_eq hperm hglobal)

/-- Every option but the size of a chunk, the seed negative and before the command, the rest
behind it and out of order. -/
theorem parse_of_renders_interleaved :
    parse ["--seed", "-7", "bytes", "--format=raw", "--metrics", "-n5", "--config", "a=b"] =
      .ok {
        config := some "a=b"
        seed := some (-7)
        metrics := true
        task := .bytes (some 5) (some .raw) } := by
  have hbefore := Writes.cons (.spaced (rfl : Setting.text? (.seed (-7)) = _)) .nil
  have hbehind := Writes.cons (.attached (rfl : Setting.text? (.format .raw) = _))
    (.cons (.flag (rfl : Setting.text? .metrics = none))
      (.cons (.letterJoined 5) (.cons (.spaced (rfl : Setting.text? (.config "a=b") = _)) .nil)))
  refine parse_of_renders ?_ ?_ ⟨_, _, _, _, ?_, ?_, hbefore, hbehind, ?_⟩
  · rintro n ⟨⟩
    decide
  · rintro path ⟨⟩
    decide
  · decide
  · decide
  · decide

end CommandLine

end Fortuna
