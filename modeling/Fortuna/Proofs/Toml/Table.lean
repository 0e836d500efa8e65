import Fortuna.Toml.Number
import Fortuna.Toml.Table
import Mathlib.Data.List.Nodup
import Mathlib.Data.Option.Basic

/-!
# Tables without repetition

No key is bound twice in a table, and every integer in a value fits a word
(`Sound`).  Bindings and headers keep this, so the first binding of a key is its
only one, and the order of the bindings does not matter for a lookup.
-/

namespace Fortuna

namespace Toml

namespace Entries

variable {entries : Entries} {key : String} {value : Value}

/-! ## Lookups -/

theorem lookup_eq_none_iff_notMem : entries.lookup key = none ↔ key ∉ entries.map Prod.fst := by
  rw [List.lookup_eq_none_iff]
  simp only [bne_iff_ne, List.mem_map, not_exists, not_and]
  constructor
  · intro h e he heq
    exact h e he heq.symm
  · intro h e he heq
    exact h e he heq.symm

theorem mem_of_lookup (h : entries.lookup key = some value) : (key, value) ∈ entries := by
  obtain ⟨before, later, rfl, -⟩ := List.lookup_eq_some_iff.mp h
  exact List.mem_append_right before List.mem_cons_self

theorem lookup_of_mem (hkeys : (entries.map Prod.fst).Nodup) (hmem : (key, value) ∈ entries) :
    entries.lookup key = some value := by
  induction entries with
  | nil => exact absurd hmem List.not_mem_nil
  | cons e entries ih =>
      rw [List.map_cons, List.nodup_cons] at hkeys
      obtain rfl | hlater := List.mem_cons.mp hmem
      · exact List.lookup_cons_self
      · have hne : key ≠ e.1 := by
          rintro rfl
          exact hkeys.1 (List.mem_map.mpr ⟨_, hlater, rfl⟩)
        rw [List.lookup_cons, beq_false_of_ne hne]
        exact ih hkeys.2 hlater

/-- What a key is bound to does not depend on the order of the entries. -/
theorem lookup_congr {others : Entries} (hkeys : (entries.map Prod.fst).Nodup)
    (hkeys' : (others.map Prod.fst).Nodup)
    (hsame : ∀ v, (key, v) ∈ entries ↔ (key, v) ∈ others) :
    entries.lookup key = others.lookup key := by
  ext v
  exact ⟨fun h => lookup_of_mem hkeys' ((hsame v).mp (mem_of_lookup h)),
    fun h => lookup_of_mem hkeys ((hsame v).mpr (mem_of_lookup h))⟩

/-! ## Changes -/

theorem put_of_notMem (hkey : key ∉ entries.map Prod.fst) :
    entries.put key value = entries ++ [(key, value)] := by
  induction entries with
  | nil => rfl
  | cons e entries ih =>
      rw [List.map_cons, List.mem_cons, not_or] at hkey
      rw [put, if_neg (Ne.symm hkey.1), ih hkey.2, List.cons_append]

theorem keys_put_of_mem (hkey : key ∈ entries.map Prod.fst) :
    (entries.put key value).map Prod.fst = entries.map Prod.fst := by
  induction entries with
  | nil => exact absurd hkey List.not_mem_nil
  | cons e entries ih =>
      by_cases he : e.1 = key
      · rw [put, if_pos he, List.map_cons, List.map_cons, he]
      · have hlater := (List.mem_cons.mp hkey).resolve_left (Ne.symm he)
        rw [put, if_neg he, List.map_cons, List.map_cons, ih hlater]

theorem eq_or_mem_of_mem_put {e : String × Value} (he : e ∈ entries.put key value) :
    e = (key, value) ∨ e ∈ entries := by
  induction entries with
  | nil => exact .inl (List.mem_singleton.mp he)
  | cons first entries ih =>
      rw [put] at he
      split at he
      · exact (List.mem_cons.mp he).imp_right (List.mem_cons_of_mem _)
      · obtain rfl | hlater := List.mem_cons.mp he
        · exact .inr List.mem_cons_self
        · exact (ih hlater).imp_right (List.mem_cons_of_mem _)

end Entries

/-! ## Soundness -/

/-- All integers in the value fit a word, and no table in it binds a key twice. -/
inductive Value.Sound : Value → Prop
  | string {text : String} : Sound (.string text)
  | integer {n : Int} (hn : fitsWord n = true) : Sound (.integer n)
  | float {text : String} : Sound (.float text)
  | boolean {b : Bool} : Sound (.boolean b)
  | moment {text : String} : Sound (.moment text)
  | array {items : List Value} (hitems : ∀ v ∈ items, v.Sound) : Sound (.array items)
  | table {origin : Origin} {entries : Entries} (hkeys : (entries.map Prod.fst).Nodup)
      (hvalues : ∀ e ∈ entries, e.2.Sound) : Sound (.table origin entries)
  | tables {elements : List Entries} (hkeys : ∀ es ∈ elements, (es.map Prod.fst).Nodup)
      (hvalues : ∀ es ∈ elements, ∀ e ∈ es, e.2.Sound) : Sound (.tables elements)

namespace Entries

structure Sound (entries : Entries) : Prop where
  keys : (entries.map Prod.fst).Nodup
  values : ∀ e ∈ entries, e.2.Sound

variable {entries inner : Entries} {key : String} {value : Value} {origin : Origin}
  {elements : List Entries}

theorem sound_nil : Sound [] :=
  ⟨List.nodup_nil, fun _ he => absurd he List.not_mem_nil⟩

theorem sound_of_table (h : (Value.table origin entries).Sound) : entries.Sound := by
  cases h with
  | table hkeys hvalues => exact ⟨hkeys, hvalues⟩

theorem Sound.table (h : entries.Sound) (origin : Origin) : (Value.table origin entries).Sound :=
  .table h.keys h.values

theorem sound_of_tables (h : (Value.tables elements).Sound) : ∀ es ∈ elements, es.Sound := by
  cases h with
  | tables hkeys hvalues => exact fun es hes => ⟨hkeys es hes, hvalues es hes⟩

theorem sound_tables_concat (h : ∀ es ∈ elements, es.Sound) (hinner : inner.Sound) :
    (Value.tables (elements ++ [inner])).Sound := by
  have hall : ∀ es ∈ elements ++ [inner], es.Sound := by
    rw [List.forall_mem_append, List.forall_mem_singleton]
    exact ⟨h, hinner⟩
  exact .tables (fun es hes => (hall es hes).keys) fun es hes => (hall es hes).values

theorem Sound.lookup (h : entries.Sound) (hlookup : entries.lookup key = some value) :
    value.Sound :=
  h.values _ (mem_of_lookup hlookup)

theorem Sound.lookup_eq_some_iff (h : entries.Sound) :
    entries.lookup key = some value ↔ (key, value) ∈ entries :=
  ⟨mem_of_lookup, lookup_of_mem h.keys⟩

theorem Sound.put (h : entries.Sound) (hvalue : value.Sound) : (entries.put key value).Sound := by
  constructor
  · by_cases hkey : key ∈ entries.map Prod.fst
    · rw [keys_put_of_mem hkey]
      exact h.keys
    · rw [put_of_notMem hkey, List.map_append, List.map_singleton, ← List.concat_eq_append]
      exact h.keys.concat hkey
  · intro e he
    obtain rfl | hold := eq_or_mem_of_mem_put he
    · exact hvalue
    · exact h.values e hold

theorem Sound.last (h : entries.Sound) (hlookup : entries.lookup key = some (.tables elements))
    (hlast : elements.getLast? = some inner) : inner.Sound :=
  sound_of_tables (h.lookup hlookup) inner (List.mem_of_getLast? hlast)

/-- The last of an array of tables may change. -/
theorem Sound.put_last (h : entries.Sound)
    (hlookup : entries.lookup key = some (.tables elements)) (hinner : inner.Sound) :
    (entries.put key (.tables (elements.dropLast ++ [inner]))).Sound := by
  have hold := sound_of_tables (h.lookup hlookup)
  refine h.put (sound_tables_concat (fun es hes => ?_) hinner)
  exact hold es (List.dropLast_subset elements hes)

/-! ## Soundness of documents -/

theorem Sound.bindPath {path : List String} {result : Entries} (h : entries.Sound)
    (hvalue : value.Sound) (hresult : entries.bindPath path value = some result) :
    result.Sound := by
  fun_induction Entries.bindPath entries path value generalizing result with
  | case1 => exact absurd hresult nofun
  | case2 => exact absurd hresult nofun
  | case3 es key hfree =>
      rw [← Option.some.inj hresult]
      exact h.put hvalue
  | case4 es key path hpath hnone ih =>
      obtain ⟨inner, hinner, hput⟩ := Option.bind_eq_some_iff.mp hresult
      rw [← Option.some.inj hput]
      exact h.put ((ih sound_nil hinner).table .dotted)
  | case5 es key path hpath old hold ih =>
      obtain ⟨inner, hinner, hput⟩ := Option.bind_eq_some_iff.mp hresult
      rw [← Option.some.inj hput]
      exact h.put ((ih (sound_of_table (h.lookup hold)) hinner).table .dotted)
  | case6 es key path hpath old hold ih =>
      obtain ⟨-, -, hopened⟩ := Option.bind_eq_some_iff.mp hresult
      obtain ⟨inner, hinner, hput⟩ := Option.bind_eq_some_iff.mp hopened
      rw [← Option.some.inj hput]
      exact h.put ((ih (sound_of_table (h.lookup hold)) hinner).table .parent)
  | case7 es key path hpath elements hold ih =>
      obtain ⟨-, -, hopened⟩ := Option.bind_eq_some_iff.mp hresult
      obtain ⟨last, hlast, hfilled⟩ := Option.bind_eq_some_iff.mp hopened
      obtain ⟨inner, hinner, hput⟩ := Option.bind_eq_some_iff.mp hfilled
      rw [← Option.some.inj hput]
      exact h.put_last hold (ih last (h.last hold hlast) hinner)
  | case8 => exact absurd hresult nofun

theorem Sound.bindAll {bindings : List Binding} {result : Entries} (h : entries.Sound)
    (hvalues : ∀ b ∈ bindings, b.value.Sound)
    (hresult : bindAll bindings entries = some result) : result.Sound := by
  induction bindings generalizing entries with
  | nil => rwa [← Option.some.inj hresult]
  | cons b bindings ih =>
      rw [List.forall_mem_cons] at hvalues
      obtain ⟨next, hnext, hlater⟩ := Option.bind_eq_some_iff.mp hresult
      exact ih (h.bindPath hvalues.1 hnext) hvalues.2 hlater

theorem Sound.atPath {path : List String} {change : Entries → Option Entries} {result : Entries}
    (h : entries.Sound)
    (hchange : ∀ before later, before.Sound → change before = some later → later.Sound)
    (hresult : entries.atPath path change = some result) : result.Sound := by
  fun_induction Entries.atPath entries path change generalizing result with
  | case1 es => exact hchange es result h hresult
  | case2 es key path hnone ih =>
      obtain ⟨inner, hinner, hput⟩ := Option.bind_eq_some_iff.mp hresult
      rw [← Option.some.inj hput]
      exact h.put ((ih sound_nil hinner).table .parent)
  | case3 => exact absurd hresult nofun
  | case4 es key path origin old horigin hold ih =>
      obtain ⟨inner, hinner, hput⟩ := Option.bind_eq_some_iff.mp hresult
      rw [← Option.some.inj hput]
      exact h.put ((ih (sound_of_table (h.lookup hold)) hinner).table origin)
  | case5 es key path elements hold ih =>
      obtain ⟨last, hlast, hfilled⟩ := Option.bind_eq_some_iff.mp hresult
      obtain ⟨inner, hinner, hput⟩ := Option.bind_eq_some_iff.mp hfilled
      rw [← Option.some.inj hput]
      exact h.put_last hold (ih last (h.last hold hlast) hinner)
  | case6 => exact absurd hresult nofun

theorem Sound.addSection {s : Section} {result : Entries} (h : entries.Sound)
    (hvalues : ∀ b ∈ s.bindings, b.value.Sound)
    (hresult : entries.addSection s = some result) : result.Sound := by
  refine h.atPath ?_ hresult
  intro before later hbefore hlater
  split at hlater
  · obtain ⟨inner, hinner, hput⟩ := Option.bind_eq_some_iff.mp hlater
    rw [← Option.some.inj hput]
    exact hbefore.put ((sound_nil.bindAll hvalues hinner).table .header)
  · next old _ hold =>
      obtain ⟨inner, hinner, hput⟩ := Option.bind_eq_some_iff.mp hlater
      rw [← Option.some.inj hput]
      have holdSound := sound_of_table (hbefore.lookup hold)
      exact hbefore.put ((holdSound.bindAll hvalues hinner).table .header)
  · obtain ⟨inner, hinner, hput⟩ := Option.bind_eq_some_iff.mp hlater
    rw [← Option.some.inj hput]
    have hnone : ∀ es ∈ ([] : List Entries), es.Sound := fun es hes => absurd hes List.not_mem_nil
    exact hbefore.put (sound_tables_concat hnone (sound_nil.bindAll hvalues hinner))
  · next elements _ hold =>
      obtain ⟨inner, hinner, hput⟩ := Option.bind_eq_some_iff.mp hlater
      rw [← Option.some.inj hput]
      have holdSound := sound_of_tables (hbefore.lookup hold)
      exact hbefore.put (sound_tables_concat holdSound (sound_nil.bindAll hvalues hinner))
  · exact absurd hlater nofun

end Entries

/-- The table that a document denotes is sound if the values in it are. -/
theorem Document.sound_table? {d : Document} {root : Entries}
    (hpreamble : ∀ b ∈ d.preamble, b.value.Sound)
    (hsections : ∀ s ∈ d.sections, ∀ b ∈ s.bindings, b.value.Sound)
    (hroot : d.table? = some root) : root.Sound := by
  obtain ⟨first, hfirst, hlater⟩ := Option.bind_eq_some_iff.mp hroot
  have hsound : first.Sound := Entries.sound_nil.bindAll hpreamble hfirst
  clear hroot hfirst
  generalize d.sections = sections at hsections hlater
  induction sections generalizing first with
  | nil => rwa [← Option.some.inj hlater]
  | cons s sections ih =>
      rw [List.forall_mem_cons] at hsections
      obtain ⟨next, hnext, hrest⟩ := Option.bind_eq_some_iff.mp hlater
      exact ih next (hsound.addSection hsections.1 hnext) hsections.2 hrest

end Toml

end Fortuna
