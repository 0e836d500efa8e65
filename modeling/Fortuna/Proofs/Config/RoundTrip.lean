import Mathlib.Algebra.Group.Int.Defs
import Mathlib.Algebra.Group.Nat.Defs
import Fortuna.Config.Writing
import Fortuna.Proofs.Config.Fieldwise
import Fortuna.Proofs.Toml.Plain

/-!
# Configurations are read back as they were written

The written form of a configuration is a plain document, whose sections denote the
fields (`tables`).  Reading passes the fields on to the check of a configuration, so
writing loses nothing that can be written.  It fails only at a size that is no
integer of TOML, and no document can set such a size.
-/

namespace Fortuna

namespace Config

open Toml (Entries PlainSection Value)

/-! ## Writing -/

theorem fitsWord_natCast_iff {n : Nat} : Toml.fitsWord n = true ↔ n ≤ 2 ^ 63 - 1 := by
  have hmin : Int64.minValue.toInt = -2 ^ 63 := rfl
  have hmax : Int64.maxValue.toInt = 2 ^ 63 - 1 := rfl
  rw [Toml.fitsWord, Bool.and_eq_true, decide_eq_true_eq, decide_eq_true_eq, hmin, hmax]
  omega

theorem sizeText?_eq_some_iff {n : Nat} {text : String} :
    sizeText? n = some text ↔ n ≤ 2 ^ 63 - 1 ∧ Decimal.ofNat n = text := by
  rw [sizeText?, Option.ite_none_right_eq_some, fitsWord_natCast_iff, Option.some.injEq]

/-- All sizes are integers of TOML. -/
def SizesFit (c : Config) : Prop :=
  c.osSeedBytes ≤ 2 ^ 63 - 1 ∧ c.count ≤ 2 ^ 63 - 1 ∧ c.lineWidth ≤ 2 ^ 63 - 1 ∧
    c.streamChunk ≤ 2 ^ 63 - 1

/-- The sections of a configuration and what their keys are bound to. -/
def tables (c : Config) : List (String × Entries) :=
  [("generator", (c.seed.map fun seed => ("seed", Value.integer seed.toInt)).toList ++
      [("os_seed_bytes", .integer c.osSeedBytes)]),
    ("output", [
      ("format", .string c.format.name),
      ("count", .integer c.count),
      ("line_width", .integer c.lineWidth),
      ("stream_chunk", .integer c.streamChunk)]),
    ("metrics", [("print", .boolean c.printMetrics)])]

variable {c : Config} {sections : List PlainSection} {text : String}

theorem exists_sections?_iff : (∃ sections, c.sections? = some sections) ↔ c.SizesFit := by
  simp only [sections?, Option.bind_eq_bind, Option.bind_eq_some_iff, Option.pure_def,
    Option.some.injEq, sizeText?_eq_some_iff]
  constructor
  · rintro ⟨_, _, ⟨hosSeedBytes, -⟩, _, ⟨hcount, -⟩, _, ⟨hlineWidth, -⟩, _, ⟨hstreamChunk, -⟩, -⟩
    exact ⟨hosSeedBytes, hcount, hlineWidth, hstreamChunk⟩
  · rintro ⟨hosSeedBytes, hcount, hlineWidth, hstreamChunk⟩
    exact ⟨_, _, ⟨hosSeedBytes, rfl⟩, _, ⟨hcount, rfl⟩, _, ⟨hlineWidth, rfl⟩, _,
      ⟨hstreamChunk, rfl⟩, rfl⟩

/-! ## Texts of settings -/

theorem spells_size {n : Nat} (hn : n ≤ 2 ^ 63 - 1) :
    Toml.Spells (Decimal.ofNat n) (.integer n) :=
  Toml.spells_ofInt (fitsWord_natCast_iff.mpr hn)

theorem spells_seed (seed : Int64) :
    Toml.Spells (Decimal.ofInt seed.toInt) (.integer seed.toInt) := by
  apply Toml.spells_ofInt
  rw [Toml.fitsWord, Bool.and_eq_true, decide_eq_true_eq, decide_eq_true_eq]
  exact ⟨seed.minValue_le_toInt, seed.toInt_le⟩

theorem spells_formatText (f : Format) : Toml.Spells (formatText f) (.string f.name) := by
  apply Toml.spells_string
  cases f <;> exact List.all_eq_true.mp rfl

theorem isBareName_name (p : Part) : Toml.IsBareName p.name := by
  cases p <;> exact ⟨by decide, List.all_eq_true.mp rfl⟩

theorem isBareName_key (f : Field) : Toml.IsBareName f.key := by
  cases f <;> exact ⟨by decide, List.all_eq_true.mp rfl⟩

theorem denotes_sections? (h : c.sections? = some sections) :
    List.Forall₂ PlainSection.Denotes sections c.tables := by
  simp only [sections?, Option.bind_eq_bind, Option.bind_eq_some_iff, Option.pure_def,
    Option.some.injEq, sizeText?_eq_some_iff] at h
  obtain ⟨_, ⟨hosSeedBytes, rfl⟩, _, ⟨hcount, rfl⟩, _, ⟨hlineWidth, rfl⟩, _, ⟨hstreamChunk, rfl⟩,
    rfl⟩ := h
  refine .cons ⟨rfl, isBareName_name .generator, ?_, ?_⟩
    (.cons ⟨rfl, isBareName_name .output, nodup_keys .output, ?_⟩
    (.cons ⟨rfl, isBareName_name .metrics, nodup_keys .metrics, ?_⟩ .nil))
  · cases c.seed with
    | none => exact List.nodup_singleton _
    | some seed => exact nodup_keys .generator
  · have hlast : Toml.Writes ("os_seed_bytes", Decimal.ofNat c.osSeedBytes)
        ("os_seed_bytes", .integer c.osSeedBytes) :=
      ⟨rfl, isBareName_key .osSeedBytes, spells_size hosSeedBytes⟩
    cases c.seed with
    | none => exact .cons hlast .nil
    | some seed => exact .cons ⟨rfl, isBareName_key .seed, spells_seed seed⟩ (.cons hlast .nil)
  · exact .cons ⟨rfl, isBareName_key .format, spells_formatText c.format⟩
      (.cons ⟨rfl, isBareName_key .count, spells_size hcount⟩
      (.cons ⟨rfl, isBareName_key .lineWidth, spells_size hlineWidth⟩
      (.cons ⟨rfl, isBareName_key .streamChunk, spells_size hstreamChunk⟩ .nil)))
  · exact .cons ⟨rfl, isBareName_key .printMetrics, Toml.spells_boolean c.printMetrics⟩ .nil

/-! ## Reading back -/

theorem nodup_names (c : Config) : (c.tables.map Prod.fst).Nodup := by
  change ["generator", "output", "metrics"].Nodup
  decide

theorem ofTable?_tables (c : Config) : ofTable? (c.tables.map Toml.tableEntry) = some c := by
  rw [ofTable?_eq_some_iff_isSet]
  refine ⟨inside (c.tables.map Toml.tableEntry), fun p => by cases p <;> rfl, fun f => ?_⟩
  obtain ⟨seed, osSeedBytes, format, count, lineWidth, streamChunk, printMetrics⟩ := c
  cases f with
  | seed =>
      cases seed with
      | none => rfl
      | some seed => exact congrArg (fun n => some (some n)) (Int64.ofInt_toInt seed)
  | osSeedBytes => cases seed <;> rfl
  | format =>
      change Format.ofName? format.name = some format
      exact Format.ofName?_name format
  | printMetrics => rfl
  | _ => rfl

/-- A written configuration is read back up to its check. -/
theorem ofToml_of_toToml? (h : c.toToml? = some text) : ofToml text = c.validate := by
  obtain ⟨sections, hsections, rfl⟩ := Option.map_eq_some_iff.mp h
  have hparse := Toml.parse?_plainText (denotes_sections? hsections) (nodup_names c)
  rw [ofToml_of_parse hparse, ofTable?_tables]

/-! ## What documents can set -/

/-- A document cannot set a size that is no integer of TOML. -/
theorem sizesFit_of_ofTable? {root : Entries} (hroot : root.Sound) (hc : ofTable? root = some c) :
    c.SizesFit := by
  obtain ⟨entries, hsections, hset⟩ := ofTable?_eq_some_iff_isSet.mp hc
  have hsize : ∀ {p : Part} {key : String} {default n : Nat},
      setting (entries p) key readNat default = some n → default ≤ 2 ^ 63 - 1 →
        n ≤ 2 ^ 63 - 1 := by
    intro p key default n hsetting hdefault
    have hvalues := sound_sectionEntries (fun v hv => hroot.lookup hv) (hsections p)
    obtain ⟨hbound, hfree⟩ := setting_eq_some_iff.mp hsetting
    cases hlookup : (entries p).lookup key with
    | none => rwa [hfree hlookup]
    | some v =>
        have hsound := hvalues _ (Toml.Entries.mem_of_lookup hlookup)
        obtain rfl := readNat_eq_some_iff.mp (hbound v hlookup)
        cases hsound with
        | integer hn => exact fitsWord_natCast_iff.mp hn
  exact ⟨hsize (hset .osSeedBytes) (by decide), hsize (hset .count) (by decide),
    hsize (hset .lineWidth) (by decide), hsize (hset .streamChunk) (by decide)⟩

theorem exists_toToml?_iff : (∃ text, c.toToml? = some text) ↔ c.SizesFit := by
  rw [← exists_sections?_iff]
  constructor
  · rintro ⟨text, htext⟩
    obtain ⟨sections, hsections, -⟩ := Option.map_eq_some_iff.mp htext
    exact ⟨sections, hsections⟩
  · rintro ⟨sections, hsections⟩
    exact ⟨_, Option.map_eq_some_iff.mpr ⟨sections, hsections, rfl⟩⟩

theorem eq_of_validate {c' : Config} (h : c.validate = .ok c') : c' = c := by
  unfold validate at h
  split at h
  · exact absurd h nofun
  · split at h
    · exact absurd h nofun
    · split at h
      · exact absurd h nofun
      · exact (Except.ok.inj h).symm

/-- What is read was found in a table, and is valid. -/
theorem exists_root_of_ofToml (h : ofToml text = .ok c) :
    ∃ root, Toml.parse? text.toList = some root ∧ ofTable? root = some c ∧ c.validate = .ok c := by
  unfold ofToml at h
  split at h
  · next c' hc' =>
      obtain ⟨root, hparse, hread⟩ := Option.bind_eq_some_iff.mp hc'
      obtain rfl := eq_of_validate h
      exact ⟨root, hparse, hread, h⟩
  · exact absurd h nofun

/-- A configuration can be written if and only if its sizes are integers of TOML.
From what was written it is read back if it is valid, and its fault is found if it
is not.  Whatever can be read can be written and read again. -/
theorem toml_round_trip :
    (∀ c : Config,
      ((∃ text, c.toToml? = some text) ↔
        c.osSeedBytes ≤ 2 ^ 63 - 1 ∧ c.count ≤ 2 ^ 63 - 1 ∧ c.lineWidth ≤ 2 ^ 63 - 1 ∧
          c.streamChunk ≤ 2 ^ 63 - 1) ∧
      ∀ text, c.toToml? = some text →
        (c.validate = .ok c → ofToml text = .ok c) ∧
          ∀ e, c.validate = .error e → ofToml text = .error e) ∧
      ∀ text c, ofToml text = .ok c →
        c.validate = .ok c ∧ ∃ written, c.toToml? = some written ∧ ofToml written = .ok c := by
  constructor
  · intro c
    refine ⟨exists_toToml?_iff, fun text htext => ?_⟩
    rw [ofToml_of_toToml? htext]
    exact ⟨id, fun _ => id⟩
  · intro text c hread
    obtain ⟨root, hparse, hfound, hvalid⟩ := exists_root_of_ofToml hread
    have hfit := sizesFit_of_ofTable? (Toml.sound_parse? hparse) hfound
    obtain ⟨written, hwritten⟩ := exists_toToml?_iff.mpr hfit
    exact ⟨hvalid, written, hwritten, (ofToml_of_toToml? hwritten).trans hvalid⟩

/-- A configuration with a negative seed, one without system entropy, and a short
document. -/
theorem toml_round_trip_of_seed :
    let c : Config := { seed := some (-7), format := .raw, lineWidth := 0 }
    let faulty : Config := { osSeedBytes := 0 }
    (∃ text, c.toToml? = some text ∧ ofToml text = .ok c) ∧
      (∃ text, faulty.toToml? = some text ∧ ofToml text = .error .emptyOsSeed) ∧
      ∃ text, ({ count := 9 } : Config).toToml? = some text ∧
        ofToml text = ofToml "[output]\ncount = 9\n" := by
  intro c faulty
  refine ⟨?_, ?_, ?_⟩
  · obtain ⟨text, htext⟩ := (toml_round_trip.1 c).1.mpr (by decide)
    exact ⟨text, htext, ((toml_round_trip.1 c).2 text htext).1 rfl⟩
  · obtain ⟨text, htext⟩ := (toml_round_trip.1 faulty).1.mpr (by decide)
    exact ⟨text, htext, ((toml_round_trip.1 faulty).2 text htext).2 _ rfl⟩
  · have hread : ofToml "[output]\ncount = 9\n" = .ok { count := 9 } := by
      decide +kernel
    obtain ⟨-, text, htext, htext'⟩ := toml_round_trip.2 _ _ hread
    exact ⟨text, htext, htext'.trans hread.symm⟩

end Config

end Fortuna
