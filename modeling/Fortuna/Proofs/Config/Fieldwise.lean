import Fortuna.Config.Reading
import Fortuna.Proofs.Toml.Grammar

/-!
# Configurations are read field by field

A document binds the fields of a configuration to values.  A configuration carries
such bindings if each field that is bound has what its value says, and each other
field its default (`Carries`).  Reading finds the one configuration that carries the
bindings, and fails exactly if a field is bound to a value that says nothing about
it (`ofTable?_eq_some_iff`).  Nothing else in a document counts.
-/

namespace Fortuna

namespace Config

open Toml (Entries Value)

/-! ## Fields -/

/-- The configuration of an empty file. -/
def defaults : Config := {}

/-- The sections of a configuration file. -/
inductive Part where
  | generator
  | output
  | metrics

/-- The fields of a configuration. -/
inductive Field where
  | seed
  | osSeedBytes
  | format
  | count
  | lineWidth
  | streamChunk
  | printMetrics
  deriving DecidableEq

namespace Part

def name : Part → String
  | generator => "generator"
  | output => "output"
  | metrics => "metrics"

/-- The fields of a section, in their order. -/
def fields : Part → List Field
  | generator => [.seed, .osSeedBytes]
  | output => [.format, .count, .lineWidth, .streamChunk]
  | metrics => [.printMetrics]

end Part

namespace Field

def part : Field → Part
  | seed | osSeedBytes => .generator
  | format | count | lineWidth | streamChunk => .output
  | printMetrics => .metrics

def key : Field → String
  | seed => "seed"
  | osSeedBytes => "os_seed_bytes"
  | format => "format"
  | count => "count"
  | lineWidth => "line_width"
  | streamChunk => "stream_chunk"
  | printMetrics => "print"

end Field

def Part.keys (p : Part) : List String :=
  p.fields.map Field.key

/-! ## What values say -/

/-- The value names the format: by a string, or by the key of a table that binds it
to an empty table or array. -/
def NamesFormat (v : Value) (f : Format) : Prop :=
  v = .string f.name ∨ ∃ origin inner, v = .table origin [(f.name, inner)] ∧
    (inner = .array [] ∨ ∃ origin', inner = .table origin' [])

namespace Field

/-- The value is one that the field can have. -/
def Accepts (v : Value) : Field → Prop
  | seed => ∃ n : Int, v = .integer n
  | osSeedBytes | count | lineWidth | streamChunk => ∃ n : Nat, v = .integer n
  | format => NamesFormat v .hex ∨ NamesFormat v .raw
  | printMetrics => ∃ b, v = .boolean b

/-- The field of the configuration is what the value says. -/
def Reads (v : Value) (c : Config) : Field → Prop
  | seed => ∃ n : Int64, v = .integer n.toInt ∧ c.seed = some n
  | osSeedBytes => v = .integer c.osSeedBytes
  | format => NamesFormat v c.format
  | count => v = .integer c.count
  | lineWidth => v = .integer c.lineWidth
  | streamChunk => v = .integer c.streamChunk
  | printMetrics => v = .boolean c.printMetrics

/-- The field is the same in both configurations. -/
def Agrees (c c' : Config) : Field → Prop
  | seed => c.seed = c'.seed
  | osSeedBytes => c.osSeedBytes = c'.osSeedBytes
  | format => c.format = c'.format
  | count => c.count = c'.count
  | lineWidth => c.lineWidth = c'.lineWidth
  | streamChunk => c.streamChunk = c'.streamChunk
  | printMetrics => c.printMetrics = c'.printMetrics

variable {v : Value} {c c' : Config} {f : Field}

theorem Agrees.symm (h : f.Agrees c c') : f.Agrees c' c := by
  cases f <;> exact Eq.symm h

theorem Agrees.trans {c'' : Config} (h : f.Agrees c c') (h' : f.Agrees c' c'') :
    f.Agrees c c'' := by
  cases f <;> exact Eq.trans h h'

theorem Reads.congr (h : f.Reads v c) (hsame : f.Agrees c c') : f.Reads v c' := by
  cases f <;> simp only [Reads, Agrees] at h hsame ⊢ <;> rwa [← hsame]

end Field

/-! ## Readers -/

variable {v : Value}

theorem readNat_eq_some_iff {n : Nat} : readNat v = some n ↔ v = .integer n := by
  cases v with
  | integer k =>
      rw [readNat, Option.ite_none_right_eq_some, Value.integer.injEq, Option.some.injEq]
      omega
  | _ => simp only [readNat, reduceCtorEq]

theorem readSeed_eq_some_iff (hv : v.Sound) {seed : Option Int64} :
    readSeed v = some seed ↔ ∃ n : Int64, v = .integer n.toInt ∧ seed = some n := by
  cases hv with
  | @integer k hk =>
      rw [Toml.fitsWord, Bool.and_eq_true, decide_eq_true_eq, decide_eq_true_eq] at hk
      have hword : (Int64.ofInt k).toInt = k :=
        Int64.toInt_ofInt_of_le hk.1 (Int.lt_add_one_of_le hk.2)
      simp only [readSeed, Option.some.injEq, Value.integer.injEq]
      constructor
      · rintro rfl
        exact ⟨_, hword.symm, rfl⟩
      · rintro ⟨n, rfl, rfl⟩
        rw [Int64.ofInt_toInt]
  | _ => simp only [readSeed, reduceCtorEq, false_and, exists_false]

theorem readBool_eq_some_iff {b : Bool} : readBool v = some b ↔ v = .boolean b := by
  cases v with
  | boolean b' => rw [readBool, Value.boolean.injEq, Option.some.injEq]
  | _ => simp only [readBool, reduceCtorEq]

theorem isEmptyValue_iff :
    isEmptyValue v = true ↔ v = .array [] ∨ ∃ origin, v = .table origin [] := by
  cases v with
  | array items => simp only [isEmptyValue, List.isEmpty_iff, Value.array.injEq, reduceCtorEq,
      exists_false, or_false]
  | table origin entries => simp only [isEmptyValue, List.isEmpty_iff, Value.table.injEq,
      reduceCtorEq, false_or, exists_eq_left']
  | _ => simp only [isEmptyValue, Bool.false_eq_true, reduceCtorEq, exists_false, or_self]

theorem ofName?_eq_some_iff {name : String} {f : Format} :
    Format.ofName? name = some f ↔ name = f.name := by
  constructor
  · intro h
    unfold Format.ofName? at h
    split at h
    · next hname => rw [hname, ← Option.some.inj h]; rfl
    · split at h
      · next hname => rw [hname, ← Option.some.inj h]; rfl
      · exact absurd h nofun
  · rintro rfl
    exact Format.ofName?_name f

theorem readFormat_eq_some_iff {f : Format} : readFormat v = some f ↔ NamesFormat v f := by
  unfold readFormat
  split
  · simp only [NamesFormat, ofName?_eq_some_iff, Value.string.injEq, reduceCtorEq, false_and,
      exists_false, or_false]
  · next origin name inner =>
      rw [Option.ite_none_right_eq_some, ofName?_eq_some_iff, isEmptyValue_iff]
      constructor
      · rintro ⟨hinner, rfl⟩
        exact .inr ⟨origin, inner, rfl, hinner⟩
      · rintro (hstring | ⟨_, _, htable, hinner⟩)
        · exact absurd hstring nofun
        · cases htable
          exact ⟨hinner, rfl⟩
  · next hstring htable =>
      refine iff_of_false nofun ?_
      rintro (rfl | ⟨origin, inner, rfl, -⟩)
      · exact hstring _ rfl
      · exact htable _ _ _ rfl

theorem setting_eq_some_iff {α : Type} {entries : Entries} {key : String}
    {read : Value → Option α} {default a : α} :
    setting entries key read default = some a ↔
      (∀ v, entries.lookup key = some v → read v = some a) ∧
        (entries.lookup key = none → a = default) := by
  rw [setting]
  cases entries.lookup key with
  | none => simp only [Option.some.injEq, reduceCtorEq, false_implies, implies_true, true_and,
      forall_const, eq_comm]
  | some v => simp only [Option.some.injEq, forall_eq', reduceCtorEq, false_implies, and_true]

/-! ## Sections -/

/-- What the entries of a section say about a field is what the configuration has. -/
def Field.Delivers (entries : Entries) (c : Config) (f : Field) : Prop :=
  (∀ v, entries.lookup f.key = some v → f.Reads v c) ∧
    (entries.lookup f.key = none → f.Agrees c defaults)

variable {root entries : Entries} {c : Config}

theorem setting_iff_delivers {α : Type} (f : Field) {read : Value → Option α} {default a : α}
    (hvalues : ∀ e ∈ entries, e.2.Sound)
    (hread : ∀ v : Value, v.Sound → (read v = some a ↔ f.Reads v c))
    (hdefault : a = default ↔ f.Agrees c defaults) :
    setting entries f.key read default = some a ↔ f.Delivers entries c := by
  rw [setting_eq_some_iff, Field.Delivers, hdefault]
  refine and_congr_left' (forall_congr' fun v => ?_)
  exact imp_congr_right fun hv => hread v (hvalues _ (Toml.Entries.mem_of_lookup hv))

theorem sound_sectionEntries {keys : List String} {v : Option Value} (hv : ∀ u ∈ v, u.Sound)
    (hentries : sectionEntries keys v = some entries) : ∀ e ∈ entries, e.2.Sound := by
  have hnil : ∀ e ∈ ([] : Entries), e.2.Sound := fun e he => absurd he List.not_mem_nil
  have hzip : ∀ items : List Value, (∀ u ∈ items, u.Sound) → ∀ e ∈ keys.zip items, e.2.Sound :=
    fun items hitems e he => hitems e.2 (List.of_mem_zip he).2
  unfold sectionEntries at hentries
  split at hentries
  · exact Option.some.inj hentries ▸ hnil
  · next origin es =>
      exact Option.some.inj hentries ▸ (Toml.Entries.sound_of_table (hv _ rfl)).values
  · next items =>
      cases hv _ rfl with
      | array hitems => exact Option.some.inj hentries ▸ hzip items hitems
  · next elements =>
      have helements := Toml.Entries.sound_of_tables (hv _ rfl)
      refine Option.some.inj hentries ▸ hzip _ ?_
      intro u hu
      obtain ⟨es, hes, rfl⟩ := List.mem_map.mp hu
      exact (helements es hes).table .header
  · exact Option.some.inj hentries ▸ hnil
  · exact absurd hentries nofun

/-- The field of the configuration is what reading finds in the entries. -/
def Field.IsSet (entries : Entries) (c : Config) : Field → Prop
  | seed => setting entries "seed" readSeed defaults.seed = some c.seed
  | osSeedBytes =>
      setting entries "os_seed_bytes" readNat defaults.osSeedBytes = some c.osSeedBytes
  | format => setting entries "format" readFormat defaults.format = some c.format
  | count => setting entries "count" readNat defaults.count = some c.count
  | lineWidth => setting entries "line_width" readNat defaults.lineWidth = some c.lineWidth
  | streamChunk => setting entries "stream_chunk" readNat defaults.streamChunk = some c.streamChunk
  | printMetrics => setting entries "print" readBool defaults.printMetrics = some c.printMetrics

theorem isSet_iff_delivers (hvalues : ∀ e ∈ entries, e.2.Sound) (f : Field) :
    f.IsSet entries c ↔ f.Delivers entries c := by
  have hsize : ∀ v : Value, v.Sound → ∀ n : Nat, readNat v = some n ↔ v = .integer n :=
    fun _ _ _ => readNat_eq_some_iff
  cases f with
  | seed => exact setting_iff_delivers .seed hvalues (fun _ hv => readSeed_eq_some_iff hv) Iff.rfl
  | osSeedBytes => exact setting_iff_delivers .osSeedBytes hvalues (hsize · · _) Iff.rfl
  | format =>
      exact setting_iff_delivers .format hvalues (fun _ _ => readFormat_eq_some_iff) Iff.rfl
  | count => exact setting_iff_delivers .count hvalues (hsize · · _) Iff.rfl
  | lineWidth => exact setting_iff_delivers .lineWidth hvalues (hsize · · _) Iff.rfl
  | streamChunk => exact setting_iff_delivers .streamChunk hvalues (hsize · · _) Iff.rfl
  | printMetrics =>
      exact setting_iff_delivers .printMetrics hvalues (fun _ _ => readBool_eq_some_iff) Iff.rfl

theorem ofTable?_eq_some_iff_isSet :
    ofTable? root = some c ↔ ∃ entries : Part → Entries,
      (∀ p : Part, sectionEntries p.keys (root.lookup p.name) = some (entries p)) ∧
        ∀ f : Field, f.IsSet (entries f.part) c := by
  simp only [ofTable?, Option.bind_eq_bind, Option.bind_eq_some_iff, Option.pure_def,
    Option.some.injEq]
  constructor
  · rintro ⟨generator, hgenerator, output, houtput, metrics, hmetrics, seed, hseed, osSeedBytes,
      hosSeedBytes, format, hformat, count, hcount, lineWidth, hlineWidth, streamChunk,
      hstreamChunk, printMetrics, hprintMetrics, rfl⟩
    refine ⟨fun | .generator => generator | .output => output | .metrics => metrics, ?_, ?_⟩
    · intro p
      cases p <;> assumption
    · intro f
      cases f <;> assumption
  · rintro ⟨entries, hsections, hset⟩
    exact ⟨_, hsections .generator, _, hsections .output, _, hsections .metrics, _, hset .seed, _,
      hset .osSeedBytes, _, hset .format, _, hset .count, _, hset .lineWidth, _,
      hset .streamChunk, _, hset .printMetrics, rfl⟩

/-- Reading finds the configuration that has what its sections say. -/
theorem ofTable?_eq_some_iff_delivers (hroot : root.Sound) :
    ofTable? root = some c ↔ ∃ entries : Part → Entries,
      (∀ p : Part, sectionEntries p.keys (root.lookup p.name) = some (entries p)) ∧
        ∀ f : Field, f.Delivers (entries f.part) c := by
  rw [ofTable?_eq_some_iff_isSet]
  refine exists_congr fun entries => and_congr_right fun hsections => forall_congr' fun f => ?_
  exact isSet_iff_delivers (sound_sectionEntries (fun v hv => hroot.lookup hv) (hsections f.part)) f

/-! ## Bindings of fields -/

/-- The sections of a configuration are absent or tables. -/
def HasTables (root : Entries) : Prop :=
  ∀ (p : Part) (v : Value), (p.name, v) ∈ root → ∃ origin entries, v = .table origin entries

/-- The field is bound to the value in the table of its section. -/
def Binds (root : Entries) (f : Field) (v : Value) : Prop :=
  ∃ origin entries, (f.part.name, .table origin entries) ∈ root ∧ (f.key, v) ∈ entries

/-- The field is what its value says if it is bound, and its default if not. -/
def Field.Follows (root : Entries) (c : Config) (f : Field) : Prop :=
  (∀ v, Binds root f v → f.Reads v c) ∧ ((∀ v, ¬Binds root f v) → f.Agrees c defaults)

/-- Each field of the configuration follows the bindings. -/
def Carries (root : Entries) (c : Config) : Prop :=
  ∀ f : Field, f.Follows root c

/-- The entries of a section; none if it is absent. -/
def inside (root : Entries) (p : Part) : Entries :=
  match root.lookup p.name with
  | some (.table _ entries) => entries
  | _ => []

theorem sectionEntries_inside (htables : HasTables root) (p : Part) :
    sectionEntries p.keys (root.lookup p.name) = some (inside root p) := by
  rw [inside]
  cases hlookup : root.lookup p.name with
  | none => rfl
  | some v =>
      obtain ⟨origin, entries, rfl⟩ := htables p v (Toml.Entries.mem_of_lookup hlookup)
      rfl

theorem lookup_inside_iff (hroot : root.Sound) {f : Field} {v : Value} :
    (inside root f.part).lookup f.key = some v ↔ Binds root f v := by
  constructor
  · intro h
    rw [inside] at h
    split at h
    · next origin entries hlookup =>
        exact ⟨origin, entries, Toml.Entries.mem_of_lookup hlookup, Toml.Entries.mem_of_lookup h⟩
    · exact absurd h nofun
  · rintro ⟨origin, entries, hsection, hfield⟩
    have hlookup := hroot.lookup_eq_some_iff.mpr hsection
    have hentries := Toml.Entries.sound_of_table (hroot.lookup hlookup)
    rw [inside, hlookup]
    exact hentries.lookup_eq_some_iff.mpr hfield

theorem Binds.unique (hroot : root.Sound) {f : Field} {v v' : Value} (h : Binds root f v)
    (h' : Binds root f v') : v = v' := by
  rw [← lookup_inside_iff hroot] at h h'
  exact Option.some.inj (h.symm.trans h')

theorem delivers_inside_iff (hroot : root.Sound) {f : Field} :
    f.Delivers (inside root f.part) c ↔ f.Follows root c := by
  simp only [Field.Delivers, Field.Follows, lookup_inside_iff hroot,
    Option.eq_none_iff_forall_ne_some, ne_eq]

/-- Reading finds the configuration that carries the bindings. -/
theorem ofTable?_eq_some_iff (hroot : root.Sound) (htables : HasTables root) :
    ofTable? root = some c ↔ Carries root c := by
  rw [ofTable?_eq_some_iff_delivers hroot]
  constructor
  · rintro ⟨entries, hsections, hdelivers⟩ f
    have hinside : entries f.part = inside root f.part :=
      Option.some.inj ((hsections f.part).symm.trans (sectionEntries_inside htables f.part))
    rw [← delivers_inside_iff hroot, ← hinside]
    exact hdelivers f
  · intro hcarries
    refine ⟨inside root, sectionEntries_inside htables, fun f => ?_⟩
    exact (delivers_inside_iff hroot).mpr (hcarries f)

/-! ## Success -/

namespace Field

variable {f : Field} {v : Value}

theorem Reads.accepts (h : f.Reads v c) : f.Accepts v := by
  cases f with
  | seed =>
      obtain ⟨n, hn, -⟩ := h
      exact ⟨n.toInt, hn⟩
  | format =>
      have hformat : NamesFormat v c.format := h
      cases hc : c.format with
      | hex => exact .inl (hc ▸ hformat)
      | raw => exact .inr (hc ▸ hformat)
  | _ => exact ⟨_, h⟩

theorem exists_reads (hv : v.Sound) (h : f.Accepts v) : ∃ c, f.Reads v c := by
  cases f with
  | seed =>
      obtain ⟨n, rfl⟩ := h
      obtain ⟨m, hm, -⟩ := (readSeed_eq_some_iff hv).mp rfl
      exact ⟨{ seed := some m }, m, hm, rfl⟩
  | osSeedBytes =>
      obtain ⟨n, hn⟩ := h
      exact ⟨{ osSeedBytes := n }, hn⟩
  | format =>
      obtain hhex | hraw := h
      · exact ⟨{ format := .hex }, hhex⟩
      · exact ⟨{ format := .raw }, hraw⟩
  | count =>
      obtain ⟨n, hn⟩ := h
      exact ⟨{ count := n }, hn⟩
  | lineWidth =>
      obtain ⟨n, hn⟩ := h
      exact ⟨{ lineWidth := n }, hn⟩
  | streamChunk =>
      obtain ⟨n, hn⟩ := h
      exact ⟨{ streamChunk := n }, hn⟩
  | printMetrics =>
      obtain ⟨b, hb⟩ := h
      exact ⟨{ printMetrics := b }, hb⟩

/-- A field with a value that it can have, or with none, has something to follow. -/
theorem exists_follows (hroot : root.Sound) (haccepts : ∀ v, Binds root f v → f.Accepts v) :
    ∃ c, f.Follows root c := by
  by_cases hbound : ∃ v, Binds root f v
  · obtain ⟨v, hv⟩ := hbound
    have hsound : v.Sound := by
      obtain ⟨origin, entries, hsection, hfield⟩ := hv
      exact (Toml.Entries.sound_of_table (hroot.values _ hsection)).values _ hfield
    obtain ⟨c, hc⟩ := exists_reads hsound (haccepts v hv)
    exact ⟨c, fun u hu => hu.unique hroot hv ▸ hc, fun hfree => absurd hv (hfree v)⟩
  · have hfree : ∀ v, ¬Binds root f v := not_exists.mp hbound
    exact ⟨defaults, fun v hv => absurd hv (hfree v), fun _ => by cases f <;> rfl⟩

theorem Follows.congr {c' : Config} (h : f.Follows root c) (hsame : f.Agrees c c') :
    f.Follows root c' :=
  ⟨fun v hv => (h.1 v hv).congr hsame, fun hfree => hsame.symm.trans (h.2 hfree)⟩

end Field

theorem exists_carries (hroot : root.Sound) (haccepts : ∀ f v, Binds root f v → f.Accepts v) :
    ∃ c, Carries root c := by
  have hfield : ∀ f : Field, ∃ c, f.Follows root c := fun f =>
    Field.exists_follows hroot (haccepts f)
  choose found hfound using hfield
  let c : Config := {
    seed := (found .seed).seed
    osSeedBytes := (found .osSeedBytes).osSeedBytes
    format := (found .format).format
    count := (found .count).count
    lineWidth := (found .lineWidth).lineWidth
    streamChunk := (found .streamChunk).streamChunk
    printMetrics := (found .printMetrics).printMetrics }
  have hsame : ∀ f : Field, f.Agrees (found f) c := by
    intro f
    cases f <;> exact Eq.refl _
  exact ⟨c, fun f => (hfound f).congr (hsame f)⟩

theorem ofTable?_eq_none_iff (hroot : root.Sound) (htables : HasTables root) :
    ofTable? root = none ↔ ∃ f v, Binds root f v ∧ ¬f.Accepts v := by
  constructor
  · intro hnone
    by_contra hall
    have haccepts : ∀ f v, Binds root f v → f.Accepts v := by
      intro f v hv
      by_contra hrefused
      exact hall ⟨f, v, hv, hrefused⟩
    obtain ⟨c, hc⟩ := exists_carries hroot haccepts
    rw [(ofTable?_eq_some_iff hroot htables).mpr hc] at hnone
    exact absurd hnone nofun
  · rintro ⟨f, v, hv, hrefused⟩
    cases hread : ofTable? root with
    | none => rfl
    | some c =>
        have hcarries := (ofTable?_eq_some_iff hroot htables).mp hread
        exact absurd ((hcarries f).1 v hv).accepts hrefused

theorem ofTable?_congr {root' : Entries} (hroot : root.Sound) (hroot' : root'.Sound)
    (htables : HasTables root) (htables' : HasTables root')
    (hsame : ∀ f v, Binds root f v ↔ Binds root' f v) : ofTable? root = ofTable? root' := by
  ext c
  rw [ofTable?_eq_some_iff hroot htables, ofTable?_eq_some_iff hroot' htables']
  simp only [Carries, Field.Follows, hsame]

theorem Field.Reads.agrees {f : Field} {v : Value} {c' : Config} (h : f.Reads v c)
    (h' : f.Reads v c') : f.Agrees c c' := by
  have hsize : ∀ {n m : Nat}, v = .integer n → v = .integer m → n = m := fun hn hm =>
    Int.ofNat.inj (Value.integer.inj (hn.symm.trans hm))
  cases f with
  | seed =>
      obtain ⟨n, rfl, hn⟩ := h
      obtain ⟨m, hm, hm'⟩ := h'
      rw [Field.Agrees, hn, hm', Int64.toInt_inj.mp (Value.integer.inj hm)]
  | format =>
      have hc : readFormat v = some c.format := readFormat_eq_some_iff.mpr h
      have hc' : readFormat v = some c'.format := readFormat_eq_some_iff.mpr h'
      exact Option.some.inj (hc.symm.trans hc')
  | printMetrics => exact Value.boolean.inj (h.symm.trans h')
  | _ => exact hsize h h'

/-- A field that is bound alike in two documents is the same in what they say. -/
theorem Field.Follows.agrees {f : Field} {root' : Entries} {c' : Config} (h : f.Follows root c)
    (h' : f.Follows root' c') (hsame : ∀ v, Binds root f v ↔ Binds root' f v) :
    f.Agrees c c' := by
  by_cases hbound : ∃ v, Binds root f v
  · obtain ⟨v, hv⟩ := hbound
    exact (h.1 v hv).agrees (h'.1 v ((hsame v).mp hv))
  · have hfree : ∀ v, ¬Binds root f v := not_exists.mp hbound
    have hfree' : ∀ v, ¬Binds root' f v := fun v hv => hfree v ((hsame v).mpr hv)
    exact (h.2 hfree).trans (h'.2 hfree').symm

/-- Where one field has another value, and one that it can have, the others stay. -/
theorem exists_ofTable?_of_others {root' : Entries} {g : Field} (hroot : root.Sound)
    (hroot' : root'.Sound) (htables : HasTables root) (htables' : HasTables root')
    (hread : ofTable? root = some c) (hothers : ∀ f ≠ g, ∀ v, Binds root f v ↔ Binds root' f v)
    (hg : ∀ v, Binds root' g v → g.Accepts v) :
    ∃ c', ofTable? root' = some c' ∧ ∀ f ≠ g, f.Agrees c c' := by
  have hcarries := (ofTable?_eq_some_iff hroot htables).mp hread
  have haccepts : ∀ f v, Binds root' f v → f.Accepts v := by
    intro f v hv
    by_cases hf : f = g
    · exact hf ▸ hg v (hf ▸ hv)
    · exact ((hcarries f).1 v ((hothers f hf v).mpr hv)).accepts
  obtain ⟨c', hc'⟩ := exists_carries hroot' haccepts
  refine ⟨c', (ofTable?_eq_some_iff hroot' htables').mpr hc', fun f hf => ?_⟩
  exact (hcarries f).agrees (hc' f) (hothers f hf)

/-! ## Sections as arrays -/

/-- The items of an array of values or of tables. -/
def items? : Value → Option (List Value)
  | .array items => some items
  | .tables elements => some (elements.map (.table .header))
  | _ => none

theorem sectionEntries_items {keys : List String} {items : List Value}
    (hv : items? v = some items) : sectionEntries keys (some v) = some (keys.zip items) := by
  cases v with
  | array _ => exact Option.some.inj hv ▸ rfl
  | tables _ => exact Option.some.inj hv ▸ rfl
  | _ => exact absurd hv nofun

theorem map_fst_zip_sublist {α β : Type} (as : List α) (bs : List β) :
    ((as.zip bs).map Prod.fst).Sublist as := by
  induction as generalizing bs with
  | nil => exact List.nil_sublist []
  | cons a as ih =>
      cases bs with
      | nil => exact List.nil_sublist _
      | cons b bs => exact (ih bs).cons_cons a

theorem nodup_keys (p : Part) : p.keys.Nodup := by
  cases p <;> decide

theorem mem_fields (f : Field) : f ∈ f.part.fields := by
  cases f <;> decide

/-- Reading a document gives what reading another gives if the fields are found with
the same values in its sections. -/
theorem ofTable?_of_lookups {root' : Entries} (hroot : root.Sound) (hroot' : root'.Sound)
    (h : ∀ (p : Part) (es : Entries), sectionEntries p.keys (root.lookup p.name) = some es →
      ∃ es', sectionEntries p.keys (root'.lookup p.name) = some es' ∧
        ∀ f ∈ p.fields, es'.lookup f.key = es.lookup f.key)
    (hc : ofTable? root = some c) : ofTable? root' = some c := by
  rw [ofTable?_eq_some_iff_delivers hroot] at hc
  rw [ofTable?_eq_some_iff_delivers hroot']
  obtain ⟨entries, hsections, hdelivers⟩ := hc
  choose others hothers hlookups using fun p => h p (entries p) (hsections p)
  refine ⟨others, hothers, fun f => ?_⟩
  rw [Field.Delivers, hlookups f.part f (mem_fields f)]
  exact hdelivers f

/-- A section may be an array of the values of its fields. -/
theorem ofTable?_eq_of_items {root' : Entries} {p : Part} {v : Value} {items : List Value}
    {origin : Toml.Origin} {entries : Entries} (hroot : root.Sound) (hroot' : root'.Sound)
    (hv : (p.name, v) ∈ root) (hitems : items? v = some items)
    (hentries : (p.name, .table origin entries) ∈ root')
    (hsame : ∀ f ∈ p.fields, ∀ u, (f.key, u) ∈ entries ↔ (f.key, u) ∈ p.keys.zip items)
    (hothers : ∀ q ≠ p, ∀ u, (q.name, u) ∈ root ↔ (q.name, u) ∈ root') :
    ofTable? root = ofTable? root' := by
  have hlist : sectionEntries p.keys (root.lookup p.name) = some (p.keys.zip items) := by
    rw [hroot.lookup_eq_some_iff.mpr hv, sectionEntries_items hitems]
  have htable : sectionEntries p.keys (root'.lookup p.name) = some entries := by
    rw [hroot'.lookup_eq_some_iff.mpr hentries]
    rfl
  have hother : ∀ q ≠ p, root.lookup q.name = root'.lookup q.name := fun q hq =>
    Toml.Entries.lookup_congr hroot.keys hroot'.keys (hothers q hq)
  have hzip : ((p.keys.zip items).map Prod.fst).Nodup :=
    (nodup_keys p).sublist (map_fst_zip_sublist p.keys items)
  have hkeys := (Toml.Entries.sound_of_table (hroot'.values _ hentries)).keys
  have hfound : ∀ f ∈ p.fields, entries.lookup f.key = (p.keys.zip items).lookup f.key :=
    fun f hf => Toml.Entries.lookup_congr hkeys hzip (hsame f hf)
  ext c
  constructor
  · refine ofTable?_of_lookups hroot hroot' fun q es hes => ?_
    by_cases hq : q = p
    · subst hq
      exact ⟨entries, htable, Option.some.inj (hlist.symm.trans hes) ▸ hfound⟩
    · exact ⟨es, hother q hq ▸ hes, fun _ _ => rfl⟩
  · refine ofTable?_of_lookups hroot' hroot fun q es hes => ?_
    by_cases hq : q = p
    · subst hq
      have heq := Option.some.inj (htable.symm.trans hes)
      exact ⟨_, hlist, fun f hf => heq ▸ (hfound f hf).symm⟩
    · exact ⟨es, hother q hq ▸ hes, fun _ _ => rfl⟩

/-! ## Texts -/

variable {text text' : String} {root' : Entries}

theorem ofToml_of_parse (h : Toml.parse? text.toList = some root) :
    ofToml text = match ofTable? root with
      | some c => c.validate
      | none => .error .unparsable := by
  unfold ofToml
  rw [h]
  rfl

theorem validate_ne_unparsable (c : Config) : c.validate ≠ .error .unparsable := by
  unfold validate
  split
  · exact nofun
  · split
    · exact nofun
    · split <;> exact nofun

theorem ofToml_eq_unparsable_iff (h : Toml.parse? text.toList = some root) :
    ofToml text = .error .unparsable ↔ ofTable? root = none := by
  rw [ofToml_of_parse h]
  cases ofTable? root with
  | none => simp only
  | some c => simp only [validate_ne_unparsable, reduceCtorEq]

/-- Where the sections are absent or tables, reading fails exactly if a field is bound
to a value that it cannot have; otherwise each field is what its own value says, or
its default.  So documents that bind the fields alike are read alike, whatever else
they hold and in whatever order, and another value of one field changes only that
field.  A section may also be an array of the values of its fields. -/
theorem reading_is_fieldwise :
    (∀ (text : String) (root : Entries), Toml.parse? text.toList = some root → HasTables root →
      (ofToml text = .error .unparsable ↔ ∃ f v, Binds root f v ∧ ¬f.Accepts v) ∧
        ((∀ f v, Binds root f v → f.Accepts v) →
          ∃ c, ofTable? root = some c ∧ ofToml text = c.validate ∧ Carries root c)) ∧
      (∀ (text text' : String) (root root' : Entries),
        Toml.parse? text.toList = some root → Toml.parse? text'.toList = some root' →
        HasTables root → HasTables root' →
          ((∀ f v, Binds root f v ↔ Binds root' f v) → ofToml text = ofToml text') ∧
            ∀ (g : Field) (c : Config), ofTable? root = some c →
              (∀ f ≠ g, ∀ v, Binds root f v ↔ Binds root' f v) →
              (∀ v, Binds root' g v → g.Accepts v) →
                ∃ c', ofTable? root' = some c' ∧ ∀ f ≠ g, f.Agrees c c') ∧
      ∀ (text text' : String) (root root' : Entries),
        Toml.parse? text.toList = some root → Toml.parse? text'.toList = some root' →
        ∀ (p : Part) (v : Value) (items : List Value) (origin : Toml.Origin) (entries : Entries),
          (p.name, v) ∈ root → items? v = some items → (p.name, .table origin entries) ∈ root' →
          (∀ f ∈ p.fields, ∀ u, (f.key, u) ∈ entries ↔ (f.key, u) ∈ p.keys.zip items) →
          (∀ q ≠ p, ∀ u, (q.name, u) ∈ root ↔ (q.name, u) ∈ root') →
            ofToml text = ofToml text' := by
  refine ⟨?_, ?_, ?_⟩
  · intro text root hparse htables
    have hroot := Toml.sound_parse? hparse
    constructor
    · rw [ofToml_eq_unparsable_iff hparse, ofTable?_eq_none_iff hroot htables]
    · intro haccepts
      obtain ⟨c, hc⟩ := exists_carries hroot haccepts
      have hread := (ofTable?_eq_some_iff hroot htables).mpr hc
      refine ⟨c, hread, ?_, hc⟩
      rw [ofToml_of_parse hparse, hread]
  · intro text text' root root' hparse hparse' htables htables'
    have hroot := Toml.sound_parse? hparse
    have hroot' := Toml.sound_parse? hparse'
    constructor
    · intro hsame
      rw [ofToml_of_parse hparse, ofToml_of_parse hparse',
        ofTable?_congr hroot hroot' htables htables' hsame]
    · intro g c hread hothers hg
      exact exists_ofTable?_of_others hroot hroot' htables htables' hread hothers hg
  · intro text text' root root' hparse hparse' p v items origin entries hv hitems hentries hsame
      hothers
    rw [ofToml_of_parse hparse, ofToml_of_parse hparse',
      ofTable?_eq_of_items (Toml.sound_parse? hparse) (Toml.sound_parse? hparse') hv hitems hentries
        hsame hothers]

/-- An output section with its keys in another order beside unknown ones, with a
negative count, with another count, and as an array. -/
theorem reading_is_fieldwise_of_output :
    let text := "[output]\ncount = 5\nformat = \"raw\"\n"
    ofToml "[extra]\n[output]\nformat = \"raw\"\nsize = 7\ncount = 5\n" = ofToml text ∧
      ofToml "[output]\ncount = -5\n" = .error .unparsable ∧
      (∃ root c, Toml.parse? "[output]\ncount = 6\nformat = \"raw\"\n".toList = some root ∧
        ofTable? root = some c ∧ ∀ f ≠ Field.count, f.Agrees { count := 5, format := .raw } c) ∧
      ofToml "output = [\"raw\", 5]\n" = ofToml text := by
  intro text
  let output (entries : Entries) : String × Value := ("output", .table .header entries)
  let root : Entries := [output [("count", .integer 5), ("format", .string "raw")]]
  let mixed : Entries := [("extra", .table .header []),
    output [("format", .string "raw"), ("size", .integer 7), ("count", .integer 5)]]
  let negative : Entries := [output [("count", .integer (-5))]]
  let larger : Entries := [output [("count", .integer 6), ("format", .string "raw")]]
  let array : Entries := [("output", .array [.string "raw", .integer 5])]
  -- a literal is the text of its characters, which the parser then runs through
  have hroot : Toml.parse? text.toList = some root := by
    rw [String.toList_ofList]
    rfl
  have hmixed : Toml.parse?
      "[extra]\n[output]\nformat = \"raw\"\nsize = 7\ncount = 5\n".toList = some mixed := by
    rw [String.toList_ofList]
    rfl
  have hnegative : Toml.parse? "[output]\ncount = -5\n".toList = some negative := by
    rw [String.toList_ofList]
    rfl
  have hlarger : Toml.parse? "[output]\ncount = 6\nformat = \"raw\"\n".toList = some larger := by
    rw [String.toList_ofList]
    rfl
  have harray : Toml.parse? "output = [\"raw\", 5]\n".toList = some array := by
    rw [String.toList_ofList]
    rfl
  have htables : ∀ entries, HasTables [output entries] := fun entries p v hv =>
    ⟨_, _, (Prod.mk.inj (List.mem_singleton.mp hv)).2⟩
  have htables' : HasTables mixed := by
    intro p v hv
    obtain hextra | houtput := List.mem_cons.mp hv
    · exact ⟨_, _, (Prod.mk.inj hextra).2⟩
    · exact htables _ p v houtput
  -- bindings are compared by their lookups
  have hbinds : ∀ {es : Entries} {f : Field}, es.Sound →
      (inside root f.part).lookup f.key = (inside es f.part).lookup f.key →
        ∀ v, Binds root f v ↔ Binds es f v := by
    intro es f hes hlookup v
    rw [← lookup_inside_iff (Toml.sound_parse? hroot), ← lookup_inside_iff hes, hlookup]
  refine ⟨Eq.symm ?_, ?_, ⟨larger, ?_⟩, ?_⟩
  · refine (reading_is_fieldwise.2.1 _ _ _ _ hroot hmixed (htables _) htables').1 fun f v => ?_
    refine hbinds (Toml.sound_parse? hmixed) ?_ v
    cases f <;> rfl
  · rw [(reading_is_fieldwise.1 _ negative hnegative (htables _)).1]
    refine ⟨.count, .integer (-5), ⟨_, _, List.mem_cons_self, List.mem_cons_self⟩, ?_⟩
    rintro ⟨n, hn⟩
    exact absurd (Value.integer.inj hn) (by omega)
  · have hread : ofTable? root = some { count := 5, format := .raw } := rfl
    have hothers : ∀ f ≠ Field.count, ∀ v, Binds root f v ↔ Binds larger f v := by
      intro f hf
      apply hbinds (Toml.sound_parse? hlarger)
      cases f <;> first | rfl | exact absurd rfl hf
    have hcount : ∀ v, Binds larger .count v → Field.count.Accepts v := by
      intro v hv
      have hlookup := (lookup_inside_iff (Toml.sound_parse? hlarger)).mpr hv
      exact ⟨6, (Option.some.inj hlookup).symm⟩
    obtain ⟨c, hc, hsame⟩ := (reading_is_fieldwise.2.1 _ _ _ _ hroot hlarger (htables _)
      (htables _)).2 .count _ hread hothers hcount
    exact ⟨c, hlarger, hc, hsame⟩
  · refine reading_is_fieldwise.2.2 _ _ array root harray hroot .output _ _ .header _
      List.mem_cons_self rfl List.mem_cons_self ?_ ?_
    · exact fun f _ u => (List.Perm.swap _ _ []).mem_iff
    · intro q hq u
      have hname : q.name ≠ "output" := by
        cases q <;> first | decide | exact absurd rfl hq
      exact iff_of_false (fun h => hname (Prod.mk.inj (List.mem_singleton.mp h)).1)
        fun h => hname (Prod.mk.inj (List.mem_singleton.mp h)).1

end Config

end Fortuna
