import Fortuna.Proofs.Generator.Forgetting
import Fortuna.Proofs.Metrics.Exposition

/-!
# Registries mirror generators

A registry adds to a counter the difference to the total that it is shown, if that
total is ahead.  On words this is the maximum of both (`toNat_advance`), so a
counter stands at the largest total ever shown, whatever the order of the
snapshots.  The totals of a generator only grow, through failures and seeds alike,
so a registry that watches one generator shows its totals after every update, and
its text shows them exactly as far as floats are exact.

No total is assumed to leave the range of a word.
-/

namespace Fortuna

/-! ## Quantities -/

/-- What is counted of a generator. -/
inductive Quantity where
  | reseeds
  | rekeys
  | blocks
  | bytes

def Totals.count (t : Totals) : Quantity → Nat
  | .reseeds => t.reseeds
  | .rekeys => t.rekeys
  | .blocks => t.blocks
  | .bytes => t.bytes

/-- No total leaves the range of a word. -/
def Totals.FitWords (t : Totals) : Prop :=
  ∀ q, t.count q < 2 ^ 64

def Registry.counter (r : Registry) : Quantity → UInt64
  | .reseeds => r.reseeds
  | .rekeys => r.rekeys
  | .blocks => r.blocks
  | .bytes => r.bytes

/-- The name under which a quantity is shown. -/
def Quantity.metric : Quantity → String
  | .reseeds => "fortuna_generator_reseeds_total"
  | .rekeys => "fortuna_generator_rekeys_total"
  | .blocks => "fortuna_generator_blocks_total"
  | .bytes => "fortuna_generator_bytes_total"

/-! ## Counters -/

theorem toNat_advance (counter target : UInt64) :
    (advance counter target).toNat = max counter.toNat target.toNat := by
  unfold advance
  by_cases hahead : counter < target
  · have hlt := UInt64.lt_iff_toNat_lt.mp hahead
    have hbound := target.toNat_lt
    rw [if_pos hahead, UInt64.toNat_add, UInt64.toNat_sub_of_le _ _ (UInt64.le_of_lt hahead),
      Nat.add_sub_of_le hlt.le, Nat.mod_eq_of_lt hbound, Nat.max_eq_right hlt.le]
  · have hle := Nat.le_of_not_lt (UInt64.lt_iff_toNat_lt.not.mp hahead)
    rw [if_neg hahead, Nat.max_eq_left hle]

namespace Registry

theorem counter_update (r : Registry) (s : Snapshot) (q : Quantity) :
    (r.update s).counter q = advance (r.counter q) (UInt64.ofNat (s.totals.count q)) := by
  cases q <;> rfl

theorem toNat_counter_update (r : Registry) {s : Snapshot} (hs : s.totals.FitWords)
    (q : Quantity) :
    ((r.update s).counter q).toNat = max (r.counter q).toNat (s.totals.count q) := by
  rw [counter_update, toNat_advance, UInt64.toNat_ofNat_of_lt' (hs q)]

/-- A counter stands at the largest total shown. -/
theorem toNat_counter_foldl (r : Registry) {snapshots : List Snapshot}
    (hfit : ∀ s ∈ snapshots, s.totals.FitWords) (q : Quantity) :
    ((snapshots.foldl update r).counter q).toNat =
      (snapshots.map fun s => s.totals.count q).foldl max (r.counter q).toNat := by
  induction snapshots generalizing r with
  | nil => rfl
  | cons s snapshots ih =>
      rw [List.forall_mem_cons] at hfit
      rw [List.foldl_cons, ih _ hfit.2, toNat_counter_update r hfit.1, List.map_cons,
        List.foldl_cons]

end Registry

theorem foldl_max_le_iff (xs : List Nat) (a b : Nat) :
    xs.foldl max a ≤ b ↔ a ≤ b ∧ ∀ x ∈ xs, x ≤ b := by
  induction xs generalizing a with
  | nil => simp
  | cons x xs ih =>
      rw [List.foldl_cons, ih, Nat.max_le, List.forall_mem_cons, and_assoc]

namespace Registry

/-- Neither the order of the snapshots matters nor how often one is shown. -/
theorem counter_foldl_congr {snapshots others : List Snapshot}
    (hfit : ∀ s ∈ snapshots, s.totals.FitWords) (hsame : ∀ s, s ∈ others ↔ s ∈ snapshots)
    (q : Quantity) :
    (others.foldl update {}).counter q = (snapshots.foldl update {}).counter q := by
  have hfit' : ∀ s ∈ others, s.totals.FitWords := fun s hs => hfit s ((hsame s).mp hs)
  rw [← UInt64.toNat_inj, toNat_counter_foldl _ hfit', toNat_counter_foldl _ hfit]
  apply eq_of_forall_ge_iff
  intro bound
  rw [foldl_max_le_iff, foldl_max_le_iff]
  simp only [List.forall_mem_map, hsame]

end Registry

/-! ## Text -/

theorem Registry.onLines_families (r : Registry) : ∀ f ∈ r.families, f.OnLines := by
  -- names and helps are the same in every registry
  have hfixed : r.families.map (fun f => (f.name, f.help)) =
      ({} : Registry).families.map fun f => (f.name, f.help) := rfl
  have hall : ∀ p ∈ ({} : Registry).families.map (fun f => (f.name, f.help)),
      ' ' ∉ p.1.toList ∧ '\n' ∉ p.1.toList ∧ '\n' ∉ p.2.toList := by decide
  intro f hf
  obtain ⟨hblank, hname, hhelp⟩ := hall _ (hfixed ▸ List.mem_map_of_mem hf)
  exact ⟨hblank, hname, hhelp⟩

/-- The text of a registry shows each quantity on one line. -/
theorem Registry.samples_text (r : Registry) (q : Quantity) :
    samples r.text q.metric =
      [q.metric ++ " " ++ Binary64.integerText (r.counter q).toNat] := by
  have hcomment : q.metric ≠ "#" := by cases q <;> decide
  have hempty : q.metric ≠ "" := by cases q <;> decide
  rw [text, samples_join r.onLines_families hcomment hempty]
  cases q <;> rfl

/-! ## Watching a generator -/

/-- What happens to a generator and the registry that watches it. -/
inductive Incident where
  | request (op : Operation)
  /-- The registry is shown the generator. -/
  | update

namespace Generator

variable {F : CipherFactory}

/-- A generator and a registry after some incidents. -/
def watch (g : Generator F) (r : Registry) : List Incident → Generator F × Registry
  | [] => (g, r)
  | .request op :: incidents => (op.perform g).state.watch r incidents
  | .update :: incidents => g.watch (r.update (.ofGenerator g)) incidents

theorem watch_append (g : Generator F) (r : Registry) (incidents later : List Incident) :
    g.watch r (incidents ++ later) =
      (g.watch r incidents).1.watch (g.watch r incidents).2 later := by
  induction incidents generalizing g r with
  | nil => rfl
  | cons incident incidents ih =>
      cases incident with
      | request op => exact ih _ _
      | update => exact ih _ _

theorem count_le_perform (op : Operation) (g : Generator F) (q : Quantity) :
    g.totals.count q ≤ (op.perform g).state.totals.count q := by
  obtain ⟨growth, hgrowth⟩ := (runs_perform op g).exists_growth
  rw [hgrowth]
  cases q <;> exact Nat.le_add_right _ _

theorem count_le_watch (g : Generator F) (r : Registry) (incidents : List Incident)
    (q : Quantity) :
    g.totals.count q ≤ (g.watch r incidents).1.totals.count q := by
  induction incidents generalizing g r with
  | nil => exact Nat.le_refl _
  | cons incident incidents ih =>
      cases incident with
      | request op => exact (count_le_perform op g q).trans (ih _ _)
      | update => exact ih _ _

/-- A registry never runs ahead of the generator that it watches. -/
theorem counter_watch_le {g : Generator F} {r : Registry} {incidents : List Incident}
    (hfit : (g.watch r incidents).1.totals.FitWords) {q : Quantity}
    (hr : (r.counter q).toNat ≤ g.totals.count q) :
    ((g.watch r incidents).2.counter q).toNat ≤ (g.watch r incidents).1.totals.count q := by
  induction incidents generalizing g r with
  | nil => exact hr
  | cons incident incidents ih =>
      cases incident with
      | request op => exact ih hfit (hr.trans (count_le_perform op g q))
      | update =>
          have hnow : (Snapshot.ofGenerator g).totals.FitWords := fun q =>
            lt_of_le_of_lt (count_le_watch g _ incidents q) (hfit q)
          apply ih hfit
          rw [Registry.toNat_counter_update r hnow]
          exact Nat.max_le.mpr ⟨hr, Nat.le_refl _⟩

/-- An update brings a registry level with the generator. -/
theorem counter_watch_update {g : Generator F} {incidents : List Incident}
    (hfit : (g.watch {} (incidents ++ [.update])).1.totals.FitWords) (q : Quantity) :
    ((g.watch {} (incidents ++ [.update])).2.counter q).toNat =
      (g.watch {} (incidents ++ [.update])).1.totals.count q := by
  rw [watch_append] at hfit ⊢
  have hnow : (g.watch {} incidents).1.totals.FitWords := hfit
  have hstart : ((({} : Registry).counter q)).toNat ≤ g.totals.count q := by
    cases q <;> exact Nat.zero_le _
  have hbehind := counter_watch_le hnow hstart
  exact (Registry.toNat_counter_update _ hnow q).trans (Nat.max_eq_right hbehind)

/-- Whatever snapshots a registry is shown, each of its counters stands at the
largest total shown, in whatever order and however often, and its gauges show the
seededness and, as a signed word, the block size of the last snapshot.  So in
every run of requests that are interleaved with updates, successful or not, the
counters agree with the totals after each update, and the text shows each total
exactly if it is at most `2 ^ 53`. -/
theorem registry_mirrors_generator :
    (∀ snapshots : List Snapshot, (∀ s ∈ snapshots, s.totals.FitWords) →
      let r := snapshots.foldl Registry.update {}
      (∀ q, (r.counter q).toNat = (snapshots.map fun s => s.totals.count q).foldl max 0) ∧
        (∀ others : List Snapshot, (∀ s, s ∈ others ↔ s ∈ snapshots) →
          ∀ q, (others.foldl Registry.update {}).counter q = r.counter q) ∧
        ∀ last, snapshots.getLast? = some last →
          r.seeded.toInt = (if last.isSeeded then 1 else 0) ∧
            r.blockSize.toInt = (last.blockSize : Int).bmod (2 ^ 64)) ∧
      ∀ (F : CipherFactory) (g : Generator F) (incidents : List Incident),
        let (h, r) := g.watch {} (incidents ++ [.update])
        h.totals.FitWords → ∀ q,
          (r.counter q).toNat = h.totals.count q ∧
            (h.totals.count q ≤ 2 ^ 53 →
              samples r.text q.metric =
                [q.metric ++ " " ++ Decimal.ofNat (h.totals.count q)]) := by
  constructor
  · intro snapshots hfit r
    refine ⟨?_, ?_, ?_⟩
    · intro q
      have hstart : (({} : Registry).counter q).toNat = 0 := by
        cases q <;> rfl
      rw [Registry.toNat_counter_foldl _ hfit, hstart]
    · intro others hsame q
      exact Registry.counter_foldl_congr hfit hsame q
    · intro last hlast
      obtain ⟨before, rfl⟩ := List.getLast?_eq_some_iff.mp hlast
      have hr : r = (before.foldl Registry.update {}).update last := List.foldl_concat _ _ _ _
      rw [hr]
      constructor
      · change (if last.isSeeded then (1 : Int64) else 0).toInt = _
        split <;> rfl
      · exact Int64.toInt_ofNat'
  · intro F g incidents
    dsimp only
    intro hfit q
    have hcounter := counter_watch_update hfit q
    refine ⟨hcounter, ?_⟩
    intro hexact
    rw [Registry.samples_text, hcounter, Binary64.integerText_natCast,
      Binary64.shortestText_of_le hexact]

/-- A counter that is shown ten and then three, and a registry that is updated
before and after a deterministic seed. -/
theorem registry_mirrors_generator_after_restart :
    let snapshots : List Snapshot :=
      [{ totals := { rekeys := 10 } },
        { isSeeded := true, blockSize := 2 ^ 63, totals := { rekeys := 3 } }]
    let r := snapshots.foldl Registry.update {}
    let incidents := [.request (.reseed []), .request (.read 20), .update, .request (.restart 7)]
    let w := maskGenerator.watch {} (incidents ++ [.update])
    (r.rekeys.toNat = 10 ∧ r.blockSize.toInt = -2 ^ 63) ∧
      w.2.reseeds.toNat = 2 ∧ samples w.2.text "fortuna_generator_blocks_total" =
        ["fortuna_generator_blocks_total 4"] := by
  intro snapshots r incidents w
  have hfits : ∀ s ∈ snapshots, s.totals.FitWords := by
    simp only [snapshots, List.forall_mem_cons, List.not_mem_nil, false_implies, implies_true,
      and_true]
    refine ⟨?_, ?_⟩ <;> intro q <;> cases q <;> decide
  obtain ⟨hcounters, -, hgauges⟩ := registry_mirrors_generator.1 snapshots hfits
  have htotals : w.1.totals = { reseeds := 2, rekeys := 1, blocks := 4, bytes := 20 } := by
    decide +kernel
  have hfit : w.1.totals.FitWords := by
    rw [htotals]
    intro q
    cases q <;> decide
  have hmirror : ∀ q, (w.2.counter q).toNat = w.1.totals.count q ∧
      (w.1.totals.count q ≤ 2 ^ 53 →
        samples w.2.text q.metric = [q.metric ++ " " ++ Decimal.ofNat (w.1.totals.count q)]) :=
    registry_mirrors_generator.2 _ maskGenerator incidents hfit
  rw [htotals] at hmirror
  have hreseeds := (hmirror .reseeds).1
  have hblocks := (hmirror .blocks).2 (by decide)
  have hsigned : ((2 ^ 63 : Nat) : Int).bmod (2 ^ 64) = -2 ^ 63 := by decide
  exact ⟨⟨hcounters .rekeys, (hgauges _ rfl).2.trans hsigned⟩, hreseeds, hblocks⟩

end Generator

end Fortuna
