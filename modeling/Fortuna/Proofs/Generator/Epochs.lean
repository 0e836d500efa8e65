import Fortuna.Proofs.Generator.Run

/-!
# Key epochs

An epoch is the stretch of a history from the installation of a key to the next
installation.  Within an epoch the counter only steps, so that the counters
encrypted under one installation are consecutive, whatever fails on the way.
What an epoch can encrypt is given by the grammar `Course`: chunks whose new key
was refused, each with the blocks of that key, and at the end nothing, or output
blocks that took the counter to zero, or a chunk whose new key is installed.

A chunk of `k` blocks that is alone in an epoch uses `k + r` counters with the
`r` blocks of its key.  As long as they fit on the circle of the counter, output
and key are made of different blocks; where they do not, part of the output is
the key.
-/

namespace Fortuna

/-! ## Histories cut into epochs -/

namespace Action

/-- Whether a key is installed. -/
def isInstallation : Action → Bool
  | .installed _ => true
  | _ => false

/-- What is done before the next installation. -/
def current (actions : List Action) : List Action :=
  actions.takeWhile fun action => !action.isInstallation

/-- The key of the next installation, if it comes from a rekey. -/
def nextRekey (actions : List Action) : Option Bytes :=
  match actions.dropWhile fun action => !action.isInstallation with
  | .installed key :: .logged (.rekeyed _) :: _ => some key
  | _ => none

/-- The encryptions in a transcript, in order. -/
def encryptions (actions : List Action) : List (Purpose × Counter) :=
  actions.filterMap fun
    | .encrypted purpose counter => some (purpose, counter)
    | _ => none

end Action

/-- The life of an installed key. -/
structure Epoch where
  key : Bytes
  /-- What is done while the key is installed. -/
  actions : List Action
  /-- The key that a rekey puts in its place, if the epoch ends so. -/
  rekey : Option Bytes

/-- The epochs of a history. -/
def epochs : List Action → List Epoch
  | [] => []
  | .installed key :: actions =>
    ⟨key, Action.current actions, Action.nextRekey actions⟩ :: epochs actions
  | _ :: actions => epochs actions

/-- The lengths of the runs of output blocks. -/
def outputRuns : List Purpose → List Nat
  | [] => []
  | .key :: purposes => outputRuns purposes
  | .output :: purposes =>
    match purposes.head?, outputRuns purposes with
    | some .output, run :: runs => (run + 1) :: runs
    | _, runs => 1 :: runs

namespace Epoch

/-- The blocks encrypted in an epoch. -/
def encryptions (epoch : Epoch) : List (Purpose × Counter) :=
  Action.encryptions epoch.actions

/-- The counters encrypted in an epoch. -/
def counters (epoch : Epoch) : List Counter :=
  epoch.encryptions.map Prod.snd

/-- The counters encrypted for a purpose. -/
def countersFor (epoch : Epoch) (purpose : Purpose) : List Counter :=
  (epoch.encryptions.filter (·.1 = purpose)).map Prod.snd

/-- The sizes of the chunks of output in an epoch. -/
def chunks (epoch : Epoch) : List Nat :=
  outputRuns (epoch.encryptions.map Prod.fst)

/-- No block of key material is a block of output. -/
def Separated (epoch : Epoch) (cipher : Cipher) : Prop :=
  ∀ c ∈ epoch.countersFor .output, ∀ d ∈ epoch.countersFor .key,
    cipher.encrypt c.bytes ≠ cipher.encrypt d.bytes

end Epoch

/-- Different blocks are encrypted differently. -/
def Cipher.InjectiveOnBlocks (cipher : Cipher) : Prop :=
  ∀ x y : Bytes, x.length = cipher.blockSize → y.length = cipher.blockSize →
    cipher.encrypt x = cipher.encrypt y → x = y

namespace Action

/-! ### What leaves the key in place -/

variable {as : List Action}

theorem current_append (has : ∀ a ∈ as, a.isInstallation = false) (bs : List Action) :
    current (as ++ bs) = as ++ current bs :=
  List.takeWhile_append_of_pos fun a ha => by rw [has a ha, Bool.not_false]

theorem nextRekey_append (has : ∀ a ∈ as, a.isInstallation = false) (bs : List Action) :
    nextRekey (as ++ bs) = nextRekey bs := by
  rw [nextRekey, List.dropWhile_append_of_pos fun a ha => by rw [has a ha, Bool.not_false],
    nextRekey]

theorem epochs_append (has : ∀ a ∈ as, a.isInstallation = false) (bs : List Action) :
    epochs (as ++ bs) = epochs bs := by
  induction as with
  | nil => rfl
  | cons a as ih =>
      rw [List.forall_mem_cons] at has
      have htail := ih has.2
      cases a with
      | installed key => cases has.1
      | rewound => exact htail
      | encrypted purpose counter => exact htail
      | logged event => exact htail

theorem encryptions_append (as bs : List Action) :
    encryptions (as ++ bs) = encryptions as ++ encryptions bs :=
  List.filterMap_append

end Action

/-- The epochs of a history that begins with an installation make up all of it. -/
theorem flatMap_epochs (key : Bytes) (actions : List Action) :
    (epochs (.installed key :: actions)).flatMap
        (fun epoch => .installed epoch.key :: epoch.actions) =
      .installed key :: actions := by
  have hcut : ∀ as : List Action,
      Action.current as ++
          (epochs as).flatMap (fun epoch => .installed epoch.key :: epoch.actions) =
        as := by
    intro as
    induction as with
    | nil => rfl
    | cons a as ih =>
        cases a with
        | installed key => exact congrArg (List.cons (.installed key)) ih
        | rewound => exact congrArg _ ih
        | encrypted purpose counter => exact congrArg _ ih
        | logged event => exact congrArg _ ih
  rw [epochs, List.flatMap_cons, List.cons_append, hcut]

/-! ## The grammar of an epoch -/

/-- The encryptions of `k` consecutive counters. -/
def draws (purpose : Purpose) (c : Counter) (k : Nat) : List (Purpose × Counter) :=
  (c.upcoming k).map (purpose, ·)

/-- The encryptions for a chunk of `k` blocks and for the `r` blocks of its key. -/
def chunkDraws (c : Counter) (k r : Nat) : List (Purpose × Counter) :=
  draws .output c k ++ draws .key (c.advance k) r

@[simp] theorem length_draws (purpose : Purpose) (c : Counter) (k : Nat) :
    (draws purpose c k).length = k := by
  simp [draws]

@[simp] theorem map_snd_draws (purpose : Purpose) (c : Counter) (k : Nat) :
    (draws purpose c k).map Prod.snd = c.upcoming k := by
  simp [draws, Function.comp_def]

@[simp] theorem map_fst_draws (purpose : Purpose) (c : Counter) (k : Nat) :
    (draws purpose c k).map Prod.fst = List.replicate k purpose := by
  rw [draws, List.map_map, List.eq_replicate_iff]
  simp

@[simp] theorem length_chunkDraws (c : Counter) (k r : Nat) :
    (chunkDraws c k r).length = k + r := by
  simp [chunkDraws]

theorem map_snd_chunkDraws (c : Counter) (k r : Nat) :
    (chunkDraws c k r).map Prod.snd = c.upcoming (k + r) := by
  rw [chunkDraws, List.map_append, map_snd_draws, map_snd_draws, Counter.upcoming_add]

theorem filter_draws (purpose purpose' : Purpose) (c : Counter) (k : Nat) :
    (draws purpose c k).filter (·.1 = purpose') =
      if purpose = purpose' then draws purpose c k else [] := by
  split
  · next heq =>
      rw [draws, List.filter_eq_self, List.forall_mem_map]
      exact fun _ _ => decide_eq_true heq
  · next hne =>
      rw [draws, List.filter_eq_nil_iff, List.forall_mem_map]
      exact fun _ _ => by simpa using hne

theorem outputRuns_key (r : Nat) (purposes : List Purpose) :
    outputRuns (List.replicate r .key ++ purposes) = outputRuns purposes := by
  induction r with
  | zero => rfl
  | succ r ih => rw [List.replicate_succ, List.cons_append, outputRuns, ih]

theorem outputRuns_output {k : Nat} (hpos : 0 < k) {purposes : List Purpose}
    (hhead : purposes.head? ≠ some .output) :
    outputRuns (List.replicate k .output ++ purposes) = k :: outputRuns purposes := by
  induction k with
  | zero => exact absurd hpos (Nat.lt_irrefl 0)
  | succ k ih =>
      rw [List.replicate_succ, List.cons_append, outputRuns]
      rcases Nat.eq_zero_or_pos k with rfl | hk
      · cases hpurposes : purposes.head? with
        | none => simp [hpurposes]
        | some purpose =>
            cases purpose with
            | output => exact absurd hpurposes hhead
            | key => simp [hpurposes]
      · have hfirst : (List.replicate k Purpose.output ++ purposes).head? = some .output := by
          rw [List.head?_append, List.head?_replicate, if_neg (Nat.pos_iff_ne_zero.mp hk)]
          rfl
        rw [hfirst, ih hk]

theorem outputRuns_chunkDraws {k r : Nat} (hpos : 0 < k) (hr : 0 < r) (c : Counter)
    (purposes : List Purpose) :
    outputRuns ((chunkDraws c k r).map Prod.fst ++ purposes) = k :: outputRuns purposes := by
  have hhead : (List.replicate r Purpose.key ++ purposes).head? ≠ some .output := by
    rw [List.head?_append, List.head?_replicate, if_neg (Nat.pos_iff_ne_zero.mp hr)]
    simp
  rw [chunkDraws, List.map_append, map_fst_draws, map_fst_draws, List.append_assoc,
    outputRuns_output hpos hhead, outputRuns_key]

/-- What an epoch of `cipher` encrypts from counter `c` on, and the key with
which a rekey ends it; a key is made of `r` blocks. -/
inductive Course (cipher : Cipher) (r : Nat) :
    Counter → List (Purpose × Counter) → Option Bytes → Prop
  | idle (c : Counter) : Course cipher r c [] none
  | stalled (c : Counter) (k : Nat) (hstart : c.isZero = false) :
      Course cipher r c (draws .output c k) none
  | refused (c : Counter) (k : Nat) (hstart : c.isZero = false) (hpos : 0 < k)
      (es : List (Purpose × Counter)) (rekey : Option Bytes)
      (hrest : Course cipher r (c.advance (k + r)) es rekey) :
      Course cipher r c (chunkDraws c k r ++ es) rekey
  | rekeyed (c : Counter) (k : Nat) (hstart : c.isZero = false) (hpos : 0 < k)
      (hmax : k ≤ maxBlocks) :
      Course cipher r c (chunkDraws c k r)
        (some ((((c.advance k).upcoming r).flatMap fun d => cipher.encrypt d.bytes).take keySize))

namespace Course

variable {cipher : Cipher} {r : Nat} {c : Counter} {es : List (Purpose × Counter)}
  {rekey : Option Bytes}

/-- Nothing is encrypted in an epoch whose counter stands at zero. -/
theorem eq_nil_of_isZero (hcourse : Course cipher r c es rekey) (hzero : c.isZero = true) :
    es = [] ∧ rekey = none := by
  cases hcourse with
  | idle => exact ⟨rfl, rfl⟩
  | stalled c k hstart => exact absurd (hzero.symm.trans hstart) (by decide)
  | refused c k hstart => exact absurd (hzero.symm.trans hstart) (by decide)
  | rekeyed c k hstart => exact absurd (hzero.symm.trans hstart) (by decide)

/-- The counters of an epoch are consecutive. -/
theorem map_snd (hcourse : Course cipher r c es rekey) :
    es.map Prod.snd = c.upcoming es.length := by
  induction hcourse with
  | idle => rfl
  | stalled c k hstart => rw [map_snd_draws, length_draws]
  | refused c k hstart hpos es rekey hrest ih =>
      rw [List.map_append, map_snd_chunkDraws, ih, List.length_append, length_chunkDraws,
        Counter.upcoming_add c (k + r)]
  | rekeyed c k hstart hpos hmax => rw [map_snd_chunkDraws, length_chunkDraws]

theorem outputRuns_ne_nil (hcourse : Course cipher r c es rekey) (hr : 0 < r)
    (hrekey : rekey ≠ none) :
    outputRuns (es.map Prod.fst) ≠ [] := by
  cases hcourse with
  | idle => exact absurd rfl hrekey
  | stalled c k hstart => exact absurd rfl hrekey
  | refused c k hstart hpos es rekey hrest =>
      rw [List.map_append, outputRuns_chunkDraws hpos hr]
      exact List.cons_ne_nil _ _
  | rekeyed c k hstart hpos hmax =>
      rw [← List.append_nil (List.map _ _), outputRuns_chunkDraws hpos hr]
      exact List.cons_ne_nil _ _

/-- A chunk that is alone in an epoch and rekeys makes up all of the epoch. -/
theorem eq_chunkDraws {k : Nat} {key : Bytes} (hcourse : Course cipher r c es (some key))
    (hr : 0 < r) (hchunks : outputRuns (es.map Prod.fst) = [k]) :
    0 < k ∧ k ≤ maxBlocks ∧ es = chunkDraws c k r ∧
      key = (((c.advance k).upcoming r).flatMap fun d => cipher.encrypt d.bytes).take keySize := by
  cases hcourse with
  | refused c k' hstart hpos es rekey hrest =>
      rw [List.map_append, outputRuns_chunkDraws hpos hr] at hchunks
      have hnone := (List.cons.inj hchunks).2
      exact absurd hnone (hrest.outputRuns_ne_nil hr (Option.some_ne_none key))
  | rekeyed c k' hstart hpos hmax =>
      rw [← List.append_nil (List.map _ _), outputRuns_chunkDraws hpos hr] at hchunks
      obtain rfl : k' = k := (List.cons.inj hchunks).1
      exact ⟨hpos, hmax, rfl, rfl⟩

end Course

end Fortuna
