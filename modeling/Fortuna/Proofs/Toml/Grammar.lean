import Fortuna.Proofs.Toml.Scan
import Fortuna.Proofs.Toml.Table
import Fortuna.Toml.Grammar

/-!
# What documents denote

Every value that the grammar reads is sound, so the table that a text denotes binds
no key twice (`sound_parse?`).
-/

namespace Fortuna

namespace Toml

namespace Scan

/-! ## Soundness -/

theorem scalarValue?_sound {cs : List Char} {v : Value} (h : scalarValue? cs = some v) :
    v.Sound := by
  unfold scalarValue? at h
  split at h
  · rw [← Option.some.inj h]
    exact .boolean
  · split at h
    · rw [← Option.some.inj h]
      exact .boolean
    · split at h
      · next n hn =>
          rw [← Option.some.inj h]
          exact .integer (Option.filter_eq_some_iff.mp hn).2
      · split at h
        · rw [← Option.some.inj h]
          exact .float
        · split at h
          · rw [← Option.some.inj h]
            exact .moment
          · exact absurd h nofun

theorem yields_scalar : Yields Value.Sound scalar := by
  refine Yields.trivial.bind fun text _ => ?_
  split
  · exact Yields.trivial.bind fun clock _ => Yields.pure .moment
  · split
    · next v hv => exact Yields.pure (scalarValue?_sound hv)
    · exact Yields.failure

variable {value : Scan Value}

theorem yields_array (hvalue : Yields Value.Sound value) : Yields Value.Sound (array value) := by
  refine Yields.trivial.bind fun _ _ => Yields.trivial.bind fun _ _ => ?_
  refine Yields.bind (P := fun items => ∀ v ∈ items, v.Sound) ?_ fun items hitems =>
    Yields.trivial.bind fun _ _ => Yields.pure (.array hitems)
  refine Yields.orElse ?_ (Yields.pure fun v hv => absurd hv List.not_mem_nil)
  refine hvalue.seqLeft.bind fun first hfirst => ?_
  refine hvalue.seqLeft.seqRight.many.bind fun rest hrest => ?_
  exact Yields.trivial.bind fun _ _ => Yields.pure (List.forall_mem_cons.mpr ⟨hfirst, hrest⟩)

theorem yields_binding (hvalue : Yields Value.Sound value) :
    Yields (fun b => b.value.Sound) (binding value) := by
  refine Yields.trivial.bind fun path _ => ?_
  refine Yields.trivial.bind fun _ _ => Yields.trivial.bind fun _ _ => ?_
  exact hvalue.bind fun v hv => Yields.pure hv

theorem yields_inlineTable (hvalue : Yields Value.Sound value) :
    Yields Value.Sound (inlineTable value) := by
  refine Yields.trivial.bind fun _ _ => Yields.trivial.bind fun _ _ => ?_
  have hitem := (yields_binding hvalue).seqLeft (z := blanks)
  refine Yields.bind (P := fun items => ∀ b ∈ items, b.value.Sound) ?_ fun items hitems =>
    Yields.trivial.bind fun _ _ => ?_
  · refine Yields.orElse ?_ (Yields.pure fun b hb => absurd hb List.not_mem_nil)
    refine hitem.bind fun first hfirst => ?_
    refine hitem.seqRight.many.bind fun rest hrest => ?_
    exact Yields.pure (List.forall_mem_cons.mpr ⟨hfirst, hrest⟩)
  · split
    · next entries hentries =>
        exact Yields.pure ((Entries.sound_nil.bindAll hitems hentries).table .inline)
    · exact Yields.failure

theorem yields_value (depth : Nat) : Yields Value.Sound (Scan.value depth) := by
  induction depth with
  | zero => exact Yields.failure
  | succ depth ih =>
      refine Yields.trivial.bind fun c _ => ?_
      split
      · exact yields_array ih
      · exact yields_inlineTable ih
      · exact Yields.trivial.bind fun text _ => Yields.pure .string
      · exact Yields.trivial.bind fun text _ => Yields.pure .string
      · exact yields_scalar

theorem yields_bodyLine (hvalue : Yields Value.Sound value) :
    Yields (fun line => ∀ b ∈ line, b.value.Sound) (bodyLine value) := by
  refine Yields.trivial.bind fun _ _ => Yields.trivial.bind fun _ _ => ?_
  refine Yields.trivial.bind fun next _ => ?_
  have hblank : Yields (fun line => ∀ b ∈ line, b.value.Sound)
      (do lineEnd; return (none : Option Binding)) :=
    Yields.trivial.bind fun _ _ => Yields.pure fun b hb => absurd hb nofun
  split
  · exact hblank
  · exact hblank
  · exact hblank
  · exact hblank
  · refine (yields_binding hvalue).bind fun b hb => ?_
    refine Yields.trivial.bind fun _ _ => Yields.pure fun b' hb' => ?_
    rwa [← Option.mem_some.mp hb']

theorem yields_body (hvalue : Yields Value.Sound value) :
    Yields (fun bindings => ∀ b ∈ bindings, b.value.Sound) (body value) := by
  refine (yields_bodyLine hvalue).many.bind fun lines hlines => Yields.pure fun b hb => ?_
  obtain ⟨line, hline, rfl⟩ := List.mem_filterMap.mp hb
  exact hlines _ hline b rfl

theorem yields_section (hvalue : Yields Value.Sound value) :
    Yields (fun s => ∀ b ∈ s.bindings, b.value.Sound) («section» value) := by
  refine Yields.trivial.bind fun _ _ => Yields.trivial.bind fun _ _ => ?_
  refine Yields.trivial.bind fun _ _ => ?_
  exact (yields_body hvalue).bind fun bindings hbindings => Yields.pure hbindings

theorem yields_document :
    Yields (fun d => (∀ b ∈ d.preamble, b.value.Sound) ∧
      ∀ s ∈ d.sections, ∀ b ∈ s.bindings, b.value.Sound) document := by
  refine Yields.trivial.bind fun _ _ => Yields.trivial.bind fun text _ => ?_
  have hvalue := yields_value text.length
  refine (yields_body hvalue).bind fun preamble hpreamble => ?_
  refine (yields_section hvalue).many.bind fun sections hsections => ?_
  exact Yields.trivial.bind fun _ _ => Yields.pure ⟨hpreamble, hsections⟩

end Scan

theorem sound_parse? {text : List Char} {root : Entries} (h : parse? text = some root) :
    root.Sound := by
  obtain ⟨d, hd, hroot⟩ := Option.bind_eq_some_iff.mp h
  rw [Scan.whole] at hd
  split at hd
  · next document hdocument =>
      obtain rfl := Option.some.inj hd
      obtain ⟨hpreamble, hsections⟩ := Scan.yields_document _ _ _ hdocument
      exact Document.sound_table? hpreamble hsections hroot
  · exact absurd hd nofun

end Toml

end Fortuna
