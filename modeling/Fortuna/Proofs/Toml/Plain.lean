import Fortuna.Proofs.Toml.Spelling
import Fortuna.Proofs.Toml.Table
import Fortuna.Toml.Writing

/-!
# Plain documents read back

A plain document has sections with bare names, and in them lines that bind bare
keys to texts that spell values.  It is a TOML document, and denotes the table of
its sections (`parse?_plainText`).
-/

namespace Fortuna

namespace Toml

/-- The name can be written without quotes. -/
def IsBareName (name : String) : Prop :=
  name.toList ≠ [] ∧ ∀ c ∈ name.toList, Scan.isBare c = true

/-- A name does not begin with a character that names are not made of. -/
theorem IsBareName.leaves {name : String} (hname : IsBareName name) {p : Char → Bool}
    (hp : ∀ c, Scan.isBare c = true → p c = false) (cs : List Char) :
    Scan.Leaves p (name.toList ++ cs) := by
  intro c hc
  rw [List.head?_append_of_ne_nil _ hname.1] at hc
  exact hp c (hname.2 c (List.mem_of_mem_head? hc))

namespace Scan

variable {cs rest : List Char} {c : Char}

/-! ## Blanks and line ends -/

theorem blanks_append {gap : List Char} (hgap : ∀ c ∈ gap, isBlank c = true)
    (hrest : Leaves isBlank rest) : blanks (gap ++ rest) = some ((), rest) := by
  rw [blanks, bind_of_some (span_append hgap hrest)]
  rfl

theorem blanks_of_leaves (hrest : Leaves isBlank rest) : blanks rest = some ((), rest) :=
  blanks_append (fun _ hc => absurd hc List.not_mem_nil) hrest

theorem blanks_space (hrest : Leaves isBlank rest) : blanks (' ' :: rest) = some ((), rest) := by
  have hgap : ∀ c ∈ [' '], isBlank c = true := List.forall_mem_singleton.mpr rfl
  exact blanks_append hgap hrest

theorem lineEnd_newline (rest : List Char) : lineEnd ('\n' :: rest) = some ((), rest) := rfl

/-! ## Keys -/

/-- A bare key ends before a blank or a mark other than a dot. -/
theorem key_append {name : String} (hname : IsBareName name) (hend : Leaves isBare cs)
    (hblanks : blanks cs = some ((), rest)) (hdot : Leaves (· == '.') rest) :
    key (name.toList ++ cs) = some ((name, []), rest) := by
  have hstart : Leaves isBlank (name.toList ++ cs) :=
    hname.leaves (fun _ => isBlank_of_class rfl rfl) cs
  have hbare : simpleKey (name.toList ++ cs) = some (name, cs) := by
    rw [simpleKey, map_of_some (orElse_of_some (span1_append hname.1 hname.2 hend)),
      String.ofList_toList]
  have hpart : (do blanks; let k ← simpleKey; blanks; return k) (name.toList ++ cs) =
      some (name, rest) := by
    rw [bind_of_some (blanks_of_leaves hstart), bind_of_some hbare, bind_of_some hblanks]
    rfl
  have hmore : many (exactly '.' *> do blanks; let k ← simpleKey; blanks; return k) rest =
      some ([], rest) := by
    refine (Collects.done ?_).many_eq
    rw [seqRight_eq_bind, bind_of_none (exactly_of_leaves hdot)]
  rw [key, bind_of_some hpart, bind_of_some hmore]
  rfl

/-! ## Lines -/

variable {value : Scan Value} {b : Binding}

theorem bodyLine_of_binding (hc : isBare c = true)
    (hb : binding value (c :: cs) = some (b, '\n' :: rest)) :
    bodyLine value (c :: cs) = some (some b, rest) := by
  have hsome : (peek >>= fun c => if c.isSome then pure () else failure) (c :: cs) =
      some ((), c :: cs) := rfl
  have hblanks : blanks (c :: cs) = some ((), c :: cs) :=
    blanks_of_leaves (leaves_cons (isBlank_of_class rfl rfl hc) cs)
  have hpeek : peek (c :: cs) = some (some c, c :: cs) := rfl
  rw [bodyLine, bind_of_some hsome, bind_of_some hblanks, bind_of_some hpeek]
  generalize hnext : some c = next
  split
  · exact absurd hnext nofun
  · exact absurd (Option.some.inj hnext ▸ hc) (by decide)
  · exact absurd (Option.some.inj hnext ▸ hc) (by decide)
  · exact absurd (Option.some.inj hnext ▸ hc) (by decide)
  · rw [bind_of_some hb, bind_of_some (lineEnd_newline rest)]
    rfl

theorem toList_settingLine (key text : String) (rest : List Char) :
    (settingLine key text).toList ++ rest =
      key.toList ++ ' ' :: '=' :: ' ' :: (text.toList ++ '\n' :: rest) := by
  rw [settingLine, String.toList_append, String.toList_append, String.toList_append]
  simp only [List.append_assoc]
  rfl

theorem bodyLine_settingLine {key text : String} {v : Value} (hkey : IsBareName key)
    (htext : Leaves isBlank text.toList)
    (hv : value (text.toList ++ '\n' :: rest) = some (v, '\n' :: rest)) :
    bodyLine value ((settingLine key text).toList ++ rest) = some (some ⟨[key], v⟩, rest) := by
  have hstart : Leaves isBlank (text.toList ++ '\n' :: rest) :=
    htext.append (leaves_cons rfl rest)
  have hscan : Scan.key (key.toList ++ ' ' :: '=' :: ' ' :: (text.toList ++ '\n' :: rest)) =
      some ((key, []), '=' :: ' ' :: (text.toList ++ '\n' :: rest)) := by
    apply key_append hkey (leaves_cons rfl _) (blanks_space (leaves_cons rfl _))
    exact leaves_cons rfl _
  have hbinding :
      binding value (key.toList ++ ' ' :: '=' :: ' ' :: (text.toList ++ '\n' :: rest)) =
        some (⟨[key], v⟩, '\n' :: rest) := by
    rw [binding, bind_of_some hscan]
    dsimp only
    rw [bind_of_some (exactly_cons '=' _), bind_of_some (blanks_space hstart), bind_of_some hv]
    rfl
  obtain ⟨c, name, hname⟩ := List.exists_cons_of_ne_nil hkey.1
  rw [toList_settingLine]
  rw [hname, List.cons_append] at hbinding ⊢
  exact bodyLine_of_binding (hkey.2 c (hname ▸ List.mem_cons_self)) hbinding

theorem bodyLine_newline (rest : List Char) : bodyLine value ('\n' :: rest) = some (none, rest) :=
  rfl

theorem bodyLine_bracket (rest : List Char) : bodyLine value ('[' :: rest) = none :=
  rfl

/-! ## Headers -/

theorem header_append {name : String} (hname : IsBareName name) (rest : List Char) :
    header ('[' :: (name.toList ++ ']' :: rest)) = some ((false, name, []), rest) := by
  have hsingle : Leaves (· == '[') (name.toList ++ ']' :: rest) := by
    refine hname.leaves (fun c hc => beq_false_of_ne ?_) _
    rintro rfl
    exact absurd hc (by decide)
  -- a second bracket would open the header of an array of tables
  have htables : word ['[', '['] ('[' :: (name.toList ++ ']' :: rest)) = none := by
    rw [word, bind_of_some (exactly_cons '[' _), word, bind_of_none (exactly_of_leaves hsingle)]
  have hkey : key (name.toList ++ ']' :: rest) = some ((name, []), ']' :: rest) := by
    apply key_append hname (leaves_cons rfl rest) (blanks_of_leaves (leaves_cons rfl rest))
    exact leaves_cons rfl rest
  rw [header, orElse_of_none (bind_of_none htables), bind_of_some (exactly_cons '[' _),
    bind_of_some hkey, bind_of_some (exactly_cons ']' rest)]
  rfl

end Scan

/-! ## Sections -/

/-- The line binds the key of an entry to a text that spells the value. -/
def Writes (setting : String × String) (entry : String × Value) : Prop :=
  setting.1 = entry.1 ∧ IsBareName setting.1 ∧ Spells setting.2 entry.2

/-- The section has the name of the table and writes its entries. -/
structure PlainSection.Denotes (s : PlainSection) (table : String × Entries) : Prop where
  name : s.name = table.1
  bare : IsBareName s.name
  keys : (table.2.map Prod.fst).Nodup
  settings : List.Forall₂ Writes s.settings table.2

/-- The bindings of some entries, each at its own key. -/
def Entries.bindings (entries : Entries) : List Binding :=
  entries.map fun (key, value) => { path := [key], value }

/-- The entry of a table that a header opened. -/
def tableEntry (table : String × Entries) : String × Value :=
  (table.1, .table .header table.2)

/-- A header with the name of a table, and under it the entries. -/
def headed (table : String × Entries) : Section :=
  { repeated := false, parents := [], key := table.1, bindings := table.2.bindings }

theorem PlainSection.toList_text (s : PlainSection) (rest : List Char) :
    s.text.toList ++ rest = '[' :: (s.name.toList ++ ']' :: '\n' ::
      ((s.settings.flatMap fun (key, value) => (settingLine key value).toList) ++ rest)) := by
  rw [text, String.toList_append, String.toList_append, String.toList_append, String.toList_join,
    List.flatMap_map]
  simp only [List.append_assoc]
  rfl

namespace Scan

variable {rest next : List Char} {s : PlainSection} {table : String × Entries} {depth : Nat}

theorem collects_settings {settings : List (String × String)} {entries : Entries}
    (hsettings : List.Forall₂ Writes settings entries) {others : List (Option Binding)}
    (hrest : Collects (bodyLine (value (depth + 1))) rest others next) :
    Collects (bodyLine (value (depth + 1)))
      ((settings.flatMap fun (key, value) => (settingLine key value).toList) ++ rest)
      (entries.bindings.map some ++ others) next := by
  induction hsettings with
  | nil => exact hrest
  | @cons setting entry settings entries hfirst _ ih =>
      obtain ⟨key, text⟩ := setting
      obtain ⟨key, v⟩ := entry
      obtain ⟨rfl, hkey, htext⟩ := hfirst
      rw [List.flatMap_cons, List.append_assoc]
      refine .step (bodyLine_settingLine hkey htext.starts (htext.reads depth _)) ?_ ih
      rw [toList_settingLine]
      simp only [List.length_append, List.length_cons]
      omega

theorem section_plain (hs : s.Denotes table) {others : List (Option Binding)}
    (hothers : others.filterMap id = [])
    (hrest : Collects (bodyLine (value (depth + 1))) rest others next) :
    «section» (value (depth + 1)) (s.text.toList ++ rest) = some (headed table, next) := by
  have hbody : body (value (depth + 1))
      ((s.settings.flatMap fun (key, value) => (settingLine key value).toList) ++ rest) =
        some (table.2.bindings, next) := by
    rw [body, bind_of_some (collects_settings hs.settings hrest).many_eq, List.filterMap_append,
      List.filterMap_map, hothers, List.append_nil]
    exact congrArg (fun bs => some (bs, next)) List.filterMap_some
  rw [PlainSection.toList_text, «section», bind_of_some (blanks_of_leaves (leaves_cons rfl _)),
    bind_of_some (header_append hs.bare _)]
  dsimp only
  rw [bind_of_some (lineEnd_newline _), splitLast]
  dsimp only
  rw [bind_of_some hbody, hs.name]
  rfl

end Scan

/-! ## Documents -/

theorem plainText_singleton (s : PlainSection) : (plainText [s]).toList = s.text.toList := by
  rw [plainText, String.toList_intercalate]
  exact List.append_nil _

theorem plainText_cons_cons (s t : PlainSection) (sections : List PlainSection) :
    (plainText (s :: t :: sections)).toList =
      s.text.toList ++ '\n' :: (plainText (t :: sections)).toList := by
  rw [plainText, plainText, String.toList_intercalate, String.toList_intercalate]
  simp only [List.map_cons, List.intercalate_cons_cons, List.append_assoc]
  rfl

theorem exists_plainText_eq_cons (s : PlainSection) (sections : List PlainSection) :
    ∃ rest, (plainText (s :: sections)).toList = '[' :: rest := by
  cases sections with
  | nil => exact ⟨_, by rw [plainText_singleton, ← List.append_nil s.text.toList, s.toList_text]⟩
  | cons t sections => exact ⟨_, by rw [plainText_cons_cons, s.toList_text]⟩

namespace Scan

variable {sections : List PlainSection} {tables : List (String × Entries)} {depth : Nat}

/-- Behind a section stands at most a blank line before the next one. -/
theorem exists_behind_section (value : Scan Value) (s : PlainSection)
    (sections : List PlainSection) :
    ∃ rest others, (plainText (s :: sections)).toList = s.text.toList ++ rest ∧
      others.filterMap id = [] ∧
      Collects (bodyLine value) rest others (plainText sections).toList := by
  cases sections with
  | nil =>
      refine ⟨[], [], ?_, rfl, .done rfl⟩
      rw [plainText_singleton, List.append_nil]
  | cons t sections =>
      obtain ⟨cs, hcs⟩ := exists_plainText_eq_cons t sections
      refine ⟨_, [none], plainText_cons_cons s t sections, rfl, ?_⟩
      refine .step (bodyLine_newline _) (Nat.lt_succ_self _) (.done ?_)
      rw [hcs, bodyLine_bracket]

theorem collects_sections (h : List.Forall₂ PlainSection.Denotes sections tables) :
    Collects («section» (value (depth + 1))) (plainText sections).toList
      (tables.map headed) [] := by
  induction h with
  | nil => exact .done rfl
  | @cons s table sections tables hs _ ih =>
      obtain ⟨rest, others, htext, hothers, hrest⟩ :=
        exists_behind_section (value (depth + 1)) s sections
      rw [htext]
      refine .step (section_plain hs hothers hrest) ?_ ih
      have hle := hrest.length_le
      rw [s.toList_text]
      simp only [List.length_cons, List.length_append]
      omega

/-- Nothing stands before the first header. -/
theorem document_bracket {cs : List Char} {parsed : List Section}
    (hsections : Collects («section» (value (cs.length + 1))) ('[' :: cs) parsed []) :
    document.whole ('[' :: cs) = some { preamble := [], sections := parsed } := by
  have hmark : exactly '\ufeff' ('[' :: cs) = none :=
    exactly_of_leaves (leaves_cons rfl cs)
  have hget : (get : Scan (List Char)) ('[' :: cs) = some ('[' :: cs, '[' :: cs) := rfl
  have hlines : many (bodyLine (value (cs.length + 1))) ('[' :: cs) = some ([], '[' :: cs) :=
    (Collects.done (bodyLine_bracket cs)).many_eq
  have hpreamble : body (value (cs.length + 1)) ('[' :: cs) = some ([], '[' :: cs) := by
    rw [body, bind_of_some hlines]
    rfl
  have hdocument : document ('[' :: cs) = some ({ preamble := [], sections := parsed }, []) := by
    rw [document, bind_of_some (optional_of_none hmark), bind_of_some hget, List.length_cons,
      bind_of_some hpreamble, bind_of_some hsections.many_eq]
    rfl
  rw [whole, hdocument]

theorem document_plainText (h : List.Forall₂ PlainSection.Denotes sections tables) :
    document.whole (plainText sections).toList =
      some { preamble := [], sections := tables.map headed } := by
  cases sections with
  | nil =>
      rw [List.forall₂_nil_left_iff.mp h]
      rfl
  | cons s sections =>
      obtain ⟨cs, hcs⟩ := exists_plainText_eq_cons s sections
      rw [hcs]
      exact document_bracket (hcs ▸ collects_sections h)

end Scan

namespace Entries

variable {entries root : Entries}

/-- Steps that each add an entry with a new key add all entries. -/
theorem foldlM_of_fresh {α : Type} {step : Entries → α → Option Entries}
    (entry : α → String × Value) {as : List α}
    (hstep : ∀ a ∈ as, ∀ es : Entries, (entry a).1 ∉ es.map Prod.fst →
      step es a = some (es ++ [entry a]))
    (hkeys : ((root ++ as.map entry).map Prod.fst).Nodup) :
    as.foldlM step root = some (root ++ as.map entry) := by
  induction as generalizing root with
  | nil => rw [List.map_nil, List.append_nil]; rfl
  | cons a as ih =>
      rw [List.forall_mem_cons] at hstep
      rw [List.map_cons, List.append_cons] at hkeys ⊢
      have hkey : (entry a).1 ∉ root.map Prod.fst := by
        intro hmem
        rw [← List.append_cons, List.map_append, List.nodup_append] at hkeys
        exact hkeys.2.2 _ hmem _ List.mem_cons_self rfl
      rw [List.foldlM_cons, hstep.1 root hkey]
      exact ih hstep.2 hkeys

theorem bindPath_of_notMem {key : String} {v : Value} (hkey : key ∉ root.map Prod.fst) :
    root.bindPath [key] v = some (root ++ [(key, v)]) := by
  rw [bindPath, lookup_eq_none_iff_notMem.mpr hkey, put_of_notMem hkey]
  rfl

theorem bindAll_bindings (hkeys : (entries.map Prod.fst).Nodup) :
    bindAll entries.bindings [] = some entries := by
  have hbind : ∀ e ∈ entries, ∀ es : Entries, e.1 ∉ es.map Prod.fst →
      es.bindPath [e.1] e.2 = some (es ++ [id e]) :=
    fun e _ es he => bindPath_of_notMem he
  rw [bindAll, bindings, List.foldlM_map, foldlM_of_fresh id hbind, List.map_id, List.nil_append]
  rwa [List.map_id, List.nil_append]

theorem addSection_headed {table : String × Entries} (hkeys : (table.2.map Prod.fst).Nodup)
    (hname : table.1 ∉ root.map Prod.fst) :
    root.addSection (headed table) = some (root ++ [tableEntry table]) := by
  rw [addSection, headed, atPath]
  dsimp only
  rw [lookup_eq_none_iff_notMem.mpr hname]
  dsimp only
  rw [bindAll_bindings hkeys]
  exact congrArg some (put_of_notMem hname)

end Entries

/-- A plain document denotes the table of its sections. -/
theorem parse?_plainText {sections : List PlainSection} {tables : List (String × Entries)}
    (h : List.Forall₂ PlainSection.Denotes sections tables)
    (hnames : (tables.map Prod.fst).Nodup) :
    parse? (plainText sections).toList = some (tables.map tableEntry) := by
  have hkeys : ∀ table ∈ tables, (table.2.map Prod.fst).Nodup := by
    clear hnames
    induction h with
    | nil => exact fun table htable => absurd htable List.not_mem_nil
    | cons hs _ ih => exact List.forall_mem_cons.mpr ⟨hs.keys, ih⟩
  have hadd : ∀ table ∈ tables, ∀ es : Entries, table.1 ∉ es.map Prod.fst →
      es.addSection (headed table) = some (es ++ [tableEntry table]) :=
    fun table htable es hname => Entries.addSection_headed (hkeys table htable) hname
  have hroot : ({ preamble := [], sections := tables.map headed } : Document).table? =
      some (tables.map tableEntry) := by
    change (tables.map headed).foldlM (fun es s => Entries.addSection s es) [] = _
    rw [List.foldlM_map, Entries.foldlM_of_fresh tableEntry hadd, List.nil_append]
    rwa [List.nil_append, List.map_map]
  rw [parse?, Scan.document_plainText h]
  exact hroot

end Toml

end Fortuna
