import Delimited.Proofs.Config.Validation
import Delimited.Proofs.Encoding.Utf8
import Delimited.Proofs.FileTree
import Delimited.Proofs.Job
import Delimited.Proofs.Yaml.Mapping
import Mathlib.Data.List.Forall2

/-!
# Settings files

Settings that were saved are loaded again as they were, unless one of their texts
holds a next line and is written between single quotes. The file is a mapping of
mappings: every line is a key with a scalar, so the structure is read line by line,
and the settings are lost or kept with the texts of these lines.

## Main definitions

* `Config.Item.ReadAs`: what can be read for a value of the settings.
* `Config.texts`: the texts of the settings.

## Main results

* `Config.exists_document_render`: the text of a settings file stands for its lines.
* `Config.exists_gives_load_iff_of_save`: when settings that were saved are loaded as they
  were.
-/

namespace Delimited

namespace Config

open Yaml (LineStart ReadsMapping ReadsValue IsKey IsWord)

variable {c : Config} {rest : List Char} {next : Yaml.Cursor} {key name : String} {item : Item}
  {items : List (String × Item)} {sections : List (String × List (String × Item))} {v : Value}
  {entries : List (String × Value)}

/-! ### Values -/

/-- A value that can be read for a value of the settings: for a text some text, and the
same one exactly if it comes back. -/
def Item.ReadAs : Item → Value → Prop
  | text s, v => ∃ t, v = .text t ∧ (t = s ↔ Yaml.ComesBack s.toList)
  | flag b, v => v = .bool b

/-- A value of the settings that is read as it was written. -/
def Item.ComesBack : Item → Prop
  | text s => Yaml.ComesBack s.toList
  | flag _ => True

theorem Item.ReadAs.eq_toValue_iff (h : item.ReadAs v) : v = item.toValue ↔ item.ComesBack := by
  cases item with
  | text s =>
    obtain ⟨t, rfl, ht⟩ := h
    simpa [toValue, ComesBack] using ht
  | flag b => exact iff_of_true h trivial

/-- What is read after a key for a value of the settings. -/
theorem Item.exists_readsValue (item : Item) (column position : Nat) (hline : LineStart rest next)
    (hcolumn : next.column ≤ 2) :
    ∃ v, item.ReadAs v ∧
      ReadsValue 2 ⟨' ' :: (item.render column ++ '\n' :: rest), position⟩ v next 2 := by
  have hends : Yaml.EndsPlainAt 2 ('\n' :: rest) := hline.endsPlainAt (by omega)
  cases item with
  | text s =>
    obtain ⟨c, cs, hcs, hstart⟩ :=
      Yaml.exists_startsScalar_printScalar column s.toList ('\n' :: rest)
    obtain ⟨text, multiline, position', htext, hscalar⟩ :=
      Yaml.exists_scalar_printScalar s.toList column (position + 1) (by decide) hends (by simp)
    rw [hcs] at hscalar
    rw [Item.render, hcs]
    refine ⟨.text (String.ofList text), ⟨_, rfl, ?_⟩, Yaml.readsValue_scalar hstart hscalar hline⟩
    rw [← htext, ← String.toList_inj, String.toList_ofList]
  | flag b =>
    have hword : IsWord (if b then "true" else "false").toList := by
      cases b <;> exact ⟨by decide, List.all_eq_true.mp (by decide)⟩
    have hvalue : Yaml.Plain.resolve (if b then "true" else "false").toList = some (.bool b) := by
      cases b <;> rfl
    obtain ⟨c, cs, hcs, -, hstart, -⟩ := hword.exists_cons
    rw [Item.render]
    rw [hcs] at hword hvalue ⊢
    exact ⟨.bool b, rfl,
      Yaml.readsValue_scalar (hstart _) (Yaml.scalar_word hword hends hvalue) hline⟩

/-- Keys with what is read for their values. -/
def ItemsReadAs (items : List (String × Item)) (entries : List (String × Value)) : Prop :=
  List.Forall₂ (fun p q => p.1 = q.1 ∧ p.2.ReadAs q.2) items entries

/-- Sections with what is read for their values. -/
def SectionsReadAs (sections : List (String × List (String × Item)))
    (entries : List (String × Value)) : Prop :=
  List.Forall₂ (fun s q => s.1 = q.1 ∧ ∃ entries, q.2 = .map entries ∧ ItemsReadAs s.2 entries)
    sections entries

theorem ItemsReadAs.eq_map_iff (h : ItemsReadAs items entries) :
    entries = (items.map fun (key, item) => (key, item.toValue)) ↔
      ∀ p ∈ items, p.2.ComesBack := by
  induction h with
  | nil => simp
  | cons hp _ ih =>
    rw [List.map_cons, List.cons_eq_cons, ih, List.forall_mem_cons, ← hp.2.eq_toValue_iff,
      Prod.ext_iff]
    simp [hp.1]

theorem SectionsReadAs.eq_map_iff (h : SectionsReadAs sections entries) :
    entries = (sections.map fun (name, items) =>
      (name, .map (items.map fun (key, item) => (key, item.toValue)))) ↔
      ∀ s ∈ sections, ∀ p ∈ s.2, p.2.ComesBack := by
  induction h with
  | nil => simp
  | cons hs _ ih =>
    obtain ⟨hname, items, hitems, hread⟩ := hs
    rw [List.map_cons, List.cons_eq_cons, ih, List.forall_mem_cons, ← hread.eq_map_iff,
      Prod.ext_iff]
    simp [hname, hitems]

/-! ### Lines -/

theorem renderItem_append (key : String) (item : Item) (rest : List Char) :
    renderItem key item ++ rest = List.replicate 2 ' ' ++
      (key.toList ++ ':' :: ' ' :: (item.render (key.length + 4) ++ '\n' :: rest)) := by
  have hlength : ("  ".toList ++ key.toList ++ ": ".toList).length = key.length + 4 := by
    simp only [List.length_append, String.length_toList]
    change 2 + key.length + 2 = key.length + 4
    omega
  rw [renderItem, hlength]
  simp [List.replicate]

theorem renderSection_append (name : String) (items : List (String × Item)) (rest : List Char) :
    renderSection name items ++ rest = name.toList ++ ':' :: '\n' ::
      ((items.flatMap fun (key, item) => renderItem key item) ++ rest) := by
  simp [renderSection]

/-- The lines of some keys are read. -/
theorem exists_readsMapping_items (hne : items ≠ []) (hkeys : ∀ p ∈ items, IsKey p.1)
    (hline : LineStart rest next) (hcolumn : next.column = 0) :
    ∃ start entries, ItemsReadAs items entries ∧ start.column = 2 ∧
      (items.flatMap fun (key, item) => renderItem key item) ++ rest =
        List.replicate start.column ' ' ++ start.rest ∧
      ReadsMapping start entries next (items.length + 2) := by
  -- Each value is followed by the line of the next key, or by what follows the section.
  induction items with
  | nil => exact absurd rfl hne
  | cons p items ih =>
    obtain ⟨key, item⟩ := p
    rw [List.forall_mem_cons] at hkeys
    obtain ⟨hkey, hkeys⟩ := hkeys
    cases items with
    | nil =>
      obtain ⟨v, hread, hvalue⟩ :=
        item.exists_readsValue (key.length + 4) (2 + key.length + 1) hline (by omega)
      refine ⟨⟨key.toList ++ ':' :: ' ' :: (item.render (key.length + 4) ++ '\n' :: rest), 2⟩,
        [(key, v)], .cons ⟨rfl, hread⟩ .nil, rfl, ?_, ?_⟩
      · simpa only [List.flatMap_cons, List.flatMap_nil, List.append_nil] using
          renderItem_append key item rest
      · exact hkey.readsMapping_last rfl hvalue (.inr (by omega))
    | cons q items =>
      obtain ⟨start, entries, hentries, hstart, htext, hothers⟩ := ih (by simp) hkeys
      obtain ⟨v, hread, hvalue⟩ := item.exists_readsValue (key.length + 4) (2 + key.length + 1)
        hothers.lineStart (by omega)
      refine ⟨_, (key, v) :: entries, .cons ⟨rfl, hread⟩ hentries, rfl, ?_,
        (hkey.readsMapping_cons rfl hvalue hothers hstart).mono ?_⟩
      · rw [List.flatMap_cons, List.append_assoc, htext]
        exact renderItem_append key item _
      · simp only [List.length_cons]
        omega

/-- The lines of a section are read, after its name. -/
theorem exists_readsValue_items (hne : items ≠ []) (hkeys : ∀ p ∈ items, IsKey p.1)
    (position : Nat) (hline : LineStart rest next) (hcolumn : next.column = 0) :
    ∃ entries, ItemsReadAs items entries ∧
      ReadsValue 0 ⟨'\n' :: ((items.flatMap fun (key, item) => renderItem key item) ++ rest),
        position⟩ (.map entries) next (items.length + 4) := by
  obtain ⟨start, entries, hread, hstart, htext, hmapping⟩ :=
    exists_readsMapping_items hne hkeys hline hcolumn
  rw [htext]
  exact ⟨entries, hread, hmapping.readsValue (by omega)⟩

/-- The lines of some sections are read. -/
theorem exists_readsMapping_sections {k : Nat} (hne : sections ≠ [])
    (hsections : ∀ s ∈ sections, IsKey s.1 ∧ s.2 ≠ [] ∧ s.2.length ≤ k ∧
      ∀ p ∈ s.2, IsKey p.1) :
    ∃ start entries, SectionsReadAs sections entries ∧ start.column = 0 ∧
      (sections.flatMap fun (name, items) => renderSection name items) = start.rest ∧
      ReadsMapping start entries ⟨[], 0⟩ (sections.length + k + 4) := by
  induction sections with
  | nil => exact absurd rfl hne
  | cons s sections ih =>
    obtain ⟨name, items⟩ := s
    rw [List.forall_mem_cons] at hsections
    obtain ⟨⟨hname, hitems, hlength, hkeys⟩, hsections⟩ := hsections
    replace hlength : items.length ≤ k := hlength
    -- A section is followed by the next one, or by nothing.
    cases sections with
    | nil =>
      obtain ⟨entries, hread, hvalue⟩ :=
        exists_readsValue_items hitems hkeys (0 + name.length + 1) .done rfl
      refine ⟨⟨name.toList ++ ':' :: '\n' ::
        ((items.flatMap fun (key, item) => renderItem key item) ++ []), 0⟩,
        [(name, .map entries)], .cons ⟨rfl, entries, rfl, hread⟩ .nil, rfl, ?_,
        (hname.readsMapping_last rfl hvalue (.inl rfl)).mono ?_⟩
      · simpa only [List.flatMap_cons, List.flatMap_nil, List.append_nil] using
          renderSection_append name items []
      · simp only [List.length_cons, List.length_nil]
        omega
    | cons s' sections =>
      obtain ⟨start, others, hothers, hstart, htext, hmapping⟩ := ih (by simp) hsections
      have hline := hmapping.lineStart
      rw [hstart, List.replicate_zero, List.nil_append] at hline
      obtain ⟨entries, hread, hvalue⟩ :=
        exists_readsValue_items hitems hkeys (0 + name.length + 1) hline hstart
      refine ⟨⟨name.toList ++ ':' :: '\n' ::
        ((items.flatMap fun (key, item) => renderItem key item) ++ start.rest), 0⟩,
        (name, .map entries) :: others, .cons ⟨rfl, entries, rfl, hread⟩ hothers, rfl, ?_,
        (hname.readsMapping_cons rfl hvalue hmapping hstart).mono ?_⟩
      · rw [List.flatMap_cons, htext]
        exact renderSection_append name items start.rest
      · simp only [List.length_cons]
        omega

/-! ### Files -/

/-- The keys of settings, section by section. -/
def keys : List (String × List String) := [
  ("source", ["input_path", "encoding"]),
  ("table", ["table_name", "header", "infer_numbers"]),
  ("output", ["output_dir", "output_format", "write_meta", "csv_line_terminator",
    "csv_encoding"])]

theorem map_sections (c : Config) :
    (c.sections.map fun (name, items) => (name, items.map Prod.fst)) = keys := rfl

/-- The keys of settings are words that stand for themselves. -/
theorem isKey_of_mem_keys : ∀ s ∈ keys, IsKey s.1 ∧ s.2 ≠ [] ∧ s.2.length ≤ 5 ∧
    ∀ key ∈ s.2, IsKey key := by
  decide +kernel

theorem isKey_of_mem_sections {s : String × List (String × Item)} (hs : s ∈ c.sections) :
    IsKey s.1 ∧ s.2 ≠ [] ∧ s.2.length ≤ 5 ∧ ∀ p ∈ s.2, IsKey p.1 := by
  obtain ⟨hname, hne, hlength, hkeys⟩ := isKey_of_mem_keys (s.1, s.2.map Prod.fst)
    (map_sections c ▸ List.mem_map_of_mem hs)
  exact ⟨hname, by simpa using hne, by simpa using hlength,
    fun p hp => hkeys p.1 (List.mem_map_of_mem hp)⟩

theorem Item.isAllowed_of_mem_render (item : Item) (column : Nat) :
    ∀ d ∈ item.render column, Yaml.isAllowed d = true := by
  cases item with
  | text s => exact Yaml.isAllowed_of_mem_printScalar
  | flag b =>
    rw [Item.render]
    cases b <;> exact List.all_eq_true.mp (by decide)

theorem isAllowed_of_mem_renderItem (hkey : IsKey key) :
    ∀ d ∈ renderItem key item, Yaml.isAllowed d = true := by
  simp only [renderItem, List.forall_mem_append]
  exact ⟨⟨⟨⟨List.all_eq_true.mp (by decide), hkey.word.isAllowed⟩,
    List.all_eq_true.mp (by decide)⟩, item.isAllowed_of_mem_render _⟩,
    List.forall_mem_singleton.mpr rfl⟩

/-- Settings start with two comments and a blank line. -/
theorem exists_preamble_eq : ∃ first second : List Char,
    preamble.toList = '#' :: (first ++ '\n' :: '#' :: (second ++ ['\n', '\n'])) ∧
      ∀ d ∈ first ++ second, Yaml.isAllowed d = true ∧ Yaml.isBreak d = false := by
  have hlines : preamble.toList = "# csv-combinators conversion config\n".toList ++
      "# Edit this file to change the header handling, output format, etc.\n\n".toList :=
    String.toList_append
  have hall {line : List Char}
      (h : (line.all fun d => Yaml.isAllowed d && !Yaml.isBreak d) = true) :
      ∀ d ∈ line, Yaml.isAllowed d = true ∧ Yaml.isBreak d = false := by
    simpa using h
  refine ⟨" csv-combinators conversion config".toList,
    " Edit this file to change the header handling, output format, etc.".toList, ?_,
    List.forall_mem_append.mpr ⟨hall (by decide +kernel), hall (by decide +kernel)⟩⟩
  have hfirst : "# csv-combinators conversion config\n".toList =
      '#' :: (" csv-combinators conversion config".toList ++ ['\n']) := by decide +kernel
  have hsecond : "# Edit this file to change the header handling, output format, etc.\n\n".toList =
      '#' :: (" Edit this file to change the header handling, output format, etc.".toList ++
        ['\n', '\n']) := by decide +kernel
  simp only [hlines, hfirst, hsecond, List.cons_append, List.append_assoc, List.nil_append]

/-- Settings files hold only what settings files can hold. -/
theorem isAllowed_of_mem_render (c : Config) : ∀ d ∈ c.render, Yaml.isAllowed d = true := by
  obtain ⟨first, second, hpreamble, hlines⟩ := exists_preamble_eq
  rw [List.forall_mem_append] at hlines
  simp only [render, hpreamble, List.forall_mem_append, List.forall_mem_flatMap,
    List.forall_mem_cons]
  refine ⟨⟨rfl, fun d hd => (hlines.1 d hd).1, rfl, rfl, fun d hd => (hlines.2 d hd).1,
    rfl, rfl, by simp⟩, fun s hs => ?_⟩
  obtain ⟨hname, -, -, hkeys⟩ := isKey_of_mem_sections hs
  simp only [renderSection, List.forall_mem_append, List.forall_mem_flatMap]
  exact ⟨⟨hname.word.isAllowed, List.all_eq_true.mp (by decide)⟩,
    fun p hp => isAllowed_of_mem_renderItem (hkeys p hp)⟩

/-- The comments above the settings are gone over. -/
theorem skip_preamble (hline : LineStart rest next) :
    Yaml.Cursor.skip ⟨preamble.toList ++ rest, 0⟩ = (true, next) := by
  obtain ⟨first, second, hpreamble, hlines⟩ := exists_preamble_eq
  rw [List.forall_mem_append] at hlines
  simp only [hpreamble, List.cons_append, List.append_assoc, List.nil_append]
  rw [Yaml.Cursor.skip, Yaml.skipFrom_comment fun d hd => (hlines.1 d hd).2,
    Yaml.skipFrom_comment fun d hd => (hlines.2 d hd).2]
  exact hline.skipFrom

/-- The text of a settings file stands for the values of its lines. -/
theorem exists_document_render (c : Config) :
    ∃ entries, SectionsReadAs c.sections entries ∧
      Yaml.document c.render = some (.map entries) := by
  have hne : c.sections ≠ [] := List.cons_ne_nil _ _
  obtain ⟨start, entries, hentries, hcolumn, htext, hread⟩ :=
    exists_readsMapping_sections hne fun s hs => isKey_of_mem_sections hs
  have hline := hread.lineStart
  rw [hcolumn, List.replicate_zero, List.nil_append, ← htext] at hline
  refine ⟨entries, hentries,
    hread.document hcolumn (isAllowed_of_mem_render c) ?_ (skip_preamble hline) ?_⟩
  · obtain ⟨first, second, hpreamble, -⟩ := exists_preamble_eq
    simp [render, hpreamble]
  · obtain ⟨first, second, hpreamble, -⟩ := exists_preamble_eq
    have hlong : 2 ≤ c.render.length := by
      simp only [render, hpreamble, List.length_append, List.length_cons]
      omega
    have hthree : c.sections.length = 3 := rfl
    omega

theorem unifyLineEnds_eq_self {cs : List Char} (h : '\r' ∉ cs) : Yaml.unifyLineEnds cs = cs := by
  induction cs with
  | nil => rfl
  | cons c cs ih =>
    rw [List.mem_cons, not_or] at h
    rw [Yaml.unifyLineEnds, ih h.2]
    · intro _ heq
      exact absurd heq.symm h.1
    · intro heq
      exact absurd heq.symm h.1

theorem exists_parse_render (c : Config) (p : Path) :
    ∃ entries, SectionsReadAs c.sections entries ∧
      parse p (Utf8.encode c.render) = .ok (.map entries) := by
  obtain ⟨entries, hentries, hdocument⟩ := exists_document_render c
  have hunify : Yaml.unifyLineEnds c.render = c.render :=
    unifyLineEnds_eq_self fun hreturn => Bool.noConfusion (isAllowed_of_mem_render c '\r' hreturn)
  refine ⟨entries, hentries, ?_⟩
  rw [parse, Utf8.decode_encode]
  simp only [Except.mapError, bind, Except.bind, hunify, hdocument]

/-! ### What a settings file holds -/

/-- The texts of the settings. -/
def texts (c : Config) : List String :=
  [c.source.inputPath, c.source.encoding, c.table.tableName, c.output.dir, c.output.encoding]

/-- The values of valid settings come back if their texts do. -/
theorem comesBack_of_mem_sections (hvalid : c.Valid)
    (htexts : ∀ s ∈ c.texts, Yaml.ComesBack s.toList) :
    ∀ s ∈ c.sections, ∀ p ∈ s.2, p.2.ComesBack := by
  have hformat : Yaml.ComesBack c.output.format.name.toList := by
    rcases hvalid.format with h | h <;> rw [h] <;> decide
  have hterminator : Yaml.ComesBack c.output.terminator.name.toList := by
    obtain ⟨b, hb⟩ := hvalid.terminator
    cases b <;> rw [hb] <;> decide
  simp only [texts, List.forall_mem_cons, List.not_mem_nil, false_implies, implies_true,
    and_true] at htexts
  simp only [sections, List.forall_mem_cons, List.not_mem_nil, false_implies, implies_true,
    and_true, Item.ComesBack, true_and]
  exact ⟨⟨htexts.1, htexts.2.1⟩, htexts.2.2.1, htexts.2.2.2.1, hformat, hterminator, htexts.2.2.2.2⟩

/-- A text that is read as it was comes back. -/
theorem Item.ReadAs.comesBack {s : String} (h : (Item.text s).ReadAs v)
    (hcheck : checkText v = .ok s) : Yaml.ComesBack s.toList := by
  obtain ⟨t, rfl, ht⟩ := h
  exact ht.mp (Except.ok.inj hcheck)

theorem comesBack_of_ofValue (h : SectionsReadAs c.sections entries)
    (hvalue : ofValue (.map entries) = .ok c) : ∀ s ∈ c.texts, Yaml.ComesBack s.toList := by
  simp only [SectionsReadAs, ItemsReadAs, sections, List.forall₂_cons_left_iff,
    List.forall₂_nil_left_iff, exists_and_left, ↓existsAndEq, true_and, Prod.exists, and_true] at h
  obtain ⟨inputPath, encoding, ⟨hpath, hencoding⟩, tableName, header, inferNumbers, dir, format,
    writeMeta, terminator, encoding', ⟨⟨hname, -⟩, hdir, -, -, -, hencoding'⟩, rfl⟩ := h
  obtain ⟨hsource, htable, houtput⟩ := sections_of_ofValue hvalue
  replace hsource := Source.texts_of_ofEntries hsource
  replace houtput := Output.texts_of_ofEntries houtput
  simp only [texts, List.forall_mem_cons, List.not_mem_nil, false_implies, implies_true, and_true]
  exact ⟨hpath.comesBack hsource.1, hencoding.comesBack hsource.2,
    hname.comesBack (Layout.texts_of_ofEntries htable), hdir.comesBack houtput.1,
    hencoding'.comesBack houtput.2⟩

/-- The values that are read for valid settings hold these settings exactly if all texts
come back. -/
theorem ofValue_eq_ok_iff_comesBack (hvalid : c.Valid) (h : SectionsReadAs c.sections entries) :
    ofValue (.map entries) = .ok c ↔ ∀ s ∈ c.texts, Yaml.ComesBack s.toList := by
  constructor
  · exact comesBack_of_ofValue h
  · intro htexts
    rw [h.eq_map_iff.mpr (comesBack_of_mem_sections hvalid htexts)]
    exact ofValue_toValue hvalid

/-! ### Loading and saving -/

variable {path : String} {w w' : World}

theorem isQuery_load (path : String) : (load path).IsQuery := by
  refine Job.isQuery_files.bind fun files => ?_
  cases hhas : files.has (.ofString path) with
  | false => exact Job.isQuery_throw_bind _ _
  | true =>
    exact Job.isQuery_files.bind fun files => (Job.isQuery_ofExcept _ _).bind fun bytes =>
      (Job.isQuery_ofExcept _ _).bind fun value => (Job.isQuery_info _ _).bind fun _ =>
        Job.isQuery_ofExcept _ _

/-- Settings are loaded from a file whose text stands for a value that holds them. -/
theorem exists_gives_load_iff :
    (∃ w', (load path).Gives w c w') ↔ ∃ bytes v, w.files.has (.ofString path) = true ∧
      w.files.read (.ofString path) = .ok bytes ∧ parse (.ofString path) bytes = .ok v ∧
      ofValue v = .ok c := by
  cases hhas : w.files.has (.ofString path) with
  | false => simp [load, hhas]
  | true =>
    simp only [load, Job.gives_bind_iff, Job.gives_files_iff]
    constructor
    · rintro ⟨w', _, _, ⟨rfl, rfl⟩, h⟩
      simp only [hhas, Bool.not_true, Bool.false_eq_true, if_false, Job.gives_bind_iff,
        Job.gives_files_iff, Job.gives_ofExcept_iff] at h
      obtain ⟨_, _, ⟨rfl, rfl⟩, bytes, _, ⟨hread, rfl⟩, v, _, ⟨hparse, rfl⟩, _, _, -, hvalue, -⟩ :=
        h
      exact ⟨bytes, v, trivial, hread, hparse, hvalue⟩
    · rintro ⟨bytes, v, -, hread, hparse, hvalue⟩
      simp [hhas, hread, hparse, hvalue, Job.info, Job.report]

/-- Settings that were loaded have been checked. -/
theorem valid_of_gives_load (h : (load path).Gives w c w') : c.Valid := by
  obtain ⟨bytes, v, -, -, -, hvalue⟩ := exists_gives_load_iff.mp ⟨w', h⟩
  exact valid_of_ofValue hvalue

/-- After settings were saved their text stands at the path. -/
theorem stat?_of_gives_save {u : Unit} (h : (c.save path).Gives w u w') :
    w'.files.stat? (.ofString path) = some (.file (Utf8.encode c.render)) := by
  simp only [save, Job.gives_bind_iff, Job.gives_ensureDirs_iff, Job.gives_change_iff] at h
  obtain ⟨_, _, ⟨made, -, rfl⟩, _, _, ⟨stored, hstored, rfl⟩, hinfo⟩ := h
  rw [(Job.isQuery_info _ _).files_eq hinfo]
  exact FileTree.stat?_of_store hstored

/-- Settings are saved where directories can be made and no directory stands. -/
theorem exists_gives_save {made : FileTree} {l : Location}
    (hmade : w.files.makeDirs (Path.ofString path).parent = .ok made)
    (hlocate : made.locate (.ofString path) = .ok l) (hdir : made.get? l ≠ some .directory) :
    ∃ w', (c.save path).Gives w () w' := by
  have hstore : made.store (.ofString path) (.file (Utf8.encode c.render)) = .ok _ :=
    FileTree.store_eq_ok_iff.mpr ⟨l, hlocate, hdir, rfl⟩
  simp only [save, Job.gives_bind_iff, Job.gives_ensureDirs_iff, Job.gives_change_iff, Job.info,
    Job.report, Job.gives_modify_iff]
  exact ⟨_, (), _, ⟨made, hmade, rfl⟩, (), _, ⟨_, hstore, rfl⟩, rfl⟩

/-- Valid settings are loaded from their own text exactly if all texts come back. -/
theorem exists_gives_load_iff_of_stat? (hvalid : c.Valid)
    (hstat : w.files.stat? (.ofString path) = some (.file (Utf8.encode c.render))) :
    (∃ w', (load path).Gives w c w') ↔ ∀ s ∈ c.texts, Yaml.ComesBack s.toList := by
  obtain ⟨entries, hentries, hparse⟩ := exists_parse_render c (.ofString path)
  rw [← ofValue_eq_ok_iff_comesBack hvalid hentries, exists_gives_load_iff]
  constructor
  · rintro ⟨bytes, v, -, hread, hparse', hvalue⟩
    obtain rfl := Except.ok.inj ((FileTree.read_of_stat? hstat).symm.trans hread)
    obtain rfl := Except.ok.inj (hparse.symm.trans hparse')
    exact hvalue
  · intro hvalue
    exact ⟨_, _, FileTree.has_of_stat? hstat, FileTree.read_of_stat? hstat, hparse, hvalue⟩

/-- Saving and loading are inverse, up to next lines: settings that were accepted, and
saved, are loaded as they were exactly if those of their texts that hold next lines are
written between double quotes. -/
theorem exists_gives_load_iff_of_save {u : Unit} (hvalue : ofValue v = .ok c)
    (h : (c.save path).Gives w u w') :
    (∃ w'', (load path).Gives w' c w'') ↔ ∀ s ∈ c.texts, Yaml.ComesBack s.toList :=
  exists_gives_load_iff_of_stat? (valid_of_ofValue hvalue) (stat?_of_gives_save h)

/-- Settings with a text of every style. -/
def stylish : Config :=
  { source := { inputPath := "it's: a\n\u2028b ", encoding := "0123" }
    table := { tableName := "yes" }
    output := { dir := " \u0085\t", format := .csv, encoding := "- #" } }

theorem exists_gives_load_iff_of_save_stylish :
    ∃ w w', (stylish.save "d/c.yaml").Gives {} () w ∧ (load "d/c.yaml").Gives w stylish w' := by
  have hvalid : stylish.Valid := ⟨by decide +kernel, .inl rfl, .crlf, rfl⟩
  have hmade : FileTree.makeDirs {} (Path.ofString "d/c.yaml").parent =
      .ok ⟨[(["d"], .directory)]⟩ := by decide +kernel
  have hlocate : FileTree.locate ⟨[(["d"], .directory)]⟩ (.ofString "d/c.yaml") =
      .ok ["d", "c.yaml"] := by decide +kernel
  obtain ⟨w, hsave⟩ : ∃ w, (stylish.save "d/c.yaml").Gives {} () w :=
    exists_gives_save hmade hlocate (by decide +kernel)
  obtain ⟨w', hload⟩ := (exists_gives_load_iff_of_save (ofValue_toValue hvalid) hsave).mpr
    (by decide +kernel)
  exact ⟨w, w', hsave, hload⟩

/-- Settings with a next line in the path of the source. -/
def brokenPath : Config := { source := { inputPath := "a\u0085b.csv" } }

/-- Settings that are accepted and saved, and not loaded as they were. -/
theorem not_gives_load_of_save_brokenPath :
    ofValue brokenPath.toValue = .ok brokenPath ∧ ∃ w,
      (brokenPath.save "c.yaml").Gives {} () w ∧
        ¬ ∃ w', (load "c.yaml").Gives w brokenPath w' := by
  have hvalid : brokenPath.Valid := ⟨by decide +kernel, .inr rfl, .crlf, rfl⟩
  have hmade : FileTree.makeDirs {} (Path.ofString "c.yaml").parent = .ok {} := by decide +kernel
  have hlocate : FileTree.locate {} (.ofString "c.yaml") = .ok ["c.yaml"] := by decide +kernel
  obtain ⟨w, hsave⟩ : ∃ w, (brokenPath.save "c.yaml").Gives {} () w :=
    exists_gives_save hmade hlocate (by decide +kernel)
  refine ⟨ofValue_toValue hvalid, w, hsave, ?_⟩
  rw [exists_gives_load_iff_of_stat? hvalid (stat?_of_gives_save hsave)]
  decide +kernel

end Config

end Delimited
