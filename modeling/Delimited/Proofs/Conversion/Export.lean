import Delimited.Conversion.Export
import Delimited.Conversion.Plain
import Delimited.Proofs.Conversion.Source
import Delimited.Proofs.Encoding.Utf8
import Delimited.Proofs.Path
import Delimited.Proofs.RoundTrip
import Delimited.Proofs.Table.Layout

/-!
# Reading exports

A table that was exported as delimited text in UTF-8 is read back as its records.
The name of a table starts with no line below and holds no slash, so that its file
and that of its description are neighbours, and the description, which is written
last, leaves the table as it is.

## Main results

* `Export.gives_write_iff`: when a table is written to a file, and what the file holds then.
* `Job.Gives.stat?_of_exportTable`: what the first file of an export holds.
* `exportTable_reads_back`: an exported table is read back.
-/

namespace Delimited

namespace Export

variable {store : TableStore} {output : Config.Output} {t : Table} {p q : Path}
  {files files' : FileTree} {w w' : World}

theorem writeText_eq_none_iff :
    writeText output t p files = (files', none) ↔
      ∃ s made bytes, text output t = .ok s ∧ put p (.file []) files = .ok made ∧
        encode output.encoding s = .ok bytes ∧ put p (.file bytes) made = .ok files' := by
  unfold writeText
  split
  · simp [*]
  · split
    · simp [*]
    · split
      · simp [*]
      · split <;> simp [*]

theorem put_eq_ok_iff {e : Entry} : put p e files = .ok files' ↔ files.store p e = .ok files' := by
  unfold put
  cases files.store p e <;> simp [Except.mapError]

theorem outcome_finish (file : String) (format : Format) (files : FileTree)
    (cause : Option ExportCause) (w : World) :
    (finish file format (files, cause)).outcome w =
      (match cause with
        | none => .ok ()
        | some cause => .error (.notExported file format cause), { w with files }) := by
  cases cause <;> rfl

theorem gives_finish_iff {file : String} {format : Format} {u : Unit}
    {written : FileTree × Option ExportCause} :
    (finish file format written).Gives w u w' ↔
      written.2 = none ∧ { w with files := written.1 } = w' := by
  obtain ⟨files, cause⟩ := written
  rw [Job.Gives, outcome_finish]
  cases cause <;> simp

/-- A table is written as text when the text is stored, after an empty file was. -/
theorem gives_write_iff {u : Unit} (hformat : output.format = .csv) :
    (write store output t p).Gives w u w' ↔ ∃ s made bytes files, text output t = .ok s ∧
      w.files.store p (.file []) = .ok made ∧ encode output.encoding s = .ok bytes ∧
      made.store p (.file bytes) = .ok files ∧ { w with files } = w' := by
  simp only [write, hformat, Job.gives_bind_iff, Job.gives_files_iff, gives_finish_iff]
  constructor
  · rintro ⟨_, _, ⟨rfl, rfl⟩, hcause, rfl⟩
    obtain ⟨s, made, bytes, hs, hmade, hbytes, hfiles⟩ :=
      writeText_eq_none_iff.mp (Prod.ext rfl hcause)
    exact ⟨s, made, bytes, _, hs, put_eq_ok_iff.mp hmade, hbytes, put_eq_ok_iff.mp hfiles, rfl⟩
  · rintro ⟨s, made, bytes, files, hs, hmade, hbytes, hfiles, rfl⟩
    have hwritten : writeText output t p w.files = (files, none) :=
      writeText_eq_none_iff.mpr
        ⟨s, made, bytes, hs, put_eq_ok_iff.mpr hmade, hbytes, put_eq_ok_iff.mpr hfiles⟩
    refine ⟨_, _, ⟨rfl, rfl⟩, ?_, ?_⟩ <;> rw [hwritten]

/-- A table is written where no directory stands. -/
theorem exists_gives_write {l : Location} {s : String} {bytes : List UInt8}
    (hformat : output.format = .csv) (hs : text output t = .ok s)
    (hbytes : encode output.encoding s = .ok bytes) (hlocate : w.files.locate p = .ok l)
    (hdir : w.files.get? l ≠ some .directory) : ∃ w', (write store output t p).Gives w () w' := by
  have hstore : w.files.store p (.file []) = .ok (w.files.put l (.file [])) :=
    FileTree.store_eq_ok_iff.mpr ⟨l, hlocate, hdir, rfl⟩
  have hagain : (w.files.put l (.file [])).store p (.file bytes) =
      .ok ((w.files.put l (.file [])).put l (.file bytes)) := by
    refine FileTree.store_eq_ok_iff.mpr
      ⟨l, (FileTree.keepsDirs_of_store hstore).locate hlocate, ?_, rfl⟩
    rw [FileTree.get?_put_self (FileTree.ne_nil_of_get?_ne hdir)]
    simp
  exact ⟨_, (gives_write_iff hformat).mpr ⟨s, _, bytes, _, hs, hstore, hbytes, hagain, rfl⟩⟩

/-- The neighbours of a file that is written stay as they are. -/
theorem stat?_of_write_sibling {u : Unit} {name name' : String} {f : Entry} (hne : name ≠ name')
    (hname : name ≠ "..") (hname' : name' ≠ "..") (hformat : output.format = .csv)
    (hstat : w.files.stat? { p with parts := p.parts ++ [name] } = some f)
    (h : (write store output t { p with parts := p.parts ++ [name'] }).Gives w u w') :
    w'.files.stat? { p with parts := p.parts ++ [name] } = some f := by
  obtain ⟨s, made, bytes, files, -, hmade, -, hfilled, rfl⟩ := (gives_write_iff hformat).mp h
  exact FileTree.stat?_of_store_sibling hne hname hname'
    (FileTree.stat?_of_store_sibling hne hname hname' hstat hmade) hfilled

theorem text_eq_ok_iff {s : String} :
    text output t = .ok s ↔
      ∃ b, output.terminator = .known b ∧ formatDocument t.records b = .ok s := by
  unfold text
  cases output.terminator with
  | known b => cases hs : formatDocument t.records b <;> simp [hs, Except.mapError]
  | other name => simp

/-- The text of a table with columns is read as the records of the table. -/
theorem parseDocument_of_text_eq {s : String} (hcolumns : t.columns ≠ [])
    (h : text output t = .ok s) :
    ∃ v, parseDocument (.ofString s) = .ok (.success v t.records) := by
  obtain ⟨b, -, hs⟩ := text_eq_ok_iff.mp h
  obtain ⟨s', hs', hparse⟩ := exists_formatDocument_eq b true t.records_ne_nil
    (List.length_pos_iff.mpr hcolumns) fun _ => Table.length_of_mem_records
  obtain rfl : s = s' := Except.ok.inj (hs.symm.trans hs')
  exact ⟨_, hparse⟩

end Export

/-! ### The names of tables -/

section TableName

variable {name ending : String}

/-- The name of a table is not empty, starts with no line below, and holds no slash. -/
theorem of_tableNameProblem?_eq_none (h : Config.tableNameProblem? name = none) :
    name ≠ "" ∧ name.toList.head? ≠ some '_' ∧ '/' ∉ name.toList := by
  simp only [Config.tableNameProblem?] at h
  split at h
  · cases h
  · rename_i hblank
    split at h
    · cases h
    · rename_i hline
      split at h
      · cases h
      · rename_i hslash
        refine ⟨?_, hline, fun hmem => hslash ?_⟩
        · rintro rfl
          exact hblank rfl
        · exact List.any_eq_true.mpr ⟨'/', hmem, rfl⟩

/-- A name with an ending after it is one name of a path, which leads on. -/
theorem isName_append (hname : name ≠ "") (hslash : '/' ∉ name.toList)
    (hslash' : '/' ∉ ending.toList) (hlong : 2 ≤ ending.length) :
    Path.IsName (name ++ ending) ∧ name ++ ending ≠ ".." := by
  have hone : 1 ≤ name.length := by
    rw [← String.length_toList]
    exact List.length_pos_iff.mpr (by simpa using hname)
  have hthree : 3 ≤ (name ++ ending).length := by
    rw [String.length_append]
    omega
  refine ⟨⟨?_, ?_, by simp [hslash, hslash']⟩, ?_⟩
  -- What has three characters is neither nothing nor made of dots alone.
  all_goals
    intro heq
    rw [heq] at hthree
    contradiction

theorem append_ne_description (h : name.toList.head? ≠ some '_') :
    name ++ ending ≠ descriptionName ++ ending := by
  intro heq
  have hlists := congrArg String.toList heq
  rw [String.toList_append, String.toList_append, List.append_cancel_right_eq] at hlists
  rw [hlists] at h
  exact h rfl

end TableName

/-! ### Exports -/

variable {store : TableStore} {name : String} {t : Table} {description : Option Table}
  {output : Config.Output} {w w' : World} {written : List String}

/-- The paths of the files of an export as delimited text, and what the first of
them holds. -/
theorem Job.Gives.stat?_of_exportTable (hname : Config.tableNameProblem? name = none)
    (hformat : output.format = .csv)
    (h : (exportTable store name t description output).Gives w written w') :
    ∃ s bytes, Export.text output t = .ok s ∧ Export.encode output.encoding s = .ok bytes ∧
      written.head? = some (toString ((Path.ofString output.dir).join (name ++ ".csv"))) ∧
      w'.files.stat? ((Path.ofString output.dir).join (name ++ ".csv")) = some (.file bytes) := by
  obtain ⟨hempty, hline, hslash⟩ := of_tableNameProblem?_eq_none hname
  have ⟨hisName, hdots⟩ : Path.IsName (name ++ ".csv") ∧ name ++ ".csv" ≠ ".." :=
    isName_append hempty hslash (by decide) (by decide)
  have hending : "." ++ Format.csv.name = ".csv" := rfl
  simp only [exportTable, exportInto, hformat, hending, gives_bind_iff, gives_ensureDirs_iff] at h
  obtain ⟨_, _, ⟨made, -, rfl⟩, _, w₁, hwrite, _, w₂, hinfo, hrest⟩ := h
  obtain ⟨s, _, bytes, files, hs, -, hbytes, hstore, rfl⟩ :=
    (Export.gives_write_iff hformat).mp hwrite
  have hfiles := (isQuery_info _ _).files_eq hinfo
  have hstat : w₂.files.stat? ((Path.ofString output.dir).join (name ++ ".csv")) =
      some (.file bytes) := by
    rw [hfiles]
    exact FileTree.stat?_of_store hstore
  refine ⟨s, bytes, hs, hbytes, ?_⟩
  cases description with
  | none =>
    obtain ⟨rfl, rfl⟩ := gives_pure_iff.mp hrest
    exact ⟨rfl, hstat⟩
  | some d =>
    simp only [gives_bind_iff, gives_pure_iff] at hrest
    obtain ⟨_, w₃, hwrite', _, w₄, hinfo', rfl, rfl⟩ := hrest
    refine ⟨rfl, ?_⟩
    rw [(isQuery_info _ _).files_eq hinfo']
    have hisName' : Path.IsName (descriptionName ++ ".csv") := by
      refine ⟨?_, ?_, ?_⟩ <;> decide
    rw [Path.join_eq hisName] at hstat ⊢
    rw [Path.join_eq hisName'] at hwrite'
    exact Export.stat?_of_write_sibling (append_ne_description hline) hdots (by decide) hformat
      hstat hwrite'

/-- A table is exported on its own where its directory can be made and no directory
stands in its place. -/
theorem exists_gives_exportTable {made : FileTree} {l : Location} {s : String}
    {bytes : List UInt8} (hformat : output.format = .csv) (hs : Export.text output t = .ok s)
    (hbytes : Export.encode output.encoding s = .ok bytes)
    (hmade : w.files.makeDirs (.ofString output.dir) = .ok made)
    (hlocate : made.locate ((Path.ofString output.dir).join (name ++ ".csv")) = .ok l)
    (hdir : made.get? l ≠ some .directory) :
    ∃ w', (exportTable store name t none output).Gives w
      [toString ((Path.ofString output.dir).join (name ++ ".csv"))] w' := by
  have hending : "." ++ Format.csv.name = ".csv" := rfl
  obtain ⟨w', hwrite⟩ :
      ∃ w', (Export.write store output t _).Gives { w with files := made } () w' :=
    Export.exists_gives_write hformat hs hbytes hlocate hdir
  simp only [exportTable, exportInto, hformat, hending, Job.gives_bind_iff,
    Job.gives_ensureDirs_iff, Job.info, Job.report, Job.gives_modify_iff, Job.gives_pure_iff]
  exact ⟨_, (), _, ⟨made, hmade, rfl⟩, (), w', hwrite, (), _, rfl, trivial, rfl⟩

/-- What was encoded in UTF-8, with or without a byte order mark, is decoded. -/
theorem exists_decode_eq {encoding s : String} {bytes : List UInt8}
    (hencoding : encoding ∈ ["utf-8", "utf-8-sig"])
    (h : Export.encode encoding s = .ok bytes) :
    ∃ e, Encoding.ofName? encoding = some e ∧ e.decode bytes = .ok s := by
  obtain ⟨e, hname, hutf⟩ : ∃ e, Encoding.ofName? encoding = some e ∧
      (e = .utf8 ∨ e = .utf8Marked) := by
    simp only [List.mem_cons, List.not_mem_nil, or_false] at hencoding
    rcases hencoding with rfl | rfl
    · exact ⟨.utf8, by decide, .inl rfl⟩
    · exact ⟨.utf8Marked, by decide, .inr rfl⟩
  obtain ⟨bytes', hencode, hdecode⟩ := Encoding.exists_encode_eq_and_decode_eq hutf s
  obtain rfl : bytes' = bytes := by simpa [Export.encode, hname, hencode, Except.mapError] using h
  exact ⟨e, hname, hdecode⟩

/-- The first file of an export in UTF-8 is read back as the records of the table. -/
theorem Job.Gives.parseFile_of_exportTable (hcolumns : t.columns ≠ [])
    (hname : Config.tableNameProblem? name = none) (hformat : output.format = .csv)
    (hencoding : output.encoding ∈ ["utf-8", "utf-8-sig"])
    (h : (exportTable store name t description output).Gives w written w') :
    ∃ path, written.head? = some path ∧
      path = toString ((Path.ofString output.dir).join (name ++ ".csv")) ∧
      ∃ w'', (parseFile path output.encoding).Gives w' t.records w'' := by
  obtain ⟨s, bytes, hs, hbytes, hhead, hstat⟩ := h.stat?_of_exportTable hname hformat
  obtain ⟨v, hparse⟩ := Export.parseDocument_of_text_eq hcolumns hs
  obtain ⟨e, he, hdecode⟩ := exists_decode_eq hencoding hbytes
  refine ⟨_, hhead, rfl, ?_⟩
  -- The path that was written to is read as the same path.
  have hisName : Path.IsName (name ++ ".csv") := by
    obtain ⟨hempty, -, hslash⟩ := of_tableNameProblem?_eq_none hname
    exact (isName_append hempty hslash (by decide) (by decide)).1
  have hpath := Path.ofString_toString ((Path.wellFormed_ofString output.dir).join hisName)
  rw [← hpath] at hstat
  obtain ⟨w'', hgives, -⟩ := gives_parseFile hstat he hdecode hparse
  exact ⟨w'', hgives⟩

/-- Whatever is exported as delimited text in UTF-8, with or without a byte order
mark, is read back: the file of the table is read as its names and rows, in which
missing numbers are empty fields. -/
theorem exportTable_reads_back (hcolumns : t.columns ≠ [])
    (hname : Config.tableNameProblem? name = none) (hformat : output.format = .csv)
    (hencoding : output.encoding ∈ ["utf-8", "utf-8-sig"])
    (h : (exportTable store name t description output).Gives w written w') :
    (∃ path others w'', written = path :: others ∧
      path = toString ((Path.ofString output.dir).join (name ++ ".csv")) ∧
      (parseFile path output.encoding).Gives w' t.records w'') ∧
    ∀ i r column cells, t.columns[i]? = some ⟨column, .real cells⟩ → r < t.rows →
      cells[r]? = some none → t.records.field? (r + 1) i = some "" := by
  obtain ⟨path, hhead, hpath, w'', hgives⟩ :=
    h.parseFile_of_exportTable hcolumns hname hformat hencoding
  obtain ⟨others, rfl⟩ := List.head?_eq_some_iff.mp hhead
  exact ⟨⟨path, others, w'', rfl, hpath, hgives⟩, fun _ _ _ _ => Table.field?_records_missing⟩

/-- A table with a name that starts with a byte order mark, with blank and special
cells and with a missing number. -/
def markedTable : Table :=
  { rows := 2
    columns := [⟨"\uFEFFa", .untyped ["", "x,\"y\r\n"]⟩, ⟨"", .integer [1, -2]⟩,
      ⟨"p", .real [none, some (.ofInt 5)]⟩] }

/-- The file of `markedTable` is read back after its description was written. -/
theorem exportTable_reads_back_markedTable :
    ∃ w' w'', (exportTable .plain "a.b" markedTable (some markedTable)
        { dir := "out/./x", format := .csv, terminator := .known .lf }).Gives {}
          ["out/x/a.b.csv", "out/x/_meta.csv"] w' ∧
      (parseFile "out/x/a.b.csv" "utf-8-sig").Gives w'
        [["\uFEFFa", "", "p"], ["", "1", ""], ["x,\"y\r\n", "-2", "5.0"]] w'' := by
  have h := Job.gives_of_outcome (x := exportTable .plain "a.b" markedTable (some markedTable)
    { dir := "out/./x", format := .csv, terminator := .known .lf }) (w := {})
    (a := ["out/x/a.b.csv", "out/x/_meta.csv"]) (by decide +kernel)
  obtain ⟨⟨path, others, w'', hwritten, -, hparse⟩, -⟩ :=
    exportTable_reads_back (by decide) (by decide) rfl (by decide) h
  obtain ⟨rfl, rfl⟩ := List.cons.inj hwritten
  have hrecords : markedTable.records =
      [["\uFEFFa", "", "p"], ["", "1", ""], ["x,\"y\r\n", "-2", "5.0"]] := by decide +kernel
  exact ⟨_, w'', h, hrecords ▸ hparse⟩

end Delimited
