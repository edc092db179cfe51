import Delimited.Conversion.Workflow
import Delimited.Proofs.Config.File
import Delimited.Proofs.Conversion.Export
import Delimited.Proofs.Conversion.Transform

/-!
# Conversions that lose nothing

A conversion to delimited text without number columns writes the records of its
source, below the names of the columns if the source has none, and they are read
back as they were.

## Main results

* `Job.Gives.of_runPipeline`: the steps of a conversion of some records.
* `convert_keeps_records`: what was converted is read back.
-/

namespace Delimited

variable {env : Environment} {configPath path : String} {c : Config} {d : Document}
  {written : List String} {w w' w₁ w₂ : World}

/-! ### Descriptions -/

theorem isQuery_describe (now : String) (c : Config) (t : Transformed) (recordCount : Int) :
    (describe now c t recordCount).IsQuery := by
  have hdigest : (Description.digestOf c.source.inputPath).IsQuery := by
    refine Job.isQuery_files.bind fun files => ?_
    split
    · exact Job.isQuery_pure _
    · exact (Job.isQuery_report _ _ _).bind fun _ => Job.isQuery_pure _
    · exact Job.isQuery_throw _
  exact hdigest.bind fun _ => (Job.isQuery_info _ _).bind fun _ => Job.isQuery_pure _

/-! ### Conversions -/

/-- A conversion of some records makes their table and exports it, with or without
a description. -/
theorem Job.Gives.of_runPipeline (h : (runPipeline env c d).Gives w written w') :
    ∃ t w₁ w₂ w₃ description, (transform env.numbers c d).Gives w t w₁ ∧
      (exportTable env.tables c.table.tableName t.table description c.output).Gives w₂ written w₃ ∧
      w₂.files = w.files ∧ w'.files = w₃.files := by
  simp only [runPipeline, gives_bind_iff] at h
  obtain ⟨t, w₁, htransform, h⟩ := h
  have hfiles := (isQuery_transform _ c d).files_eq htransform
  cases hmeta : c.output.writeMeta with
  | false =>
    simp only [hmeta, Bool.false_eq_true, if_false, gives_bind_iff, gives_pure_iff] at h
    obtain ⟨description, _, ⟨rfl, rfl⟩, _, w₃, hexport, _, w₄, hinfo, rfl, rfl⟩ := h
    exact ⟨t, w₁, w₁, w₃, none, htransform, hexport, hfiles, (isQuery_info _ _).files_eq hinfo⟩
  | true =>
    simp only [hmeta, if_true, gives_bind_iff, gives_pure_iff] at h
    obtain ⟨description, w₂, hdescribe, _, _, ⟨rfl, rfl⟩, _, w₃, hexport, _, w₄, hinfo, rfl, rfl⟩ :=
      h
    refine ⟨t, w₁, w₂, w₃, some description, htransform, hexport, ?_,
      (isQuery_info _ _).files_eq hinfo⟩
    rw [(isQuery_describe _ _ _ _).files_eq hdescribe, hfiles]

/-- Records are converted when their table is made and exported. -/
theorem exists_gives_runPipeline {t : Transformed} (hmeta : c.output.writeMeta = false)
    (htransform : (transform env.numbers c d).Gives w t w₁)
    (hexport : ∀ v : World, v.files = w.files →
      ∃ v', (exportTable env.tables c.table.tableName t.table none c.output).Gives v written v') :
    ∃ w', (runPipeline env c d).Gives w written w' := by
  obtain ⟨w₂, hwrite⟩ := hexport w₁ ((isQuery_transform _ c d).files_eq htransform)
  simp only [runPipeline, hmeta, Bool.false_eq_true, if_false, Job.gives_bind_iff, Job.info,
    Job.report, Job.gives_modify_iff, Job.gives_pure_iff]
  exact ⟨_, t, w₁, htransform, none, _, ⟨rfl, rfl⟩, written, w₂, hwrite, (), _, rfl, rfl, rfl⟩

/-- A conversion loads its settings, reads its source and converts the records. -/
theorem Job.Gives.of_convert (h : (convert env configPath).Gives w written w') :
    ∃ c d v v₁ v₂, (Config.load configPath).Gives v c v₁ ∧
      (parseFile c.source.inputPath c.source.encoding).Gives v₁ d v₂ ∧
      (runPipeline env c d).Gives v₂ written w' ∧ v.files = w.files := by
  simp only [convert, gives_bind_iff] at h
  obtain ⟨_, v, hinfo, c, v₁, hload, d, v₂, hsource, hrun⟩ := h
  exact ⟨c, d, v, v₁, v₂, hload, hsource, hrun, (isQuery_info _ _).files_eq hinfo⟩

/-- A conversion succeeds when its settings are loaded, its source is read and its
records are converted. -/
theorem exists_gives_convert (hload : (Config.load configPath).Gives w c w₁)
    (hsource : (parseFile c.source.inputPath c.source.encoding).Gives w₁ d w₂)
    (hrun : ∀ v : World, v.files = w.files → ∃ v', (runPipeline env c d).Gives v written v') :
    ∃ w', (convert env configPath).Gives w written w' := by
  -- The log has one entry more than in the hypotheses, which changes nothing.
  let v : World := { w with log := w.log ++
    [⟨.info, workflowComponent, "convert() -- config_path=" ++ configPath⟩] }
  have hfiles := (Config.isQuery_load configPath).files_eq hload
  obtain ⟨v₁, hload'⟩ := (Config.isQuery_load configPath).exists_gives (v := v) hload rfl
  have hfiles' : v₁.files = v.files := (Config.isQuery_load configPath).files_eq hload'
  obtain ⟨v₂, hsource'⟩ := (isQuery_parseFile _ _).exists_gives hsource (hfiles.trans hfiles'.symm)
  obtain ⟨w', hrun'⟩ := hrun v₂ (((isQuery_parseFile _ _).files_eq hsource').trans hfiles')
  simp only [convert, Job.gives_bind_iff, Job.info, Job.report, Job.gives_modify_iff]
  exact ⟨w', (), v, rfl, c, v₁, hload', d, v₂, hsource', hrun'⟩

/-- Records of one width that are converted to delimited text in UTF-8 without
number columns are read back. -/
theorem Job.Gives.parseFile_of_runPipeline {n : Nat} (hn : 1 ≤ n)
    (hwidth : ∀ r ∈ d, r.length = n) (hname : Config.tableNameProblem? c.table.tableName = none)
    (hformat : c.output.format = .csv) (hinfer : c.table.inferNumbers = false)
    (hencoding : c.output.encoding ∈ ["utf-8", "utf-8-sig"])
    (h : (runPipeline env c d).Gives w written w') :
    ∃ path others w'', written = path :: others ∧
      (parseFile path c.output.encoding).Gives w'
        (if c.table.header then d else defaultNames (d.headD []).length :: d) w'' := by
  obtain ⟨t, _, w₁, w₂, description, htransform, hexport, -, hfiles⟩ := h.of_runPipeline
  obtain ⟨-, table, htable, rfl⟩ := exists_gives_transform_iff.mp ⟨_, htransform⟩
  have htyped : (Transform.typed env.numbers c table).table = table := by
    simp [Transform.typed, hinfer]
  rw [htyped] at hexport
  have hcolumns : table.columns ≠ [] :=
    List.length_pos_iff.mp (Table.one_le_length_columns_of_ofDocument hn hwidth htable)
  obtain ⟨path, hhead, -, w₃, hparse⟩ :=
    hexport.parseFile_of_exportTable hcolumns hname hformat hencoding
  obtain ⟨others, rfl⟩ := List.head?_eq_some_iff.mp hhead
  rw [Table.records_of_ofDocument htable] at hparse
  obtain ⟨w'', hgives⟩ := (isQuery_parseFile _ _).exists_gives hparse hfiles.symm
  exact ⟨path, others, w'', rfl, hgives⟩

/-- A conversion to delimited text in UTF-8 without number columns loses and alters
nothing: its first file is read back as the records of the source, below the names
of the columns if the source does not name them.

Settings files with anchors, tags, directives, complex keys or merge keys are not loaded,
and sources in an encoding other than the known ones are not parsed, so nothing is said of
them. -/
theorem convert_keeps_records (hload : (Config.load configPath).Gives w c w₁)
    (hsource : (parseFile c.source.inputPath c.source.encoding).Gives w₁ d w₂)
    (hformat : c.output.format = .csv) (hinfer : c.table.inferNumbers = false)
    (hencoding : c.output.encoding ∈ ["utf-8", "utf-8-sig"])
    (h : (convert env configPath).Gives w written w') :
    ∃ path others w'', written = path :: others ∧
      (parseFile path c.output.encoding).Gives w'
        (if c.table.header then d else defaultNames (d.headD []).length :: d) w'' := by
  -- The settings and the records of the run are those of the hypotheses, since
  -- nothing but the log has changed before them.
  obtain ⟨c', d', v, v₁, v₂, hload', hsource', hrun, hv⟩ := h.of_convert
  obtain rfl : c = c' := (Config.isQuery_load configPath).eq_of_gives hload hload' hv.symm
  have hv₁ : w₁.files = v₁.files := by
    rw [(Config.isQuery_load configPath).files_eq hload, ← hv,
      (Config.isQuery_load configPath).files_eq hload']
  obtain rfl : d = d' := (isQuery_parseFile _ _).eq_of_gives hsource hsource' hv₁
  obtain ⟨text, view, hparse⟩ := hsource.exists_parseDocument
  obtain ⟨-, n, hn, hwidth⟩ := exists_width_of_parseDocument hparse
  exact hrun.parseFile_of_runPipeline hn hwidth (Config.valid_of_gives_load hload).tableName
    hformat hinfer hencoding

/-- Settings for a source without names. -/
def unnamedConfig : Config :=
  { source := { inputPath := "a.csv" }
    table := { header := false, inferNumbers := false }
    output := { dir := ".", format := .csv, writeMeta := false, encoding := "utf-8" } }

/-- A settings file next to a source with a line feed between quotes, and blank cells. -/
def unnamedFiles : FileTree :=
  ⟨[(["c.yaml"], .file (Utf8.encode unnamedConfig.render)),
    (["a.csv"], .file [0x22, 0x0A, 0x22, 0x2C, 0x0A, 0x2C, 0x20])]⟩

/-- A source without names is converted, and is read back below the names it was given. -/
theorem convert_keeps_records_unnamed :
    ∃ w' w'', (convert (.plain "") "c.yaml").Gives { files := unnamedFiles } ["default.csv"] w' ∧
      (parseFile "default.csv" "utf-8").Gives w'
        [["column_1", "column_2"], ["\n", ""], ["", " "]] w'' := by
  -- The settings are loaded.
  have hvalid : unnamedConfig.Valid := ⟨by decide +kernel, .inl rfl, .crlf, rfl⟩
  have hsettings : unnamedFiles.stat? (.ofString "c.yaml") =
      some (.file (Utf8.encode unnamedConfig.render)) :=
    (FileTree.stat?_eq_get? _ "c.yaml" (by decide +kernel) (by decide)).trans
      (by simp [unnamedFiles, FileTree.get?])
  obtain ⟨w₁, hload⟩ : ∃ w₁,
      (Config.load "c.yaml").Gives { files := unnamedFiles } unnamedConfig w₁ :=
    (Config.exists_gives_load_iff_of_stat? hvalid hsettings).mpr (by decide +kernel)
  have hw₁ := (Config.isQuery_load "c.yaml").files_eq hload
  -- The source is read.
  have hbytes : w₁.files.stat? (.ofString "a.csv") =
      some (.file [0x22, 0x0A, 0x22, 0x2C, 0x0A, 0x2C, 0x20]) := by
    rw [hw₁]
    exact (FileTree.stat?_eq_get? _ "a.csv" (by decide +kernel) (by decide)).trans
      (by simp [unnamedFiles, FileTree.get?, List.lookup_cons])
  have hencoding : Encoding.ofName? "utf-8-sig" = some .utf8Marked := by decide
  have hdecode : Encoding.utf8Marked.decode [0x22, 0x0A, 0x22, 0x2C, 0x0A, 0x2C, 0x20] =
      .ok "\"\n\",\n, " := by decide +kernel
  have htext : parseText "\"\n\",\n, " none = .ok [["\n", ""], ["", " "]] := by decide +kernel
  obtain ⟨v, hparse⟩ := parseText_eq_ok_iff.mp htext
  obtain ⟨w₂, hsource, hw₂⟩ := gives_parseFile hbytes hencoding hdecode hparse
  -- The table is made and written.
  let table : Table :=
    { rows := 2
      columns := [⟨"column_1", .untyped ["\n", ""]⟩, ⟨"column_2", .untyped ["", " "]⟩] }
  have htable : Table.ofDocument false [["\n", ""], ["", " "]] = .ok table := by decide +kernel
  have hs : Export.text unnamedConfig.output table =
      .ok "column_1,column_2\r\n\"\n\",\r\n, \r\n" := by decide +kernel
  obtain ⟨bytes, hencode⟩ : ∃ bytes, Export.encode "utf-8"
      "column_1,column_2\r\n\"\n\",\r\n, \r\n" = .ok bytes := ⟨_, rfl⟩
  have hdirs : unnamedFiles.makeDirs (.ofString ".") = .ok unnamedFiles := by
    have hpath : Path.ofString "." = ⟨"", []⟩ := by decide +kernel
    rw [hpath]
    rfl
  have htarget : unnamedFiles.locate ((Path.ofString ".").join ("default" ++ ".csv")) =
      .ok ["default.csv"] := by
    have hpath : (Path.ofString ".").join ("default" ++ ".csv") = ⟨"", ["default.csv"]⟩ := by
      decide +kernel
    rw [hpath]
    exact FileTree.locate_name _ (by decide)
  have hexport (v : World) (hv : v.files = unnamedFiles) :
      ∃ v', (exportTable .plain "default" table none unnamedConfig.output).Gives v
        ["default.csv"] v' := by
    have hpath : toString ((Path.ofString ".").join ("default" ++ ".csv")) = "default.csv" := by
      decide +kernel
    rw [← hpath]
    exact exists_gives_exportTable rfl hs hencode (hv ▸ hdirs) htarget
      (by simp [unnamedFiles, FileTree.get?, List.lookup_cons])
  have hrun (v : World) (hv : v.files = unnamedFiles) :
      ∃ v', (runPipeline (.plain "") unnamedConfig [["\n", ""], ["", " "]]).Gives v
        ["default.csv"] v' := by
    obtain ⟨v₁, htransform⟩ : ∃ v₁, (transform Numeral.read unnamedConfig
        [["\n", ""], ["", " "]]).Gives v (Transform.typed Numeral.read unnamedConfig table) v₁ :=
      exists_gives_transform_iff.mpr ⟨fun h => Bool.noConfusion h, table, htable, rfl⟩
    exact exists_gives_runPipeline rfl htransform fun v' hv' => hexport v' (hv'.trans hv)
  obtain ⟨w', hconvert⟩ := exists_gives_convert hload hsource hrun
  obtain ⟨path, others, w'', hwritten, hgives⟩ :=
    convert_keeps_records hload hsource rfl rfl (by decide) hconvert
  obtain ⟨rfl, rfl⟩ := List.cons.inj hwritten
  exact ⟨w', w'', hconvert, hgives⟩

end Delimited
