import Delimited.Proofs.Batch.Effect
import Delimited.Proofs.Conversion.Fixpoint
import Delimited.Proofs.Conversion.Repetition

/-!
# The outputs of a batch

The settings and the output of a file are named after its stem. A file whose stem is
its own has a part of the files to itself, which no other file of the batch touches.
So if all stems are different, and none is another one with the ending of a settings
file, every file is converted as if it were alone, and its table stands in its directory
when the batch is over. Stems are all that is looked at: of two files with one stem the
second is never read.

## Main definitions

* `FileTree.Within`: nothing changes outside some locations.
* `Batch.settings`: the settings that are made for a file.
* `Batch.Owns`: the locations of the settings and the output of a file.
* `Batch.content?`: what is stored for a file with some records.
* `Batch.Stored`: the table of some records stands in the directory of a file.

## Main results

* `Batch.not_owns_of_owns`: different stems own different locations.
* `Batch.exists_turns_convertFile`: a file with its locations free is converted.
* `Batch.exists_turns_convertFiles`: and so are several, each with its own records.
-/

namespace Delimited

/-! ### Changes within some locations -/

namespace FileTree

variable {own own' : Location → Prop} {t u v : FileTree} {l : Location} {e : Entry}

/-- No directory is gone, and nothing changes but at the locations in `own`. -/
structure Within (own : Location → Prop) (t u : FileTree) : Prop where
  /-- No directory is gone. -/
  keepsDirs : KeepsDirs t u
  /-- What does not change. -/
  get?_eq : ∀ l, ¬ own l → u.get? l = t.get? l

namespace Within

theorem refl (own : Location → Prop) (t : FileTree) : Within own t t := ⟨.refl t, fun _ _ => rfl⟩

theorem trans (h : Within own t u) (h' : Within own u v) : Within own t v :=
  ⟨h.keepsDirs.trans h'.keepsDirs, fun l hl => (h'.get?_eq l hl).trans (h.get?_eq l hl)⟩

theorem mono (h : Within own t u) (hsub : ∀ l, own l → own' l) : Within own' t u :=
  ⟨h.keepsDirs, fun l hl => h.get?_eq l fun hown => hl (hsub l hown)⟩

theorem put (h : Within own t u) (hl : own l) (hdir : u.get? l ≠ some .directory) (e : Entry) :
    Within own t (u.put l e) := by
  refine h.trans ⟨keepsDirs_put hdir, fun m hm => get?_put_of_ne (ne_nil_of_get?_ne hdir) ?_⟩
  rintro rfl
  exact hm hl

/-- Files outside are read as before. -/
theorem read_eq (h : Within own t u) (hown : ∀ l e, own l → t.get? l = some e → e = .directory)
    {p : Path} {bytes : List UInt8} (hread : t.read p = .ok bytes) : u.read p = .ok bytes := by
  obtain ⟨l, e, hlocate, he, hbytes⟩ := read_eq_ok_iff.mp hread
  have hout : ¬ own l := by
    intro hl
    obtain rfl := hown l e hl he
    cases hbytes
  exact read_eq_ok_iff.mpr ⟨l, e, h.keepsDirs.locate hlocate, (h.get?_eq l hout).trans he, hbytes⟩

end Within

end FileTree

open FileTree (Within)

variable {env : Environment} {asText : Bool} {f g : String} {d : Document} {t u : FileTree}
  {l : Location}

/-- Records are read as before from a file outside. -/
theorem turns_parseFile_of_within {own : Location → Prop} (h : Within own t u)
    (hown : ∀ l e, own l → t.get? l = some e → e = .directory)
    (hsource : (parseFile f).Turns t d t) : (parseFile f).Turns u d u := by
  obtain ⟨bytes, e, text, hread, hrecords⟩ := turns_parseFile_iff.mp hsource
  exact turns_parseFile_iff.mpr ⟨bytes, e, text, h.read_eq hown hread, hrecords⟩

/-- Settings are saved in a directory that is made on demand. -/
theorem turns_save_iff {c : Config} {path : String} :
    (c.save path).Turns t () u ↔ ∃ made, t.makeDirs (Path.ofString path).parent = .ok made ∧
      made.store (.ofString path) (.file (Utf8.encode c.render)) = .ok u := by
  simp only [Job.Turns, Config.save, Job.gives_bind_iff, Job.gives_ensureDirs_iff,
    Job.gives_change_iff, Job.info, Job.report, Job.gives_modify_iff]
  constructor
  · rintro ⟨_, ⟨_, _, ⟨made, hmade, rfl⟩, _, _, ⟨_, hstore, rfl⟩, rfl⟩, rfl⟩
    exact ⟨made, hmade, hstore⟩
  · rintro ⟨made, hmade, hstore⟩
    exact ⟨_, ⟨(), _, ⟨made, hmade, rfl⟩, (), _, ⟨u, hstore, rfl⟩, rfl⟩, rfl⟩

namespace Batch

/-! ### The settings of a file -/

/-- The settings that are made for a file. -/
def settings (asText : Bool) (f : String) : Config :=
  { source := { inputPath := f }
    table := { tableName := Config.tableNameOf f }
    output := { dir := outputDir f, format := if asText then .csv else .parquet } }

theorem valid_settings (asText : Bool) (f : String) : (settings asText f).Valid := by
  refine ⟨Config.tableNameProblem?_tableNameOf f, ?_, .crlf, rfl⟩
  cases asText
  · exact .inr rfl
  · exact .inl rfl

theorem outputRoot_eq : outputRoot = ⟨"", ["outputs"]⟩ := by decide +kernel

theorem wellFormed_outputRoot : outputRoot.WellFormed := Path.wellFormed_ofString "outputs"

/-- The stem of a file that can be read is a name, unless it is a dot. -/
theorem isName_stem_of_turns_parseFile (h : (parseFile f).Turns t d t)
    (hdot : stem f ≠ ".") : Path.IsName (stem f) := by
  rw [stem] at hdot ⊢
  refine Path.isName_stem (Path.wellFormed_ofString f) (fun hparts => ?_) hdot
  obtain ⟨bytes, e, text, hread, -⟩ := turns_parseFile_iff.mp h
  obtain ⟨l, entry, hlocate, hentry, hbytes⟩ := FileTree.read_eq_ok_iff.mp hread
  obtain rfl := FileTree.eq_nil_of_locate hparts hlocate
  -- A directory has no bytes.
  cases hentry
  cases hbytes

theorem ofString_outputDir (h : Path.IsName (stem f)) :
    Path.ofString (outputDir f) = ⟨"", ["outputs", stem f]⟩ := by
  rw [outputDir, Path.ofString_toString (wellFormed_outputRoot.join h), Path.join_eq h,
    outputRoot_eq]
  rfl

theorem isName_settings (h : Path.IsName (stem f)) :
    Path.IsName (stem f ++ ".yaml") ∧ stem f ++ ".yaml" ≠ ".." :=
  isName_append h.1 h.2.2 (by decide) (by decide)

theorem ofString_settingsPath (h : Path.IsName (stem f)) :
    Path.ofString (settingsPath f) = ⟨"", ["outputs", stem f ++ ".yaml"]⟩ := by
  obtain ⟨hname, -⟩ := isName_settings h
  rw [settingsPath, Path.ofString_toString (wellFormed_outputRoot.join hname), Path.join_eq hname,
    outputRoot_eq]
  rfl

/-! ### The locations of a file -/

/-- The locations of the settings of a file and of its output. -/
def Owns (f : String) (l : Location) : Prop :=
  l = ["outputs", stem f ++ ".yaml"] ∨ ["outputs", stem f] <+: l

theorem ne_root_of_owns (h : Owns f l) : l ≠ ["outputs"] := by
  rintro rfl
  rcases h with h | h
  · cases h
  · exact absurd h.length_le (by simp)

/-- Different stems own different locations, unless one of them is the other with the
ending of a settings file. -/
theorem not_owns_of_owns (hstem : stem f ≠ stem g)
    (hending : stem f ≠ stem g ++ ".yaml")
    (hending' : stem g ≠ stem f ++ ".yaml")
    (h : Owns f l) : ¬ Owns g l := by
  have hinitial {a b : String} (hab : ["outputs", a] <+: ["outputs", b]) : a = b := by
    simpa using hab.eq_of_length rfl
  -- Settings are no directory, so only equal locations and equal directories are left.
  rintro (rfl | hg)
  · rcases h with heq | hf
    · exact hstem (by simpa using heq.symm)
    · exact hending (hinitial hf)
  · rcases h with rfl | hf
    · exact hending' (hinitial hg)
    · exact hstem (hinitial (List.prefix_of_prefix_length_le hf hg le_rfl))

/-- What is in the directory of all output, and in a directory in it. -/
theorem locate_outputs {name : String} (hroot : t.get? ["outputs"] = some .directory)
    (hname : name ≠ "..") : t.locate ⟨"", ["outputs", name]⟩ = .ok ["outputs", name] :=
  FileTree.locate_below (FileTree.locate_name t (by decide)) hroot hname

theorem locate_output {name : String} (hroot : t.get? ["outputs"] = some .directory)
    (hdir : t.get? ["outputs", stem f] = some .directory) (hdots : stem f ≠ "..")
    (hname : name ≠ "..") :
    t.locate ⟨"", ["outputs", stem f, name]⟩ = .ok ["outputs", stem f, name] :=
  FileTree.locate_below (locate_outputs hroot hdots) hdir hname

/-! ### Preparing a file -/

theorem locate_outputRoot (t : FileTree) : t.locate outputRoot = .ok ["outputs"] := by
  rw [outputRoot_eq]
  exact FileTree.locate_name t (by decide)

theorem makeDirs_outputRoot_of_get? (hroot : t.get? ["outputs"] = some .directory) :
    t.makeDirs outputRoot = .ok t := by
  apply FileTree.makeDirs_of_hasDir
  rw [FileTree.hasDir, beq_iff_eq]
  exact FileTree.stat?_eq_some_iff.mpr ⟨_, locate_outputRoot t, hroot⟩

/-- The directory of all output is made, unless it is there. -/
theorem exists_makeDirs_outputRoot
    (hroot : t.get? ["outputs"] = none ∨ t.get? ["outputs"] = some .directory) :
    ∃ made, t.makeDirs outputRoot = .ok made ∧ Within (· = ["outputs"]) t made ∧
      made.get? ["outputs"] = some .directory := by
  rcases hroot with hnone | hdir
  · have hwithin : Within (· = ["outputs"]) t (t.put ["outputs"] .directory) :=
      (Within.refl (· = ["outputs"]) t).put rfl (by simp [hnone]) .directory
    exact ⟨_, FileTree.makeDirs_of_get?_eq_none (locate_outputRoot t) hnone, hwithin,
      FileTree.get?_put_self (by simp)⟩
  · exact ⟨t, makeDirs_outputRoot_of_get? hdir, .refl _ t, hdir⟩

/-- Settings are saved below the directory of all output. -/
theorem turns_save_settings {made : FileTree} (hname : Path.IsName (stem f))
    (hmade : t.makeDirs outputRoot = .ok made) (hroot : made.get? ["outputs"] = some .directory)
    (hdir : made.get? ["outputs", stem f ++ ".yaml"] ≠ some .directory) (c : Config) :
    (c.save (settingsPath f)).Turns t ()
      (made.put ["outputs", stem f ++ ".yaml"] (.file (Utf8.encode c.render))) := by
  have hparent : (Path.ofString (settingsPath f)).parent = outputRoot := by
    rw [ofString_settingsPath hname, outputRoot_eq]
    rfl
  refine turns_save_iff.mpr ⟨made, hparent ▸ hmade, FileTree.store_eq_ok_iff.mpr ⟨_, ?_, hdir, rfl⟩⟩
  rw [ofString_settingsPath hname]
  exact locate_outputs hroot (isName_settings hname).2

/-- A first run that only makes settings keeps them. -/
theorem turns_firstRun_request (env : Environment) (hsource : (parseFile f).Turns t d t)
    (hsave : ((settings false f).save (settingsPath f)).Turns t () u) :
    (firstRun env (request f)).Turns t (settings false f) u := by
  -- The first message is already in the log when the source is read.
  let w : World := ⟨t, [⟨.info, workflowComponent,
    "init() -- input_path=" ++ f ++ ", output_dir=" ++ outputDir f⟩]⟩
  have hinitial : Config.initial f (.text (outputDir f)) (.bool true) = .ok (settings false f) :=
    Config.initial_text f (outputDir f)
  obtain ⟨w₁, hparse, hw₁⟩ := (isQuery_parseFile f defaultEncoding).ignoresLog.turns_iff (w := w)
    |>.mp hsource
  obtain ⟨w₂, hsave, hw₂⟩ := (ignoresLog_save (settings false f) (settingsPath f)).turns_iff
    (w := w₁) |>.mp (hw₁ ▸ hsave)
  refine ⟨w₂, ?_, hw₂⟩
  simp only [firstRun, request, Job.gives_bind_iff, Job.gives_ofExcept_iff]
  exact ⟨(), w, Job.gives_modify_iff.mpr rfl, settings false f, w, ⟨hinitial, rfl⟩, d, w₁, hparse,
    (), w₂, hsave, Job.gives_pure_iff.mpr ⟨rfl, rfl⟩⟩

/-- A file is prepared by a settings file. -/
theorem turns_prepare {made : FileTree} (hname : Path.IsName (stem f))
    (hsource : (parseFile f).Turns t d t) (hmade : t.makeDirs outputRoot = .ok made)
    (hroot : made.get? ["outputs"] = some .directory)
    (hdir : made.get? ["outputs", stem f ++ ".yaml"] ≠ some .directory) :
    (prepare env asText f (outputDir f) (settingsPath f)).Turns t ()
      (made.put ["outputs", stem f ++ ".yaml"]
        (.file (Utf8.encode (settings asText f).render))) := by
  have hfirst := turns_firstRun_request env hsource
    (turns_save_settings hname hmade hroot hdir (settings false f))
  have hlater (c : Config) : (if asText then
      Config.save { c with output := { c.output with format := .csv } } (settingsPath f)
      else pure () : Job Unit).IgnoresLog := by
    split
    · exact ignoresLog_save _ _
    · exact (Job.isQuery_pure _).ignoresLog
  refine (Job.turns_bind_iff hlater).mpr ⟨settings false f, _, hfirst, ?_⟩
  cases asText with
  | false => exact Job.turns_pure_iff.mpr ⟨rfl, rfl⟩
  | true =>
    -- The settings are saved once more, over those with the other format.
    have hroot' := FileTree.keepsDirs_put hdir
      (e := .file (Utf8.encode (settings false f).render)) _ hroot
    have hsecond := turns_save_settings hname (makeDirs_outputRoot_of_get? hroot') hroot'
      (by simp [FileTree.get?_put_self]) (settings true f)
    rwa [FileTree.put_put] at hsecond

/-! ### Converting a prepared file -/

/-- The name of the file of the table. -/
def tableFile (asText : Bool) (f : String) : String :=
  (settings asText f).table.tableName ++ ("." ++ (settings asText f).output.format.name)

/-- The name of the file of the description. -/
def descriptionFile (asText : Bool) (f : String) : String :=
  descriptionName ++ ("." ++ (settings asText f).output.format.name)

theorem path_eq (asText : Bool) (hname : Path.IsName (stem f)) :
    Export.path (settings asText f).output (settings asText f).table.tableName =
        ⟨"", ["outputs", stem f, tableFile asText f]⟩ ∧ tableFile asText f ≠ ".." ∧
    Export.path (settings asText f).output descriptionName =
        ⟨"", ["outputs", stem f, descriptionFile asText f]⟩ ∧ descriptionFile asText f ≠ ".." ∧
    tableFile asText f ≠ descriptionFile asText f := by
  have hvalid := valid_settings asText f
  have hdir : Path.ofString (settings asText f).output.dir = ⟨"", ["outputs", stem f]⟩ :=
    ofString_outputDir hname
  obtain ⟨-, hdots, hpath⟩ := hvalid.table_path
  obtain ⟨-, hdots', hpath'⟩ := hvalid.description_path
  obtain ⟨-, hline, -⟩ := of_tableNameProblem?_eq_none hvalid.tableName
  rw [hdir] at hpath hpath'
  exact ⟨hpath, hdots, hpath', hdots', append_ne_description hline⟩

/-- A file is stored in the directory of the output. -/
theorem exists_store_output {name : String} (hroot : t.get? ["outputs"] = some .directory)
    (hdir : t.get? ["outputs", stem f] = some .directory) (hdots : stem f ≠ "..")
    (hname : name ≠ "..") (hfree : t.get? ["outputs", stem f, name] = none) (e : Entry) :
    ∃ u, t.store ⟨"", ["outputs", stem f, name]⟩ e = .ok u ∧
      Within (· = ["outputs", stem f, name]) t u ∧ u.get? ["outputs", stem f, name] = some e := by
  have hnot : t.get? ["outputs", stem f, name] ≠ some .directory := by simp [hfree]
  exact ⟨_, FileTree.store_eq_ok_iff.mpr ⟨_, locate_output hroot hdir hdots hname, hnot, rfl⟩,
    (Within.refl (· = ["outputs", stem f, name]) t).put rfl hnot e,
    FileTree.get?_put_self (by simp)⟩

theorem isHome_output (names : List String) : (⟨"", "outputs" :: names⟩ : Path).isHome = false := by
  simp [Path.isHome]

/-- Two tables are exported to the directory of a file, where nothing stands. -/
theorem exists_turns_exportTable {store : TableStore} {x y : Table} {e e' : Entry}
    (hstore : store.Lawful) (hname : Path.IsName (stem f)) (hdots : stem f ≠ "..")
    (hroot : t.get? ["outputs"] = some .directory)
    (hfree : ∀ l, ["outputs", stem f] <+: l → t.get? l = none)
    (hx : Export.content? store (settings asText f).output x = some e)
    (hy : Export.content? store (settings asText f).output y = some e') :
    ∃ written u, (exportTable store (settings asText f).table.tableName x (some y)
        (settings asText f).output).Turns t written u ∧
      Within (["outputs", stem f] <+: ·) t u ∧ u.get? ["outputs", stem f] = some .directory ∧
      u.get? ["outputs", stem f, tableFile asText f] = some e := by
  obtain ⟨hpath, htable, hpath', hdescription, hne⟩ := path_eq asText hname
  -- The directory is made, and there is nothing in it.
  have hdir : Path.ofString (settings asText f).output.dir = ⟨"", ["outputs", stem f]⟩ :=
    ofString_outputDir hname
  have hnone := hfree ["outputs", stem f] List.prefix_rfl
  have hmade := FileTree.makeDirs_of_get?_eq_none (locate_outputs hroot hdots) hnone
  rw [← hdir] at hmade
  have hwithin : Within (["outputs", stem f] <+: ·) t (t.put ["outputs", stem f] .directory) :=
    (Within.refl (["outputs", stem f] <+: ·) t).put List.prefix_rfl (by simp [hnone]) .directory
  have hdir₁ : (t.put ["outputs", stem f] .directory).get? ["outputs", stem f] = some .directory :=
    FileTree.get?_put_self (by simp)
  have hnone₁ (name : String) :
      (t.put ["outputs", stem f] .directory).get? ["outputs", stem f, name] = none := by
    rw [FileTree.get?_put_of_ne (by simp) (by simp)]
    exact hfree _ ⟨[name], rfl⟩
  generalize t.put ["outputs", stem f] .directory = made at hmade hwithin hdir₁ hnone₁
  have hroot₁ := hwithin.keepsDirs _ hroot
  -- The table is stored in it, and then its description.
  obtain ⟨filled, hstored, hwithin₁, hfound⟩ :=
    exists_store_output hroot₁ hdir₁ hdots htable (hnone₁ _) e
  have hdir₂ := hwithin₁.keepsDirs _ hdir₁
  have hnone₂ : filled.get? ["outputs", stem f, descriptionFile asText f] = none :=
    (hwithin₁.get?_eq _ (by simpa using hne.symm)).trans (hnone₁ _)
  obtain ⟨u, hstored', hwithin₂, -⟩ := exists_store_output (hwithin₁.keepsDirs _ hroot₁) hdir₂ hdots
    hdescription hnone₂ e'
  -- Paths in the directory of all output are taken as they are.
  have hplace {p : Path} {names : List String} (hp : p = ⟨"", "outputs" :: names⟩) :
      Export.place? store (settings asText f).output p = some ⟨"", "outputs" :: names⟩ := by
    rw [hp]
    exact Export.place?_eq_some hstore (.inr (isHome_output names))
  have hbelow (name : String) (l : Location) (hl : l = ["outputs", stem f, name]) :
      ["outputs", stem f] <+: l := ⟨[name], hl.symm⟩
  have hfirst := Export.Writes.stored (hplace hpath) hx hstored
  have hsecond := Export.Writes.stored (hplace hpath') hy hstored'
  refine ⟨_, u, (turns_exportTable_iff hstore).mpr
    ⟨made, hmade, .cons hfirst (.cons hsecond (.nil _)), rfl⟩, ?_, ?_, ?_⟩
  · exact hwithin.trans ((hwithin₁.mono (hbelow _)).trans (hwithin₂.mono (hbelow _)))
  · exact hwithin₂.keepsDirs _ hdir₂
  · exact (hwithin₂.get?_eq _ (by simpa using hne)).trans hfound

theorem names_description (x : Description) (y : Transformed) :
    (x.table y).names = ["table_name", "source_file", "source_hash", "encoding", "column_index",
      "column_name", "dtype", "numeric", "record_count", "header", "converted_at"] := by
  simp only [Table.names, Description.table, List.map_map]
  by_cases h : y.header = [] <;> simp [h, Description.columns]

/-- Tables with different names can be stored by the settings of a file. -/
theorem exists_content?_settings {store : TableStore} (hstore : store.Lawful) (asText : Bool)
    (f : String) {x : Table} (hsome : x.names ≠ [])
    (hnodup : x.names.Nodup) :
    ∃ e, Export.content? store (settings asText f).output x = some e := by
  have hvalid := valid_settings asText f
  refine Export.exists_content? hstore hvalid.format hvalid.terminator ?_
    (fun hcolumns => hsome ?_) hnodup
  · change defaultEncoding ∈ _
    simp [defaultEncoding]
  · rw [Table.names, hcolumns, List.map_nil]

theorem exists_content?_description {store : TableStore} (hstore : store.Lawful) (asText : Bool)
    (f : String) (x : Description) (y : Transformed) :
    ∃ e, Export.content? store (settings asText f).output (x.table y) = some e := by
  have hnames := names_description x y
  exact exists_content?_settings hstore asText f (by rw [hnames]; simp) (by rw [hnames]; decide)

/-- What is exported for records with different names, and what is stored for it. -/
theorem exists_turns_exportOf (hstore : env.tables.Lawful) (asText : Bool)
    (hsource : (parseFile f).Turns t d t) (hnames : (d.headD []).Nodup) :
    ∃ table description e e', Table.ofDocument true d = .ok table ∧
      (exportOf env (settings asText f) d).Turns t
        ((Transform.typed env.numbers (settings asText f) table).table, some description) t ∧
      Export.content? env.tables (settings asText f).output
        (Transform.typed env.numbers (settings asText f) table).table = some e ∧
      Export.content? env.tables (settings asText f).output description = some e' := by
  obtain ⟨bytes, encoding, text, hread, -, -, htext⟩ := turns_parseFile_iff.mp hsource
  obtain ⟨v, hparse⟩ := parseText_eq_ok_iff.mp htext
  obtain ⟨hd, n, hn, hwidth⟩ := exists_width_of_parseDocument hparse
  obtain ⟨first, others, rfl⟩ := List.exists_cons_of_ne_nil hd
  rw [List.headD_cons] at hnames
  have hfirst : first ≠ [] := by
    rintro rfl
    have hzero := hwidth [] (by simp)
    rw [← hzero] at hn
    exact absurd hn (by simp)
  obtain ⟨table, htable⟩ : ∃ table, Table.ofDocument true (first :: others) = .ok table :=
    ⟨_, Table.ofDocument_cons_eq_ok_iff.mpr ⟨fun r hr => by
      rw [hwidth r (by simp [hr]), hwidth first (by simp)], rfl⟩⟩
  have htyped : (Transform.typed env.numbers (settings asText f) table).table.names = first := by
    rw [Transform.names_typed, Table.names_of_ofDocument htable]
    rfl
  obtain ⟨e, he⟩ := exists_content?_settings hstore asText f (by rwa [htyped])
    (by rwa [htyped])
  obtain ⟨e', he'⟩ := exists_content?_description hstore asText f
    ⟨settings asText f, Sha256.digest bytes, (first :: others).length, env.now⟩
    (Transform.typed env.numbers (settings asText f) table)
  refine ⟨table, _, e, e', htable,
    (turns_exportOf_iff (c := settings asText f) hread).mpr ?_, he, he'⟩
  exact ⟨fun _ => ⟨first, others, rfl, repeatedNames_eq_nil_of_nodup hnames⟩, table, htable, rfl⟩

/-! ### Converting one file -/

theorem stat?_settings {e : Entry} (hname : Path.IsName (stem f))
    (hroot : t.get? ["outputs"] = some .directory)
    (hsettings : t.get? ["outputs", stem f ++ ".yaml"] = some e) :
    t.stat? (.ofString (settingsPath f)) = some e := by
  rw [ofString_settingsPath hname]
  exact FileTree.stat?_eq_some_iff.mpr
    ⟨_, locate_outputs hroot (isName_settings hname).2, hsettings⟩

theorem has_settings_eq_false (hname : Path.IsName (stem f))
    (hroot : t.get? ["outputs"] = none ∨ t.get? ["outputs"] = some .directory)
    (hsettings : t.get? ["outputs", stem f ++ ".yaml"] = none) :
    t.has (.ofString (settingsPath f)) = false := by
  rw [ofString_settingsPath hname, FileTree.has, FileTree.stat?]
  rcases hroot with hnone | hdir
  · -- The way to the settings ends at the directory of all output.
    have hnil : t.get? [] = some .directory := rfl
    simp [FileTree.locate, FileTree.walk, hnil, hnone, Except.mapError]
  · rw [locate_outputs hdir (isName_settings hname).2]
    change (t.get? ["outputs", stem f ++ ".yaml"]).isSome = false
    rw [hsettings]
    rfl

/-- The settings of a file are not in its directory. -/
theorem not_prefix_settings (f : String) :
    ¬ ["outputs", stem f] <+: ["outputs", stem f ++ ".yaml"] := by
  intro h
  have heq : stem f = stem f ++ ".yaml" := by simpa using h.eq_of_length rfl
  have hlength := congrArg String.length heq
  have hending : ".yaml".length = 5 := by decide
  rw [String.length_append] at hlength
  omega

/-- What is stored for a file with some records. -/
def content? (env : Environment) (asText : Bool) (f : String) (d : Document) : Option Entry :=
  (Table.ofDocument true d).toOption.bind fun table =>
    Export.content? env.tables (settings asText f).output
      (Transform.typed env.numbers (settings asText f) table).table

/-- The table of some records stands in the directory of a file. -/
structure Stored (env : Environment) (asText : Bool) (f : String) (d : Document)
    (t : FileTree) : Prop where
  /-- The directory of all output is there. -/
  root : t.get? ["outputs"] = some .directory
  /-- The directory of the file is there. -/
  dir : t.get? ["outputs", stem f] = some .directory
  /-- The table is there. -/
  table : ∃ e, content? env asText f d = some e ∧
    t.get? ["outputs", stem f, tableFile asText f] = some e

/-- The locations that converting a file changes. -/
def Reaches (f : String) (l : Location) : Prop := l = ["outputs"] ∨ Owns f l

theorem Reaches.eq_directory {e : Entry}
    (hroot : t.get? ["outputs"] = none ∨ t.get? ["outputs"] = some .directory)
    (hfree : ∀ l, Owns f l → t.get? l = none) (h : Reaches f l) (he : t.get? l = some e) :
    e = .directory := by
  rcases h with rfl | hown
  · rcases hroot with hnone | hdir
    · rw [hnone] at he
      cases he
    · rw [hdir] at he
      exact (Option.some.inj he).symm
  · rw [hfree l hown] at he
    cases he

/-- A file is prepared where its locations are free. -/
theorem exists_turns_prepare (env : Environment) (asText : Bool) (hname : Path.IsName (stem f))
    (hroot : t.get? ["outputs"] = none ∨ t.get? ["outputs"] = some .directory)
    (hfree : ∀ l, Owns f l → t.get? l = none) (hsource : (parseFile f).Turns t d t) :
    ∃ u, (prepare env asText f (outputDir f) (settingsPath f)).Turns t () u ∧
      Within (Reaches f) t u ∧ u.get? ["outputs"] = some .directory ∧
      u.get? ["outputs", stem f ++ ".yaml"] =
        some (.file (Utf8.encode (settings asText f).render)) ∧
      ∀ l, ["outputs", stem f] <+: l → u.get? l = none := by
  obtain ⟨made, hmade, hwithin, hroot'⟩ := exists_makeDirs_outputRoot hroot
  have hfree' (l : Location) (hl : Owns f l) : made.get? l = none :=
    (hwithin.get?_eq l (ne_root_of_owns hl)).trans (hfree l hl)
  have hdir : made.get? ["outputs", stem f ++ ".yaml"] ≠ some .directory := by
    simp [hfree' _ (.inl rfl)]
  refine ⟨_, turns_prepare hname hsource hmade hroot' hdir, ?_,
    FileTree.keepsDirs_put hdir _ hroot', FileTree.get?_put_self (by simp), fun l hl => ?_⟩
  · exact (hwithin.mono fun _ => .inl).put (.inr (.inl rfl)) hdir _
  · rw [FileTree.get?_put_of_ne (by simp), hfree' l (.inr hl)]
    rintro rfl
    exact not_prefix_settings f hl

/-- A file that was prepared is converted, and could be converted again. -/
theorem exists_turns_convert (hstore : env.tables.Lawful) (hname : Path.IsName (stem f))
    (hdots : stem f ≠ "..") (hroot : t.get? ["outputs"] = some .directory)
    (hsettings : t.get? ["outputs", stem f ++ ".yaml"] =
      some (.file (Utf8.encode (settings asText f).render)))
    (htexts : ∀ s ∈ (settings asText f).texts, Yaml.ComesBack s.toList)
    (hfree : ∀ l, ["outputs", stem f] <+: l → t.get? l = none)
    (hsource : (parseFile f).Turns t d t) (hnames : (d.headD []).Nodup) :
    ∃ written u, (convert env (settingsPath f)).Turns t written u ∧
      Within (["outputs", stem f] <+: ·) t u ∧ Stored env asText f d u ∧
      (Config.load (settingsPath f)).Turns u (settings asText f) u ∧
      (convert env (settingsPath f)).Turns u written u := by
  have hvalid := valid_settings asText f
  have hstat := stat?_settings hname hroot hsettings
  have hload := turns_load_of_stat? hvalid hstat htexts
  obtain ⟨table, description, e, e', htable, hexportOf, he, he'⟩ :=
    exists_turns_exportOf hstore asText hsource hnames
  obtain ⟨written, u, hexport, hwithin, hdir, hstored⟩ :=
    exists_turns_exportTable hstore hname hdots hroot hfree he he'
  have hconvert : (convert env (settingsPath f)).Turns t written u :=
    turns_convert_iff.mpr ⟨settings asText f, _,
      turns_inquire_iff.mpr ⟨hload, d, hsource, hexportOf⟩, hexport⟩
  -- The settings and the source are as they were.
  have hstat' := stat?_settings hname (hwithin.keepsDirs _ hroot)
    ((hwithin.get?_eq _ (not_prefix_settings f)).trans hsettings)
  have hread : u.read (.ofString f) = t.read (.ofString f) := by
    obtain ⟨bytes, -, -, hread, -⟩ := turns_parseFile_iff.mp hsource
    rw [hread]
    refine hwithin.read_eq (fun l e hl he => ?_) hread
    rw [hfree l hl] at he
    cases he
  have hcontent : content? env asText f d = some e := by
    rw [content?, htable]
    exact he
  refine ⟨written, u, hconvert, hwithin,
    ⟨hwithin.keepsDirs _ hroot, hdir, e, hcontent, hstored⟩,
    turns_load_of_stat? hvalid hstat' htexts,
    turns_convert_again hstore hconvert fun c hc p hp => ?_⟩
  obtain ⟨rfl, -⟩ := hload.eq hc
  simp only [List.mem_cons, List.not_mem_nil, or_false] at hp
  rcases hp with rfl | rfl
  · rw [FileTree.read_of_stat? hstat, FileTree.read_of_stat? hstat']
  · exact hread

/-- What a conversion comes to decides what converting a file comes to. -/
theorem turns_convertFile {written : List String} {c : Config}
    (hconversion : (conversion env asText f).effect t = (.ok written, u))
    (hload : (Config.load (settingsPath f)).Turns u c u) :
    (convertFile env asText f).Turns t false u := by
  rw [← Job.effect_eq_ok_iff, effect_convertFile, hconversion]
  change (((Config.load (settingsPath f)).effect u).1.map fun _ => false, u) = _
  rw [Job.effect_eq_ok_iff.mpr hload]
  rfl

/-- A file with settings is converted by them. -/
theorem effect_conversion_of_has (h : t.has (.ofString (settingsPath f)) = true) :
    (conversion env asText f).effect t = (convert env (settingsPath f)).effect t := by
  rw [conversion, convertOne, Job.effect_files_bind, h]
  rfl

/-- A file with different names is converted where its locations are free. Nothing else
changes, and the table of its records stands in its directory. Another file with the
same stem is then not looked at: its conversion changes nothing. -/
theorem exists_turns_convertFile (hstore : env.tables.Lawful)
    (hroot : t.get? ["outputs"] = none ∨ t.get? ["outputs"] = some .directory)
    (hfree : ∀ l, Owns f l → t.get? l = none) (hsource : (parseFile f).Turns t d t)
    (hnames : (d.headD []).Nodup) (hdot : stem f ≠ ".") (hdots : stem f ≠ "..")
    (htexts : ∀ s ∈ (settings asText f).texts, Yaml.ComesBack s.toList) :
    ∃ u, (convertFile env asText f).Turns t false u ∧ Within (Reaches f) t u ∧
      Stored env asText f d u ∧
      ∀ g, stem g = stem f → (convertFile env asText g).Turns u false u := by
  have hname := isName_stem_of_turns_parseFile hsource hdot
  obtain ⟨prepared, hprepare, hwithin, hroot', hsettings, hfree'⟩ :=
    exists_turns_prepare env asText hname hroot hfree hsource
  have hsource' := turns_parseFile_of_within hwithin (fun _ _ => Reaches.eq_directory hroot hfree)
    hsource
  obtain ⟨written, u, hconvert, hwithin', hstored, hload, hagain⟩ :=
    exists_turns_convert hstore hname hdots hroot' hsettings htexts hfree' hsource' hnames
  have hconversion : (conversion env asText f).effect t = (.ok written, u) := by
    rw [conversion, convertOne, Job.effect_files_bind,
      has_settings_eq_false hname hroot (hfree _ (.inl rfl)), Bool.not_false, if_pos rfl,
      Job.effect_bind fun _ => ignoresLog_convert _ _, Job.effect_eq_ok_iff.mpr hprepare]
    exact Job.effect_eq_ok_iff.mpr hconvert
  refine ⟨u, turns_convertFile hconversion hload,
    hwithin.trans (hwithin'.mono fun l hl => .inr (.inr hl)), hstored, fun g hg => ?_⟩
  -- A file with the same stem finds the settings, and follows them once more.
  have hpath : settingsPath g = settingsPath f := by rw [settingsPath, hg, settingsPath]
  have hhas : u.has (.ofString (settingsPath f)) = true := by
    obtain ⟨bytes, v, hread, -⟩ := turns_load_iff.mp hload
    exact FileTree.has_of_read hread
  rw [← hpath] at hhas hload hagain
  exact turns_convertFile ((effect_conversion_of_has hhas).trans
    (Job.effect_eq_ok_iff.mpr hagain)) hload

/-! ### Converting several files -/

theorem Stored.keep {own : Location → Prop} (h : Stored env asText f d t) (hwithin : Within own t u)
    (hout : ¬ own ["outputs", stem f, tableFile asText f]) : Stored env asText f d u := by
  obtain ⟨e, he, hstored⟩ := h.table
  exact ⟨hwithin.keepsDirs _ h.root, hwithin.keepsDirs _ h.dir, e, he,
    (hwithin.get?_eq _ hout).trans hstored⟩

/-- The table is found at its path. -/
theorem Stored.exists_stat? (h : Stored env asText f d t) (hname : Path.IsName (stem f))
    (hdots : stem f ≠ "..") :
    ∃ e, content? env asText f d = some e ∧
      t.stat? ⟨"", ["outputs", stem f, tableFile asText f]⟩ = some e := by
  obtain ⟨hroot, hdir, e, he, hget⟩ := h
  obtain ⟨-, hfile, -⟩ := path_eq asText hname
  exact ⟨e, he, FileTree.stat?_eq_some_iff.mpr ⟨_, locate_output hroot hdir hdots hfile, hget⟩⟩

/-- Files that own different locations, which are free, are all converted, and the table
of the records of each stands in its directory. -/
theorem exists_turns_convertFiles {files : List String} (hstore : env.tables.Lawful) (n : Nat)
    (hroot : t.get? ["outputs"] = none ∨ t.get? ["outputs"] = some .directory)
    (hfree : ∀ f ∈ files, ∀ l, Owns f l → t.get? l = none)
    (hsources : ∀ f ∈ files, ∃ d, (parseFile f).Turns t d t ∧ (d.headD []).Nodup)
    (hdots : ∀ f ∈ files, stem f ≠ "." ∧ stem f ≠ "..")
    (htexts : ∀ f ∈ files, ∀ s ∈ (settings asText f).texts, Yaml.ComesBack s.toList)
    (hapart : files.Pairwise fun f g => ∀ l, Owns f l → ¬ Owns g l) :
    ∃ u, (convertFiles env asText n files).Turns t n u ∧
      Within (fun l => ∃ f ∈ files, Reaches f l) t u ∧
      ∀ f ∈ files, ∀ d, (parseFile f).Turns t d t → Stored env asText f d u := by
  -- What the first file changes is not what the others need.
  induction files generalizing t with
  | nil => exact ⟨t, Job.turns_pure_iff.mpr ⟨rfl, rfl⟩, .refl _ t, by simp⟩
  | cons f files ih =>
    rw [List.pairwise_cons] at hapart
    rw [List.forall_mem_cons] at hfree hsources hdots htexts
    obtain ⟨d, hsource, hnames⟩ := hsources.1
    obtain ⟨t₁, hfile, hwithin, hstored, -⟩ := exists_turns_convertFile hstore hroot hfree.1
      hsource hnames hdots.1.1 hdots.1.2 htexts.1
    have hsource₁ (g : String) (d' : Document) (h : (parseFile g).Turns t d' t) :
        (parseFile g).Turns t₁ d' t₁ :=
      turns_parseFile_of_within hwithin (fun _ _ => Reaches.eq_directory hroot hfree.1) h
    have hfree₁ (g : String) (hg : g ∈ files) (l : Location) (hl : Owns g l) :
        t₁.get? l = none := by
      rw [hwithin.get?_eq l, hfree.2 g hg l hl]
      rintro (hout | hown)
      · exact ne_root_of_owns hl hout
      · exact hapart.1 g hg l hown hl
    obtain ⟨u, hfiles, hwithin₁, hothers⟩ := ih (.inr hstored.root) hfree₁
      (fun g hg => (hsources.2 g hg).imp fun d' h => ⟨hsource₁ g d' h.1, h.2⟩) hdots.2 htexts.2
      hapart.2
    refine ⟨u, ?_, ?_, List.forall_mem_cons.mpr ⟨fun d' h => ?_, fun g hg d' h => ?_⟩⟩
    · have hhas : t.has (.ofString f) = true := by
        obtain ⟨bytes, -, -, hread, -⟩ := turns_parseFile_iff.mp hsource
        exact FileTree.has_of_read hread
      rw [← Job.effect_eq_ok_iff, effect_convertFiles_cons, if_pos hhas,
        Job.effect_eq_ok_iff.mpr hfile]
      exact Job.effect_eq_ok_iff.mpr hfiles
    · exact (hwithin.mono fun l hl => ⟨f, by simp, hl⟩).trans
        (hwithin₁.mono fun l ⟨g, hg, hl⟩ => ⟨g, by simp [hg], hl⟩)
    · obtain ⟨rfl, -⟩ := hsource.eq h
      refine hstored.keep hwithin₁ ?_
      rintro ⟨g, hg, hout | hown⟩
      · simp at hout
      · exact hapart.1 g hg _ (.inr ⟨[tableFile asText f], rfl⟩) hown
    · exact hothers g hg d' (hsource₁ g d' h)

end Batch

/-! ### Batches -/

/-- Every file of a batch gets its own output, as long as its stem tells it apart. In a
tree without output, let the records of every file have different names, let the stems
be different, none of them another one with the ending of a settings file and none made
of dots, and let the texts of the settings come back. Then the batch exits with zero,
and in the directory of every file stands the table of its own records.

It is assumed that every name can be one of a file, as it is in a file tree. Where there is
a limit to the length of names, a stem that is allowed may be too long with an ending. -/
theorem batch_stores_each (hstore : env.tables.Lawful) (arguments : List String) {w : World}
    (hfresh : ∀ l, w.files.get? ("outputs" :: l) = none)
    (hsome : arguments.filter Batch.isFile ≠ [])
    (hsources : ∀ f ∈ arguments.filter Batch.isFile,
      ∃ d w₁, (parseFile f).Gives w d w₁ ∧ (d.headD []).Nodup)
    (hstems : ((arguments.filter Batch.isFile).map Batch.stem).Nodup)
    (hendings : ∀ f ∈ arguments.filter Batch.isFile, ∀ g ∈ arguments.filter Batch.isFile,
      Batch.stem f ≠ Batch.stem g ++ ".yaml")
    (hdots : ∀ f ∈ arguments.filter Batch.isFile, Batch.stem f ≠ "." ∧ Batch.stem f ≠ "..")
    (htexts : ∀ f ∈ arguments.filter Batch.isFile,
      ∀ s ∈ (Batch.settings (arguments.contains Batch.textFlag) f).texts,
        Yaml.ComesBack s.toList) :
    ∃ w', (batch env arguments).Gives w 0 w' ∧
      ∀ f ∈ arguments.filter Batch.isFile, ∀ d w₁, (parseFile f).Gives w d w₁ →
        ∃ e, Batch.content? env (arguments.contains Batch.textFlag) f d = some e ∧
          w'.files.stat? ⟨"", ["outputs", Batch.stem f,
            Batch.tableFile (arguments.contains Batch.textFlag) f]⟩ = some e := by
  have hturns {f : String} {d : Document} {w₁ : World} (h : (parseFile f).Gives w d w₁) :
      (parseFile f).Turns w.files d w.files := by
    have hparse := (isQuery_parseFile f defaultEncoding).ignoresLog.turns_of_gives h
    rwa [(isQuery_parseFile f defaultEncoding).files_eq h] at hparse
  have hfree (f : String) (_ : f ∈ arguments.filter Batch.isFile) (l : Location)
      (hl : Batch.Owns f l) : w.files.get? l = none := by
    rcases hl with rfl | ⟨names, rfl⟩
    · exact hfresh _
    · exact hfresh _
  -- The stems keep the files apart.
  have hapart : (arguments.filter Batch.isFile).Pairwise
      fun f g => ∀ l, Batch.Owns f l → ¬ Batch.Owns g l := by
    refine (List.pairwise_map.mp hstems).imp_of_mem fun {f g} hf hg hne l => ?_
    exact Batch.not_owns_of_owns hne (hendings f hf g hg) (hendings g hg f hf)
  obtain ⟨u, hfiles, -, hstored⟩ := Batch.exists_turns_convertFiles hstore 0
    (.inl (hfresh [])) hfree
    (fun f hf => by
      obtain ⟨d, w₁, hsource, hnames⟩ := hsources f hf
      exact ⟨d, hturns hsource, hnames⟩) hdots htexts hapart
  have hbatch : (batch env arguments).effect w.files = (.ok 0, u) := by
    rw [effect_batch hsome, Job.effect_eq_ok_iff.mpr hfiles]
    rfl
  obtain ⟨w', hgives, rfl⟩ :=
    (ignoresLog_batch env arguments).turns_iff.mp (Job.effect_eq_ok_iff.mp hbatch)
  refine ⟨w', hgives, fun f hf d w₁ hsource => ?_⟩
  exact (hstored f hf d (hturns hsource)).exists_stat?
    (Batch.isName_stem_of_turns_parseFile (hturns hsource) (hdots f hf).1) (hdots f hf).2

/-- Two files with different stems. -/
def pairFiles : FileTree :=
  ⟨[(["a"], .directory), (["a", "x.csv"], .file [0x6E, 0x0A, 0x31]),
    (["y.csv"], .file [0x6E, 0x0A, 0x32])]⟩

/-- A table with one number. -/
def numberTable (n : Int) : Table := ⟨1, [⟨"n", .integer [n]⟩]⟩

/-- Both files are converted. -/
theorem batch_stores_each_pair :
    ∃ w', (batch (.plain "") ["a/x.csv", "y.csv"]).Gives { files := pairFiles } 0 w' ∧
      w'.files.stat? ⟨"", ["outputs", "x", "x.parquet"]⟩ =
        some (.table (numberTable 1) (TableStore.bytes (numberTable 1))) ∧
      w'.files.stat? ⟨"", ["outputs", "y", "y.parquet"]⟩ =
        some (.table (numberTable 2) (TableStore.bytes (numberTable 2))) := by
  have hx := Job.gives_of_outcome (x := parseFile "a/x.csv") (w := { files := pairFiles })
    (a := [["n"], ["1"]]) (by decide +kernel)
  have hy := Job.gives_of_outcome (x := parseFile "y.csv") (w := { files := pairFiles })
    (a := [["n"], ["2"]]) (by decide +kernel)
  have hmem : ∀ f ∈ ["a/x.csv", "y.csv"].filter Batch.isFile, f = "a/x.csv" ∨ f = "y.csv" := by
    decide
  obtain ⟨w', hbatch, hstored⟩ := batch_stores_each (Environment.lawful_plain "")
    ["a/x.csv", "y.csv"] (w := { files := pairFiles })
    (by simp [pairFiles, FileTree.get?, List.lookup_cons]) (by decide)
    (by
      intro f hf
      rcases hmem f hf with rfl | rfl
      · exact ⟨_, _, hx, by decide⟩
      · exact ⟨_, _, hy, by decide⟩)
    (by decide +kernel) (by decide +kernel) (by decide +kernel) (by decide +kernel)
  refine ⟨w', hbatch, ?_, ?_⟩
  · obtain ⟨e, he, hstat⟩ := hstored "a/x.csv" (by decide) _ _ hx
    have hpath : (⟨"", ["outputs", Batch.stem "a/x.csv", Batch.tableFile
        (["a/x.csv", "y.csv"].contains Batch.textFlag) "a/x.csv"]⟩ : Path) =
          ⟨"", ["outputs", "x", "x.parquet"]⟩ := by decide +kernel
    rw [hpath] at hstat
    exact hstat.trans (he.symm.trans (by decide +kernel))
  · obtain ⟨e, he, hstat⟩ := hstored "y.csv" (by decide) _ _ hy
    have hpath : (⟨"", ["outputs", Batch.stem "y.csv", Batch.tableFile
        (["a/x.csv", "y.csv"].contains Batch.textFlag) "y.csv"]⟩ : Path) =
          ⟨"", ["outputs", "y", "y.parquet"]⟩ := by decide +kernel
    rw [hpath] at hstat
    exact hstat.trans (he.symm.trans (by decide +kernel))

/-- Two files with one stem. -/
def twinFiles : FileTree :=
  ⟨[(["a"], .directory), (["b"], .directory), (["a", "x.csv"], .file [0x6E, 0x0A, 0x31]),
    (["b", "x.csv"], .file [0x6E, 0x0A, 0x32])]⟩

/-- The second of two files with one stem is not converted, and this is no failure: the
directory of both has the table of the first. -/
theorem batch_skips_twin :
    (parseFile "b/x.csv").Turns twinFiles [["n"], ["2"]] twinFiles ∧
    ∃ w', (batch (.plain "") ["a/x.csv", "b/x.csv"]).Gives { files := twinFiles } 0 w' ∧
      w'.files.stat? ⟨"", ["outputs", "x", "x.parquet"]⟩ =
        some (.table (numberTable 1) (TableStore.bytes (numberTable 1))) := by
  have hsource : (parseFile "a/x.csv").Turns twinFiles [["n"], ["1"]] twinFiles :=
    ⟨_, Job.gives_of_outcome (by decide +kernel), by decide +kernel⟩
  have htwinSource : (parseFile "b/x.csv").Turns twinFiles [["n"], ["2"]] twinFiles :=
    ⟨_, Job.gives_of_outcome (by decide +kernel), by decide +kernel⟩
  have hroot : twinFiles.get? ["outputs"] = none := by decide
  have hfree (l : Location) (hl : Batch.Owns "a/x.csv" l) : twinFiles.get? l = none := by
    rcases hl with rfl | ⟨names, rfl⟩ <;> simp [twinFiles, FileTree.get?, List.lookup_cons]
  have htexts : ∀ s ∈ (Batch.settings false "a/x.csv").texts, Yaml.ComesBack s.toList := by
    decide +kernel
  obtain ⟨u, hfirst, hwithin, hstored, htwin⟩ := Batch.exists_turns_convertFile
    (Environment.lawful_plain "") (.inl hroot) hfree hsource (by decide) (by decide +kernel)
    (by decide +kernel) htexts
  -- The second file is still there, and is not looked at.
  have hhas : u.has (.ofString "b/x.csv") = true := by
    obtain ⟨bytes, -, -, hread, -⟩ := turns_parseFile_iff.mp (turns_parseFile_of_within hwithin
      (fun _ _ => Batch.Reaches.eq_directory (.inl hroot) hfree) htwinSource)
    exact FileTree.has_of_read hread
  have hsecond := Job.effect_eq_ok_iff.mpr (htwin "b/x.csv" (by decide +kernel))
  have hfiles : ["a/x.csv", "b/x.csv"].filter Batch.isFile = ["a/x.csv", "b/x.csv"] := by decide
  have hflag : ["a/x.csv", "b/x.csv"].contains Batch.textFlag = false := by decide
  have hbatch : (batch (.plain "") ["a/x.csv", "b/x.csv"]).effect twinFiles = (.ok 0, u) := by
    rw [effect_batch (by rw [hfiles]; simp), hfiles, hflag, Batch.effect_convertFiles_cons,
      if_pos (by decide +kernel), Job.effect_eq_ok_iff.mpr hfirst]
    simp only [Batch.effect_convertFiles_cons, if_pos hhas, hsecond]
    rfl
  obtain ⟨w', hgives, rfl⟩ := Job.effect_eq_ok_iff.mp hbatch
  refine ⟨htwinSource, w', hgives, ?_⟩
  obtain ⟨e, he, hstat⟩ := hstored.exists_stat?
    (Batch.isName_stem_of_turns_parseFile hsource (by decide +kernel)) (by decide +kernel)
  have hpath : (⟨"", ["outputs", Batch.stem "a/x.csv", Batch.tableFile false "a/x.csv"]⟩ : Path) =
      ⟨"", ["outputs", "x", "x.parquet"]⟩ := by decide +kernel
  rw [hpath] at hstat
  exact hstat.trans (he.symm.trans (by decide +kernel))

end Delimited
