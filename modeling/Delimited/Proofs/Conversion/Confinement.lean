import Delimited.Proofs.Conversion.Inquiry
import Mathlib.Data.List.Nodup

/-!
# Conversions change their own files only

A conversion reads first and writes last. All that it reads, and the table that it
makes, is known before the first file is touched, so a conversion that fails over
its settings, its source or its header leaves the files as they were. The export is
the only step that writes: it changes the files of the settings, and makes missing
directories on their way, whether it comes to its end or not. A table whose path is
taken for one in a home directory is not among these files, but its path is given
all the same. A first run keeps its settings only after it has read its source.

## Main definitions

* `Config.outputPaths`: the paths of the files of some settings.
* `Config.InPlace`: the files of some settings are where their paths say.
* `Config.AvoidsHome`: no file of some settings goes to a home directory.
* `Failure.isOfInput`: the failures that are about what is read.
* `Job.LeavesUnless`: a job that fails leaves the files, unless for certain reasons.

## Main results

* `failsOnly_save`: settings are never refused because there is nothing.
* `convert_confined_and_firstRun_leaves`: what conversions and first runs change.
* `convert_misses_home`: a path for which a conversion has stored no file.
-/

namespace Delimited

variable {env : Environment} {configPath : String} {c : Config} {d : Document}
  {written : List String} {w w' w₁ : World} {e : Failure}

/-! ### Failures and what they leave -/

/-- The failures that are about what is read: a file is not there, the settings are
malformed, empty or refused, or the source is wrong in its encoding or no document. -/
def Failure.isOfInput : Failure → Bool
  | .os error => error.cause == .notFound
  | .sourceNotFound _ => true
  | .configNotFound _ => true
  | .malformedConfig => true
  | .emptyConfig _ => true
  | .invalidConfig _ => true
  | .undecodable _ _ _ => true
  | .rejected _ _ => true
  | _ => false

/-- A failure of the export is not about what is read. -/
theorem Failure.isOfInput_of_isOfExport (h : e.isOfExport = true) : e.isOfInput = false := by
  cases e with
  | notExported file format cause => rfl
  | unsupportedFormat name => rfl
  | _ => cases h

theorem Failure.isOfInput_os {error : OsError} (h : error.cause ≠ .notFound) :
    (Failure.os error).isOfInput = false :=
  beq_eq_false_iff_ne.mpr h

namespace Job

variable {α β : Type} {x : Job α} {f : α → Job β} {P : Failure → Prop}

/-- The job leaves the files when it fails, unless it fails for reasons of one kind. -/
def LeavesUnless (P : Failure → Prop) (x : Job α) : Prop :=
  ∀ w e w', x.Fails w e w' → ¬ P e → w'.files = w.files

theorem FailsOnly.leavesUnless (h : x.FailsOnly P) : x.LeavesUnless P :=
  fun w e w' hx hne => absurd (h w e w' hx) hne

/-- What is asked first changes nothing. -/
theorem LeavesUnless.bind (hx : x.IsQuery) (hf : ∀ a, (f a).LeavesUnless P) :
    (x >>= f).LeavesUnless P := by
  intro w e w' h hne
  rcases fails_bind_iff.mp h with h | ⟨a, w₁, hgives, h⟩
  · exact hx.files_eq_of_fails h
  · rw [hf a w₁ e w' h hne, hx.files_eq hgives]

end Job

/-! ### Which step fails for which reason -/

theorem failsOnly_load (path : String) :
    (Config.load path).FailsOnly fun e => e.isOfExport = false := by
  have hparse (p : Path) (bytes : List UInt8) :
      (Job.ofExcept id (Config.parse p bytes)).FailsOnly fun e => e.isOfExport = false := by
    refine Job.failsOnly_ofExcept fun e he => ?_
    unfold Config.parse at he
    cases htext : Utf8.decode bytes with
    | error cause =>
      rw [htext] at he
      cases he
      rfl
    | ok text =>
      simp only [htext, Except.mapError, bind, Except.bind] at he
      split at he
      · cases he
        rfl
      · cases he
        rfl
      · cases he
  refine Job.failsOnly_files.bind fun files => ?_
  cases hhas : files.has (.ofString path) with
  | false => exact Job.failsOnly_throw_bind (by rfl) _
  | true =>
    exact Job.failsOnly_files.bind fun files =>
      (Job.failsOnly_ofExcept fun _ _ => by rfl).bind fun bytes =>
        (hparse _ bytes).bind fun value => (Job.failsOnly_info _ _).bind fun _ =>
          Job.failsOnly_ofExcept fun _ _ => by rfl

theorem failsOnly_parseFile (path encoding : String) :
    (parseFile path encoding).FailsOnly fun e => e.isOfExport = false := by
  have hread : (readText path encoding).FailsOnly fun e => e.isOfExport = false := by
    refine Job.failsOnly_files.bind fun files => ?_
    cases hhas : files.has (.ofString path) with
    | false => exact Job.failsOnly_throw_bind (by rfl) _
    | true =>
      refine Job.failsOnly_files.bind fun files =>
        (Job.failsOnly_ofExcept fun _ _ => by rfl).bind fun bytes => ?_
      split
      · exact Job.failsOnly_throw (by rfl)
      · split
        · exact Job.failsOnly_pure _
        · exact Job.failsOnly_throw (by rfl)
        · exact Job.failsOnly_throw (by rfl)
  refine hread.bind fun text => ?_
  refine (Job.failsOnly_ofExcept fun e he => ?_).bind fun d =>
    (Job.failsOnly_info _ _).bind fun _ => Job.failsOnly_pure _
  unfold parseText at he
  split at he
  · cases he
  · cases he
    rfl
  · cases he
    rfl

/-- Making a table and describing it fails neither over the input nor over the
output. -/
theorem failsOnly_exportOf (env : Environment) (c : Config) (d : Document) :
    (exportOf env c d).FailsOnly fun e => e.isOfInput = false ∧ e.isOfExport = false := by
  have htransform : (transform env.numbers c d).FailsOnly fun e =>
      e.isOfInput = false ∧ e.isOfExport = false := by
    have hheader : (Transform.header c d).FailsOnly fun e =>
        e.isOfInput = false ∧ e.isOfExport = false := by
      unfold Transform.header
      split
      · split
        · exact Job.failsOnly_throw ⟨rfl, rfl⟩
        · refine (Job.failsOnly_info _ _).bind fun _ => Job.failsOnly_ofExcept fun e he => ?_
          unfold checkHeader at he
          split at he
          · cases he
            exact ⟨rfl, rfl⟩
          · cases he
      · exact Job.failsOnly_info _ _
    refine hheader.bind fun _ => Job.FailsOnly.bind ?_ fun table => ?_
    · exact (Job.failsOnly_ofExcept fun _ _ => ⟨rfl, rfl⟩).bind fun _ =>
        (Job.failsOnly_info _ _).bind fun _ => Job.failsOnly_pure _
    · unfold Transform.numbers
      split
      · exact (Job.failsOnly_info _ _).bind fun _ => Job.failsOnly_pure _
      · exact (Job.failsOnly_info _ _).bind fun _ => Job.failsOnly_pure _
  refine htransform.bind fun t => ?_
  unfold withDescription
  split
  · refine Job.FailsOnly.bind (Job.FailsOnly.bind ?_ fun _ => (Job.failsOnly_info _ _).bind fun _ =>
      Job.failsOnly_pure _) fun _ => Job.failsOnly_pure _
    refine Job.failsOnly_files.bind fun files => ?_
    split
    · exact Job.failsOnly_pure _
    · exact (Job.failsOnly_modify _).bind fun _ => Job.failsOnly_pure _
    · -- A source that is not there has no digest, and this is no failure.
      rename_i error hother hread
      refine Job.failsOnly_throw ⟨Failure.isOfInput_os fun hcause => ?_, rfl⟩
      obtain ⟨cause, path⟩ := error
      obtain rfl : cause = .notFound := hcause
      exact hother path rfl
  · exact Job.failsOnly_pure _

theorem failsOnly_inquire (env : Environment) (configPath : String) :
    (inquire env configPath).FailsOnly fun e => e.isOfExport = false := by
  refine (Job.failsOnly_info _ _).bind fun _ => (failsOnly_load configPath).bind fun c => ?_
  refine (failsOnly_parseFile _ _).bind fun d => Job.FailsOnly.bind ?_ fun _ => Job.failsOnly_pure _
  exact fun w e w' h => (failsOnly_exportOf env c d w e w' h).2

/-- Settings that cannot be saved were never looked for: their directory is made
first, so that the file is not refused because there is nothing. -/
theorem failsOnly_save (c : Config) (path : String) :
    (c.save path).FailsOnly fun e => e.isOfInput = false := by
  intro w e w' h
  rcases Job.fails_bind_iff.mp h with h | ⟨_, w₁, hmade, h⟩
  · exact Job.failsOnly_ensureDirs (P := fun e => e.isOfInput = false) _
      (fun _ => Failure.isOfInput_os) w e w' h
  · rcases Job.fails_bind_iff.mp h with h | ⟨_, w₂, -, h⟩
    · obtain ⟨error, herror, rfl, -⟩ := Job.fails_change_iff.mp h
      obtain ⟨made, hdirs, rfl⟩ := Job.gives_ensureDirs_iff.mp hmade
      obtain ⟨l, hlocate⟩ :=
        FileTree.exists_locate_of_hasDir_parent (FileTree.hasDir_of_makeDirs hdirs)
      refine Failure.isOfInput_os fun hcause => ?_
      rcases FileTree.store_eq_error herror with hnowhere | hdir
      · rw [hlocate] at hnowhere
        cases hnowhere
      · rw [hcause] at hdir
        cases hdir
    · exact absurd h Job.not_fails_info

theorem leavesUnless_convert (env : Environment) (configPath : String) :
    (convert env configPath).LeavesUnless fun e =>
      e.isOfExport = true ∨ ∃ error : OsError, e = .os error ∧ error.cause ≠ .notFound := by
  rw [convert_eq]
  refine .bind (isQuery_inquire env configPath) fun x => Job.FailsOnly.leavesUnless ?_
  exact (failsOnly_exportTable _ _ _ _ _).bind fun _ => (Job.failsOnly_info _ _).bind fun _ =>
    Job.failsOnly_pure _

theorem leavesUnless_firstRun (env : Environment) (r : FirstRun) :
    (firstRun env r).LeavesUnless fun e => e.isOfInput = false := by
  have hexport (c : Config) (d : Document) :
      (runPipeline env c d).FailsOnly fun e => e.isOfInput = false := by
    rw [runPipeline_eq]
    refine Job.FailsOnly.bind (fun w e w' h => (failsOnly_exportOf env c d w e w' h).1) fun x => ?_
    refine Job.FailsOnly.bind (fun w e w' h => ?_) fun _ =>
      (Job.failsOnly_info _ _).bind fun _ => Job.failsOnly_pure _
    rcases failsOnly_exportTable _ _ _ _ _ w e w' h with he | ⟨error, rfl, hcause⟩
    · exact Failure.isOfInput_of_isOfExport he
    · exact Failure.isOfInput_os hcause
  refine .bind (Job.isQuery_info _ _) fun _ => .bind (Job.isQuery_ofExcept _ _) fun c =>
    .bind (isQuery_parseFile _ _) fun d => Job.FailsOnly.leavesUnless ?_
  refine (failsOnly_save c _).bind fun _ => ?_
  split
  · exact (Job.failsOnly_info _ _).bind fun _ => (hexport c d).discard.bind fun _ =>
      Job.failsOnly_pure _
  · exact Job.failsOnly_pure _

/-! ### Where the files of some settings are -/

/-- The paths of the files of some settings: that of the table, and that of its
description on demand. -/
def Config.outputPaths (c : Config) : List Path :=
  Export.path c.output c.table.tableName ::
    if c.output.writeMeta then [Export.path c.output descriptionName] else []

theorem map_fst_tables {x : Table × Option Table} (h : x.2.isSome = c.output.writeMeta) :
    (Export.tables c.table.tableName x.1 x.2 c.output).map Prod.fst = c.outputPaths := by
  obtain ⟨t, description⟩ := x
  cases description <;> simp [Export.tables, Config.outputPaths, ← h]

/-- The name of a table, with the ending of a format, is a name in the directory. -/
theorem path_eq_append {output : Config.Output} {name : String} (hname : name ≠ "")
    (hslash : '/' ∉ name.toList) (hformat : output.format = .csv ∨ output.format = .parquet) :
    Path.IsName (name ++ ("." ++ output.format.name)) ∧ name ++ ("." ++ output.format.name) ≠ ".." ∧
      Export.path output name = { Path.ofString output.dir with
        parts := (Path.ofString output.dir).parts ++ [name ++ ("." ++ output.format.name)] } := by
  have hending : '/' ∉ ("." ++ output.format.name).toList ∧
      2 ≤ ("." ++ output.format.name).length := by
    rcases hformat with h | h <;> rw [h] <;> decide
  obtain ⟨hisName, hdots⟩ := isName_append hname hslash hending.1 hending.2
  exact ⟨hisName, hdots, Path.join_eq hisName⟩

namespace Config.Valid

theorem table_path (h : c.Valid) :
    Path.IsName (c.table.tableName ++ ("." ++ c.output.format.name)) ∧
      c.table.tableName ++ ("." ++ c.output.format.name) ≠ ".." ∧
      Export.path c.output c.table.tableName = { Path.ofString c.output.dir with
        parts := (Path.ofString c.output.dir).parts ++
          [c.table.tableName ++ ("." ++ c.output.format.name)] } := by
  obtain ⟨hempty, -, hslash⟩ := of_tableNameProblem?_eq_none h.tableName
  exact path_eq_append hempty hslash h.format

theorem description_path (h : c.Valid) :
    Path.IsName (descriptionName ++ ("." ++ c.output.format.name)) ∧
      descriptionName ++ ("." ++ c.output.format.name) ≠ ".." ∧
      Export.path c.output descriptionName = { Path.ofString c.output.dir with
        parts := (Path.ofString c.output.dir).parts ++
          [descriptionName ++ ("." ++ c.output.format.name)] } :=
  path_eq_append (by decide) (by decide) h.format

/-- The files of valid settings are names in the directory of the settings. -/
theorem of_mem_outputPaths (h : c.Valid) {p : Path} (hp : p ∈ c.outputPaths) :
    p.parent = .ofString c.output.dir ∧ Path.ofString (toString p) = p := by
  have hbelow {name : String} (hname : Path.IsName name)
      (hpath : p = { Path.ofString c.output.dir with
        parts := (Path.ofString c.output.dir).parts ++ [name] }) :
      p.parent = .ofString c.output.dir ∧ Path.ofString (toString p) = p := by
    have hwell := (Path.wellFormed_ofString c.output.dir).join hname
    rw [Path.join_eq hname, ← hpath] at hwell
    refine ⟨?_, Path.ofString_toString hwell⟩
    rw [hpath, Path.parent, List.dropLast_concat]
  obtain ⟨htable, -, htablePath⟩ := h.table_path
  obtain ⟨hdescription, -, hdescriptionPath⟩ := h.description_path
  rcases List.mem_cons.mp hp with rfl | hp
  · exact hbelow htable htablePath
  · split at hp
    · obtain rfl := List.mem_singleton.mp hp
      exact hbelow hdescription hdescriptionPath
    · cases hp

/-- The paths of the files of valid settings differ. -/
theorem nodup_outputPaths (h : c.Valid) : (c.outputPaths.map toString).Nodup := by
  refine List.Nodup.map_on (fun p hp q hq heq => ?_) ?_
  · rw [← (h.of_mem_outputPaths hp).2, heq, (h.of_mem_outputPaths hq).2]
  · obtain ⟨-, -, hpath⟩ := h.table_path
    obtain ⟨-, -, hpath'⟩ := h.description_path
    obtain ⟨-, hline, -⟩ := of_tableNameProblem?_eq_none h.tableName
    have hne : c.table.tableName ++ ("." ++ c.output.format.name) ≠
        descriptionName ++ ("." ++ c.output.format.name) := append_ne_description hline
    unfold Config.outputPaths
    split
    · rw [hpath, hpath', List.nodup_cons, List.mem_singleton]
      exact ⟨fun heq => hne (by simpa using heq), by simp⟩
    · simp

end Config.Valid

/-! ### What conversions change -/

/-- What a successful conversion does: it loads its settings, and stores the tables
of their files. -/
theorem exists_stores_of_turns_convert (hstore : env.tables.Lawful) {t u : FileTree}
    (h : (convert env configPath).Turns t written u) :
    ∃ c x made, (inquire env configPath).Turns t (c, x) t ∧ c.Valid ∧
      t.makeDirs (.ofString c.output.dir) = .ok made ∧
      Export.Stores env.tables c.output (Export.tables c.table.tableName x.1 x.2 c.output) made u ∧
      (Export.tables c.table.tableName x.1 x.2 c.output).map Prod.fst = c.outputPaths ∧
      written = c.outputPaths.map toString := by
  obtain ⟨c, x, hinquire, hexport⟩ := turns_convert_iff.mp h
  obtain ⟨⟨_, hload, -⟩, d, -, ⟨_, hexportOf, -⟩⟩ := turns_inquire_iff.mp hinquire
  obtain ⟨made, hmade, hstores, rfl⟩ := (turns_exportTable_iff hstore).mp hexport
  have hpaths := map_fst_tables (isSome_of_gives_exportOf hexportOf)
  refine ⟨c, x, made, hinquire, Config.valid_of_gives_load hload, hmade, hstores, hpaths, ?_⟩
  rw [← hpaths, List.map_map]
  rfl

/-- A conversion that succeeds gives the paths of its files, which are in the directory of
its settings. Where these files go, as far as that is in the file tree, files stand, and
nothing else has changed. -/
theorem Job.Gives.confined_of_convert (hstore : env.tables.Lawful)
    (h : (convert env configPath).Gives w written w') :
    ∃ c w₁, (Config.load configPath).Gives w c w₁ ∧ c.Valid ∧
      written = c.outputPaths.map toString ∧
      (∀ p ∈ c.outputPaths, ∀ q, Export.place? env.tables c.output p = some q →
        ∃ e, w'.files.stat? q = some e ∧ e ≠ .directory) ∧
      FileTree.Confined (.ofString c.output.dir)
        (Export.places env.tables c.output c.outputPaths) w.files w'.files := by
  obtain ⟨c, x, made, hinquire, hvalid, hmade, hstores, hpaths, rfl⟩ :=
    exists_stores_of_turns_convert hstore ((ignoresLog_convert env configPath).turns_of_gives h)
  obtain ⟨hload, -⟩ := turns_inquire_iff.mp hinquire
  obtain ⟨w₁, hload, -⟩ := (Config.isQuery_load configPath).ignoresLog.turns_iff.mp hload
  refine ⟨c, w₁, hload, hvalid, rfl, fun p hp q hplace => ?_, ?_⟩
  · rw [← hpaths] at hp
    obtain ⟨y, hy, rfl⟩ := List.mem_map.mp hp
    exact hstores.exists_stat? hy hplace
  · rw [← hpaths]
    exact ((FileTree.confined_of_makeDirs hmade).mono nofun).trans (hstores.confined _)

/-- A conversion that fails in its export changes the files of its settings only. -/
theorem Job.Fails.confined_of_convert (hstore : env.tables.Lawful)
    (h : (convert env configPath).Fails w e w') (he : e.isOfExport = true) :
    ∃ c w₁, (Config.load configPath).Gives w c w₁ ∧
      FileTree.Confined (.ofString c.output.dir)
        (Export.places env.tables c.output c.outputPaths) w.files w'.files := by
  rw [convert_eq] at h
  rcases Job.fails_bind_iff.mp h with h | ⟨⟨c, x⟩, w₁, hinquire, h⟩
  · -- What is asked before the export does not fail like this.
    have hother : e.isOfExport = false := failsOnly_inquire env configPath w e w' h
    rw [he] at hother
    cases hother
  · have hfiles := (isQuery_inquire env configPath).files_eq hinquire
    have hturns := (isQuery_inquire env configPath).ignoresLog.turns_of_gives hinquire
    rw [hfiles] at hturns
    obtain ⟨hload, d, -, ⟨_, hexportOf, -⟩⟩ := turns_inquire_iff.mp hturns
    obtain ⟨w₂, hload, -⟩ := (Config.isQuery_load configPath).ignoresLog.turns_iff.mp hload
    refine ⟨c, w₂, hload, ?_⟩
    rw [← map_fst_tables (isSome_of_gives_exportOf hexportOf), ← hfiles]
    rcases Job.fails_bind_iff.mp h with h | ⟨written, w₃, -, h⟩
    · exact (changes_exportTable hstore _ _ _ _).of_fails h
    · rcases Job.fails_bind_iff.mp h with h | ⟨_, w₄, -, h⟩
      · exact absurd h Job.not_fails_info
      · exact absurd h Job.not_fails_pure

/-- The files of some settings are where their paths say: a store takes none of the paths
for another one. -/
def Config.InPlace (store : TableStore) (c : Config) : Prop :=
  ∀ p ∈ c.outputPaths, Export.place? store c.output p = some p

/-- No file of some settings goes to a home directory: the output is text, or no path
starts with a tilde. -/
def Config.AvoidsHome (c : Config) : Prop :=
  c.output.format = .csv ∨ ∀ p ∈ c.outputPaths, p.isHome = false

theorem Config.AvoidsHome.inPlace {store : TableStore} (hstore : store.Lawful)
    (h : c.AvoidsHome) : c.InPlace store :=
  fun p hp => Export.place?_eq_some hstore (h.imp_right fun h => h p hp)

/-- Conversions are confined, also when they fail, as long as their files go where the
paths say. That is so for all text, and for stored tables unless a path starts with a tilde.

A conversion that succeeds gives the paths of its files, the table and on demand its
description, which differ and are in the directory of its settings. Files stand at these
paths; nothing else has changed, except that missing directories on the way to it were
made. One that fails over what it reads, or over a header that repeats names, has changed
nothing; one that fails in its export has changed nothing but these files and directories.
A first run that fails over what it reads has changed nothing either.

There are no links in a file tree: where a link stands at one of the paths, what changes is
the file that it leads to. Settings files with anchors, tags, directives, complex keys or
merge keys are not loaded, and sources in an encoding other than the known ones are not
parsed, so it is only said of them that they are failures. -/
theorem convert_confined_and_firstRun_leaves (hstore : env.tables.Lawful) (configPath : String)
    (r : FirstRun) (w : World) :
    (∀ c : Config, c.AvoidsHome → c.InPlace env.tables) ∧
    (∀ written w', (convert env configPath).Gives w written w' →
      ∃ c w₁, (Config.load configPath).Gives w c w₁ ∧
        written = c.outputPaths.map toString ∧ written.Nodup ∧
        (∀ s ∈ written, (Path.ofString s).parent = .ofString c.output.dir) ∧
        (c.InPlace env.tables →
          (∀ s ∈ written, ∃ e, w'.files.stat? (.ofString s) = some e ∧ e ≠ .directory) ∧
          FileTree.Confined (.ofString c.output.dir) c.outputPaths w.files w'.files)) ∧
    (∀ e w', (convert env configPath).Fails w e w' →
      ((e.isOfInput = true ∨ ∃ path names, e = .repeatedNames path names) →
        w'.files = w.files) ∧
      (e.isOfExport = true → ∃ c w₁, (Config.load configPath).Gives w c w₁ ∧
        (c.InPlace env.tables →
          FileTree.Confined (.ofString c.output.dir) c.outputPaths w.files w'.files))) ∧
    ∀ e w', (firstRun env r).Fails w e w' → e.isOfInput = true → w'.files = w.files := by
  refine ⟨fun c => Config.AvoidsHome.inPlace hstore, fun written w' h => ?_,
    fun e w' h => ⟨fun he => ?_, fun he => ?_⟩, fun e w' h he => ?_⟩
  · obtain ⟨c, w₁, hload, hvalid, rfl, hfiles, hconfined⟩ := h.confined_of_convert hstore
    refine ⟨c, w₁, hload, rfl, hvalid.nodup_outputPaths, ?_, fun hplace => ⟨?_, ?_⟩⟩
    · intro s hs
      obtain ⟨p, hp, rfl⟩ := List.mem_map.mp hs
      obtain ⟨hparent, hback⟩ := hvalid.of_mem_outputPaths hp
      rw [hback, hparent]
    · intro s hs
      obtain ⟨p, hp, rfl⟩ := List.mem_map.mp hs
      rw [(hvalid.of_mem_outputPaths hp).2]
      exact hfiles p hp p (hplace p hp)
    · rwa [Export.places_eq_self hplace] at hconfined
  · apply leavesUnless_convert env configPath w e w' h
    rintro (hexport | ⟨error, rfl, hcause⟩)
    · rcases he with he | ⟨path, names, rfl⟩
      · rw [Failure.isOfInput_of_isOfExport hexport] at he
        cases he
      · cases hexport
    · rcases he with he | ⟨path, names, he⟩
      · rw [Failure.isOfInput_os hcause] at he
        cases he
      · cases he
  · obtain ⟨c, w₁, hload, hconfined⟩ := h.confined_of_convert hstore he
    refine ⟨c, w₁, hload, fun hplace => ?_⟩
    rwa [Export.places_eq_self hplace] at hconfined
  · apply leavesUnless_firstRun env r w e w' h
    simp [he]

/-- Settings for output in an encoding with few characters. -/
def asciiConfig : Config :=
  { source := { inputPath := "a.csv" }
    table := { header := false }
    output := { dir := "out", format := .csv, writeMeta := false, encoding := "ascii" } }

/-- A settings file next to a source with a character that is not in the encoding. -/
def asciiFiles : FileTree :=
  ⟨[(["c.yaml"], .file (Utf8.encode asciiConfig.render)), (["a.csv"], .file [0xC3, 0xA9])]⟩

/-- A conversion that fails in its export leaves an empty file in its directory, and a
first run without a source leaves nothing. -/
theorem convert_confined_and_firstRun_leaves_ascii :
    (∃ e w', (convert (.plain "") "c.yaml").Fails { files := asciiFiles } e w' ∧
      e.isOfExport = true ∧ w'.files.get? ["out", "default.csv"] = some (.file []) ∧
      FileTree.Confined (.ofString "out") asciiConfig.outputPaths asciiFiles w'.files) ∧
    ∃ e w', (firstRun (.plain "") { inputPath := "b.csv" }).Fails { files := asciiFiles } e w' ∧
      e.isOfInput = true ∧ w'.files = asciiFiles := by
  have hvalid : asciiConfig.Valid := ⟨by decide +kernel, .inl rfl, .crlf, rfl⟩
  have hsettings : asciiFiles.stat? (.ofString "c.yaml") =
      some (.file (Utf8.encode asciiConfig.render)) :=
    (FileTree.stat?_eq_get? _ "c.yaml" (by decide +kernel) (by decide)).trans
      (by simp [asciiFiles, FileTree.get?])
  constructor
  · -- The settings are loaded, and then the records are not exported.
    let w₀ : World :=
      ⟨asciiFiles, [⟨.info, workflowComponent, "convert() -- config_path=c.yaml"⟩]⟩
    obtain ⟨w₁, hload⟩ : ∃ w₁, (Config.load "c.yaml").Gives w₀ asciiConfig w₁ :=
      (Config.exists_gives_load_iff_of_stat? hvalid hsettings).mpr (by decide +kernel)
    let run := parseFile "a.csv" >>= runPipeline (.plain "") asciiConfig
    have hrest : run.IgnoresLog :=
      (isQuery_parseFile _ _).ignoresLog.bind fun d => ignoresLog_runPipeline _ asciiConfig d
    have hexport := Job.fails_of_outcome (x := run) (w := { files := asciiFiles })
      (e := .notExported "default.csv" .csv
        (.unencodable ⟨"ascii", 10, ['é'], "ordinal not in range(128)"⟩)) (by decide +kernel)
    obtain ⟨w', hfails, hfiles⟩ :=
      hrest.exists_fails hexport ((Config.isQuery_load "c.yaml").files_eq hload).symm
    have hconvert : (convert (.plain "") "c.yaml").Fails { files := asciiFiles } _ w' :=
      Job.fails_bind_iff.mpr (.inr ⟨(), w₀, Job.gives_modify_iff.mpr rfl,
        Job.fails_bind_iff.mpr (.inr ⟨asciiConfig, w₁, hload, hfails⟩)⟩)
    obtain ⟨hplace, -, hfailed, -⟩ := convert_confined_and_firstRun_leaves
      (Environment.lawful_plain "") "c.yaml" { inputPath := "" } { files := asciiFiles }
    obtain ⟨c, w₂, hload', hconfined⟩ := (hfailed _ _ hconvert).2 rfl
    obtain rfl : asciiConfig = c := (Config.isQuery_load "c.yaml").eq_of_gives hload hload' rfl
    refine ⟨_, w', hconvert, rfl, ?_, hconfined (hplace _ (.inl rfl))⟩
    rw [hfiles]
    decide +kernel
  · have hmissing := Job.fails_of_outcome (x := firstRun (.plain "") { inputPath := "b.csv" })
      (w := { files := asciiFiles }) (e := .sourceNotFound ⟨"", ["b.csv"]⟩) (by decide +kernel)
    obtain ⟨-, -, -, hfirst⟩ := convert_confined_and_firstRun_leaves (Environment.lawful_plain "")
      "" { inputPath := "b.csv" } { files := asciiFiles }
    exact ⟨_, _, hmissing, rfl, hfirst _ _ hmissing rfl⟩

/-- Settings for a stored table in a directory that is named like the home directory. -/
def homeConfig : Config :=
  { source := { inputPath := "a.csv" }
    table := { tableName := "t" }
    output := { dir := "~", format := .parquet, writeMeta := false } }

/-- An environment with a home directory in the file tree. -/
def homeEnvironment : Environment :=
  { Environment.plain "" with tables := .withHome (some ⟨"", ["home"]⟩) }

/-- A settings file next to a source with a number, and a home directory with a file. -/
def homeFiles : FileTree :=
  ⟨[(["c.yaml"], .file (Utf8.encode homeConfig.render)), (["a.csv"], .file [0x6E, 0x0A, 0x31]),
    (["home"], .directory), (["home", "t.parquet"], .file [0x78])]⟩

/-- A table that goes to the home directory is not in the directory that was made for it:
nothing stands at the path that the conversion gives, and a file that no path leads to was
replaced. -/
theorem convert_misses_home :
    ∃ w', (convert homeEnvironment "c.yaml").Gives { files := homeFiles } ["~/t.parquet"] w' ∧
      w'.files.stat? (.ofString "~/t.parquet") = none ∧
      w'.files.get? ["home", "t.parquet"] ≠ homeFiles.get? ["home", "t.parquet"] ∧
      ¬ FileTree.Confined (.ofString "~") homeConfig.outputPaths homeFiles w'.files := by
  have hload : (Config.load "c.yaml").Turns homeFiles homeConfig homeFiles :=
    turns_load_of_stat? ⟨by decide +kernel, .inr rfl, .crlf, rfl⟩
      ((FileTree.stat?_eq_get? _ "c.yaml" (by decide +kernel) (by decide)).trans
        (by simp [homeFiles, FileTree.get?]))
      (by decide +kernel)
  have hrun : (parseFile "a.csv" >>= runPipeline homeEnvironment homeConfig).Turns homeFiles
      ["~/t.parquet"] _ := ⟨_, Job.gives_of_outcome (by decide +kernel), rfl⟩
  obtain ⟨w', hconvert, hfiles⟩ :=
    (ignoresLog_convert _ "c.yaml").turns_iff (w := { files := homeFiles }) |>.mp
      (turns_convert_of_load hload hrun)
  have hreplaced : w'.files.get? ["home", "t.parquet"] ≠ homeFiles.get? ["home", "t.parquet"] := by
    rw [hfiles]
    decide +kernel
  refine ⟨w', hconvert, ?_, hreplaced, fun hconfined => hreplaced ?_⟩
  · rw [hfiles]
    decide +kernel
  · refine hconfined.get?_eq (by decide +kernel) ?_
    rw [hfiles]
    decide +kernel

end Delimited
