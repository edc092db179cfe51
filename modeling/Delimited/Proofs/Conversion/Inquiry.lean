import Delimited.Proofs.Conversion.Files
import Delimited.Proofs.Conversion.Workflow

/-!
# Conversions ask first and write last

All that a conversion reads, its settings, its source and the digest of the source,
is read before it writes anything. What it asks for can be told from the bytes of two
files, so a conversion that finds the same bytes exports the same tables.

## Main definitions

* `exportOf`: what is exported for some records.
* `inquire`: all that a conversion asks for.

## Main results

* `convert_eq`: a conversion asks, and then exports.
* `turns_load_iff`, `turns_parseFile_iff`, `turns_exportOf_iff`: what the answers are.
* `turns_inquire_iff`, `turns_convert_iff`: a conversion taken apart.
-/

namespace Delimited

variable {env : Environment} {configPath path encoding : String} {c : Config} {d : Document}
  {written : List String} {t u : FileTree} {x : Table × Option Table} {w w' : World}

/-! ### What is exported -/

/-- A table, with its description if the settings ask for one. -/
def withDescription (env : Environment) (c : Config) (recordCount : Int) (t : Transformed) :
    Job (Table × Option Table) := do
  if c.output.writeMeta then
    let description ← describe env.now c t recordCount
    return (t.table, some description)
  else return (t.table, none)

/-- What is exported for some records: their table, and its description on demand. -/
def exportOf (env : Environment) (c : Config) (d : Document) : Job (Table × Option Table) := do
  let t ← transform env.numbers c d
  withDescription env c d.length t

theorem isQuery_withDescription (env : Environment) (c : Config) (n : Int) (t : Transformed) :
    (withDescription env c n t).IsQuery := by
  unfold withDescription
  split
  · exact (isQuery_describe _ c t n).bind fun _ => Job.isQuery_pure _
  · exact Job.isQuery_pure _

theorem isQuery_exportOf (env : Environment) (c : Config) (d : Document) :
    (exportOf env c d).IsQuery :=
  (isQuery_transform _ c d).bind fun t => isQuery_withDescription env c d.length t

theorem isSome_of_gives_exportOf (h : (exportOf env c d).Gives w x w') :
    x.2.isSome = c.output.writeMeta := by
  obtain ⟨t, w₁, -, h⟩ := Job.gives_bind_iff.mp h
  unfold withDescription at h
  split at h
  · rename_i hmeta
    obtain ⟨description, w₂, -, h⟩ := Job.gives_bind_iff.mp h
    obtain ⟨rfl, -⟩ := Job.gives_pure_iff.mp h
    exact hmeta.symm
  · rename_i hmeta
    obtain ⟨rfl, -⟩ := Job.gives_pure_iff.mp h
    exact (Bool.eq_false_iff.mpr hmeta).symm

/-- Records are converted by an export of their table. -/
theorem runPipeline_eq (env : Environment) (c : Config) (d : Document) :
    runPipeline env c d = exportOf env c d >>= fun x =>
      exportTable env.tables c.table.tableName x.1 x.2 c.output >>= fun written =>
        Job.info "csv_combinators._pipeline" s!"Pipeline complete: wrote {written.length} files"
          >>= fun _ => pure written := by
  cases hmeta : c.output.writeMeta <;>
    simp only [runPipeline, exportOf, withDescription, hmeta, Bool.false_eq_true, if_true,
      if_false, bind_assoc, pure_bind]

/-- The settings of a conversion and what is exported. -/
def inquire (env : Environment) (configPath : String) : Job (Config × Table × Option Table) := do
  Job.info workflowComponent ("convert() -- config_path=" ++ configPath)
  let c ← Config.load configPath
  let document ← parseFile c.source.inputPath c.source.encoding
  let x ← exportOf env c document
  return (c, x)

/-- A conversion asks for all that it needs, and then exports. -/
theorem convert_eq (env : Environment) (configPath : String) :
    convert env configPath = inquire env configPath >>= fun x =>
      exportTable env.tables x.1.table.tableName x.2.1 x.2.2 x.1.output >>= fun written =>
        Job.info "csv_combinators._pipeline" s!"Pipeline complete: wrote {written.length} files"
          >>= fun _ => pure written := by
  simp only [convert, runPipeline_eq, inquire, bind_assoc, pure_bind]

theorem isQuery_inquire (env : Environment) (configPath : String) :
    (inquire env configPath).IsQuery :=
  (Job.isQuery_info _ _).bind fun _ => (Config.isQuery_load configPath).bind fun _ =>
    (isQuery_parseFile _ _).bind fun _ => (isQuery_exportOf env _ _).bind fun _ =>
      Job.isQuery_pure _

/-- An export and the message about it. -/
theorem ignoresLog_export (env : Environment) (x : Config × Table × Option Table) :
    (exportTable env.tables x.1.table.tableName x.2.1 x.2.2 x.1.output >>= fun written =>
      Job.info "csv_combinators._pipeline" s!"Pipeline complete: wrote {written.length} files"
        >>= fun _ => pure written).IgnoresLog :=
  (ignoresLog_exportTable _ _ _ _ _).bind fun _ =>
    ((Job.isQuery_info _ _).bind fun _ => Job.isQuery_pure _).ignoresLog

theorem ignoresLog_runPipeline (env : Environment) (c : Config) (d : Document) :
    (runPipeline env c d).IgnoresLog := by
  rw [runPipeline_eq]
  exact (isQuery_exportOf env c d).ignoresLog.bind fun x => ignoresLog_export env (c, x)

theorem ignoresLog_convert (env : Environment) (configPath : String) :
    (convert env configPath).IgnoresLog := by
  rw [convert_eq]
  exact (isQuery_inquire env configPath).ignoresLog.bind (ignoresLog_export env)

/-- What a conversion asks for, one question at a time. -/
theorem turns_inquire_iff :
    (inquire env configPath).Turns t (c, x) t ↔
      (Config.load configPath).Turns t c t ∧ ∃ d,
        (parseFile c.source.inputPath c.source.encoding).Turns t d t ∧
        (exportOf env c d).Turns t x t := by
  have hpure (c : Config) (x : Table × Option Table) :
      (pure (c, x) : Job (Config × Table × Option Table)).IgnoresLog :=
    (Job.isQuery_pure _).ignoresLog
  have hexport (c : Config) (d : Document) :
      (exportOf env c d >>= fun x => pure (c, x)).IgnoresLog :=
    (isQuery_exportOf env c d).ignoresLog.bind fun x => hpure c x
  have hparse (c : Config) : (parseFile c.source.inputPath c.source.encoding >>= fun d =>
      exportOf env c d >>= fun x => pure (c, x)).IgnoresLog :=
    (isQuery_parseFile _ _).ignoresLog.bind (hexport c)
  rw [inquire, (Job.isQuery_info _ _).turns_bind_iff fun _ =>
    (Config.isQuery_load configPath).ignoresLog.bind hparse]
  simp only [(Config.isQuery_load configPath).turns_bind_iff hparse,
    (isQuery_parseFile _ _).turns_bind_iff (hexport _),
    (isQuery_exportOf env _ _).turns_bind_iff (hpure _), Job.turns_pure_iff, Prod.mk.injEq]
  constructor
  · rintro ⟨_, -, c, hload, d, hsource, x, hexport, ⟨rfl, rfl⟩, -⟩
    exact ⟨hload, d, hsource, hexport⟩
  · rintro ⟨hload, d, hsource, hexport⟩
    exact ⟨(), Job.turns_info _ _ _, c, hload, d, hsource, x, hexport, ⟨rfl, rfl⟩, trivial⟩

/-- A conversion exports what it was told by its settings and its source. -/
theorem turns_convert_iff :
    (convert env configPath).Turns t written u ↔ ∃ c x,
      (inquire env configPath).Turns t (c, x) t ∧
      (exportTable env.tables c.table.tableName x.1 x.2 c.output).Turns t written u := by
  rw [convert_eq, (isQuery_inquire env configPath).turns_bind_iff (ignoresLog_export env)]
  simp only [Job.turns_logged_iff, Prod.exists]

/-- Settings that are loaded and records that are converted make a conversion. -/
theorem turns_convert_of_load (hload : (Config.load configPath).Turns t c t)
    (hrest : (parseFile c.source.inputPath c.source.encoding >>= runPipeline env c).Turns t
      written u) : (convert env configPath).Turns t written u := by
  have hlater (c : Config) :
      (parseFile c.source.inputPath c.source.encoding >>= runPipeline env c).IgnoresLog :=
    (isQuery_parseFile _ _).ignoresLog.bind fun d => ignoresLog_runPipeline env c d
  have hall : (Config.load configPath >>= fun c =>
      parseFile c.source.inputPath c.source.encoding >>= runPipeline env c).Turns t written u :=
    ((Config.isQuery_load configPath).turns_bind_iff hlater).mpr ⟨c, hload, hrest⟩
  exact ((Job.isQuery_info _ _).turns_bind_iff fun _ =>
    (Config.isQuery_load configPath).ignoresLog.bind hlater).mpr ⟨(), Job.turns_info _ _ t, hall⟩

/-! ### Answers -/

/-- Settings are loaded from bytes that hold them. -/
theorem turns_load_iff :
    (Config.load path).Turns t c t ↔ ∃ bytes v, t.read (.ofString path) = .ok bytes ∧
      Config.parse (.ofString path) bytes = .ok v ∧ Config.ofValue v = .ok c := by
  constructor
  · rintro ⟨w', hload, -⟩
    obtain ⟨bytes, v, -, hanswer⟩ := Config.exists_gives_load_iff.mp ⟨w', hload⟩
    exact ⟨bytes, v, hanswer⟩
  · rintro ⟨bytes, v, hread, hanswer⟩
    obtain ⟨w', hload⟩ := Config.exists_gives_load_iff (w := { files := t }) |>.mpr
      ⟨bytes, v, FileTree.has_of_read hread, hread, hanswer⟩
    exact ⟨w', hload, (Config.isQuery_load path).files_eq hload⟩

/-- Valid settings whose texts come back are loaded from their own text. -/
theorem turns_load_of_stat? (hvalid : c.Valid)
    (hstat : t.stat? (.ofString path) = some (.file (Utf8.encode c.render)))
    (htexts : ∀ s ∈ c.texts, Yaml.ComesBack s.toList) : (Config.load path).Turns t c t := by
  obtain ⟨w', hload⟩ := (Config.exists_gives_load_iff_of_stat? (w := { files := t }) hvalid
    hstat).mpr htexts
  exact ⟨w', hload, (Config.isQuery_load path).files_eq hload⟩

/-- A text is read from the bytes that it is encoded in. -/
theorem gives_readText_iff {text : String} :
    (readText path encoding).Gives w text w' ↔
      (∃ bytes e, w.files.read (.ofString path) = .ok bytes ∧
        Encoding.ofName? encoding = some e ∧ e.decode bytes = .ok text) ∧ w = w' := by
  simp only [readText, Job.gives_bind_iff, Job.gives_files_iff]
  constructor
  · rintro ⟨_, _, ⟨rfl, rfl⟩, h⟩
    cases hhas : w.files.has (.ofString path) with
    | false => simp [hhas] at h
    | true =>
      simp only [hhas, Bool.not_true, Bool.false_eq_true, if_false, Job.gives_bind_iff,
        Job.gives_files_iff, Job.gives_ofExcept_iff] at h
      obtain ⟨_, _, ⟨rfl, rfl⟩, bytes, _, ⟨hread, rfl⟩, h⟩ := h
      split at h
      · exact absurd h Job.not_gives_throw
      · rename_i e he
        split at h
        · rename_i text' hdecode
          obtain ⟨rfl, rfl⟩ := Job.gives_pure_iff.mp h
          exact ⟨⟨bytes, e, hread, he, hdecode⟩, rfl⟩
        · exact absurd h Job.not_gives_throw
        · exact absurd h Job.not_gives_throw
  · rintro ⟨⟨bytes, e, hread, he, hdecode⟩, rfl⟩
    refine ⟨w.files, w, ⟨rfl, rfl⟩, ?_⟩
    simp [FileTree.has_of_read hread, hread, he, hdecode]

/-- Records are read from bytes that are a document in the encoding. -/
theorem turns_parseFile_iff :
    (parseFile path encoding).Turns t d t ↔ ∃ bytes e text, t.read (.ofString path) = .ok bytes ∧
      Encoding.ofName? encoding = some e ∧ e.decode bytes = .ok text ∧
      parseText text (some path) = .ok d := by
  simp only [Job.Turns, parseFile, Job.gives_bind_iff, gives_readText_iff, Job.gives_ofExcept_iff,
    Job.info, Job.report, Job.gives_modify_iff, Job.gives_pure_iff]
  constructor
  · rintro ⟨_, ⟨text, _, ⟨⟨bytes, e, hread, he, hdecode⟩, rfl⟩, d, _, ⟨htext, rfl⟩, _, _, rfl, rfl,
      rfl⟩, -⟩
    exact ⟨bytes, e, text, hread, he, hdecode, htext⟩
  · rintro ⟨bytes, e, text, hread, he, hdecode, htext⟩
    exact ⟨_, ⟨text, _, ⟨⟨bytes, e, hread, he, hdecode⟩, rfl⟩, d, _, ⟨htext, rfl⟩, (), _, rfl, rfl,
      rfl⟩, rfl⟩

/-- A table of a source with known bytes is described with their digest. -/
theorem turns_describe_iff {bytes : List UInt8} {table : Transformed} {n : Int} {d : Table}
    (hread : t.read (.ofString c.source.inputPath) = .ok bytes) :
    (describe env.now c table n).Turns t d t ↔
      d = Description.table ⟨c, Sha256.digest bytes, n, env.now⟩ table := by
  simp only [Job.Turns, describe, Description.digestOf, Job.gives_bind_iff, Job.gives_files_iff,
    Job.info, Job.report, Job.gives_modify_iff, Job.gives_pure_iff]
  constructor
  · rintro ⟨_, ⟨digest, _, ⟨_, _, ⟨rfl, rfl⟩, hdigest⟩, _, _, rfl, rfl, rfl⟩, -⟩
    rw [hread] at hdigest
    obtain ⟨rfl, -⟩ := Job.gives_pure_iff.mp hdigest
    rfl
  · rintro rfl
    refine ⟨_, ⟨Sha256.digest bytes, { files := t }, ⟨t, _, ⟨rfl, rfl⟩, ?_⟩, (), _, rfl, rfl, rfl⟩,
      rfl⟩
    rw [hread]
    exact Job.gives_pure_iff.mpr ⟨rfl, rfl⟩

theorem turns_withDescription_iff {bytes : List UInt8} {table : Transformed} {n : Int}
    (hread : t.read (.ofString c.source.inputPath) = .ok bytes) :
    (withDescription env c n table).Turns t x t ↔
      x = (table.table, if c.output.writeMeta then
        some (Description.table ⟨c, Sha256.digest bytes, n, env.now⟩ table) else none) := by
  unfold withDescription
  split
  · rw [(isQuery_describe _ c table n).turns_bind_iff fun _ => (Job.isQuery_pure _).ignoresLog]
    simp [turns_describe_iff hread, Job.turns_pure_iff, eq_comm]
  · simp [Job.turns_pure_iff, eq_comm]

theorem turns_transform_iff {table : Transformed} :
    (transform env.numbers c d).Turns t table t ↔
      (c.table.header = true → ∃ first others, d = first :: others ∧ repeatedNames first = []) ∧
        ∃ plain, Table.ofDocument c.table.header d = .ok plain ∧
          table = Transform.typed env.numbers c plain := by
  rw [← exists_gives_transform_iff (w := { files := t })]
  constructor
  · rintro ⟨w', h, -⟩
    exact ⟨w', h⟩
  · rintro ⟨w', h⟩
    exact ⟨w', h, (isQuery_transform _ c d).files_eq h⟩

/-- What is exported for records from a source with known bytes: the names that are
looked at are not repeated, and the rest is a function of the records, the settings
and the bytes. -/
theorem turns_exportOf_iff {bytes : List UInt8}
    (hread : t.read (.ofString c.source.inputPath) = .ok bytes) :
    (exportOf env c d).Turns t x t ↔
      (c.table.header = true → ∃ first others, d = first :: others ∧ repeatedNames first = []) ∧
      ∃ table, Table.ofDocument c.table.header d = .ok table ∧
        x = ((Transform.typed env.numbers c table).table, if c.output.writeMeta then
          some (Description.table ⟨c, Sha256.digest bytes, d.length, env.now⟩
            (Transform.typed env.numbers c table)) else none) := by
  rw [exportOf, (isQuery_transform _ c d).turns_bind_iff fun table =>
    (isQuery_withDescription env c d.length table).ignoresLog]
  simp only [turns_transform_iff, turns_withDescription_iff hread]
  constructor
  · rintro ⟨_, ⟨hnames, table, htable, rfl⟩, hx⟩
    exact ⟨hnames, table, htable, hx⟩
  · rintro ⟨hnames, table, htable, hx⟩
    exact ⟨_, ⟨hnames, table, htable, rfl⟩, hx⟩

end Delimited
