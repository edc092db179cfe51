import Delimited.Proofs.Conversion.Confinement

/-!
# Conversions that are repeated

A conversion reads two files, its settings and its source. As long as it leaves these
two as they were, a second run finds what the first one found, makes the same tables,
and stores them where they already stand, so that nothing changes. Output may also be
directed at the source itself. Then the second run converts what the first one wrote,
and a source without names gains another record of names with every run.

## Main results

* `inquire_again`: what was asked once is answered in the same way.
* `turns_convert_again`: a conversion that finds what it found changes nothing.
* `convert_again`: a conversion that leaves its input is repeated without a change.
* `convert_grows_source`: one that overwrites its input is not.
-/

namespace Delimited

variable {env : Environment} {configPath : String} {c : Config} {written : List String}
  {t u : FileTree} {x : Table × Option Table} {w w' w₁ : World}

/-- Whoever finds the same bytes gets the same answers. -/
theorem inquire_again (h : (inquire env configPath).Turns t (c, x) t)
    (hkept : ∀ p ∈ [configPath, c.source.inputPath],
      u.read (.ofString p) = t.read (.ofString p)) :
    (inquire env configPath).Turns u (c, x) u := by
  obtain ⟨hload, d, hsource, hexport⟩ := turns_inquire_iff.mp h
  obtain ⟨bytes, v, hread, hsettings⟩ := turns_load_iff.mp hload
  obtain ⟨bytes', e, text, hread', hrecords⟩ := turns_parseFile_iff.mp hsource
  have hread₂ := (hkept configPath (by simp)).trans hread
  have hread₂' := (hkept c.source.inputPath (by simp)).trans hread'
  refine turns_inquire_iff.mpr ⟨turns_load_iff.mpr ⟨bytes, v, hread₂, hsettings⟩, d,
    turns_parseFile_iff.mpr ⟨bytes', e, text, hread₂', hrecords⟩, ?_⟩
  exact (turns_exportOf_iff hread₂').mpr ((turns_exportOf_iff hread').mp hexport)

/-- A conversion that leaves the two files that it reads is repeated without a change. -/
theorem turns_convert_again (hstore : env.tables.Lawful)
    (h : (convert env configPath).Turns t written u)
    (hkept : ∀ c, (Config.load configPath).Turns t c t → ∀ p ∈ [configPath, c.source.inputPath],
      u.read (.ofString p) = t.read (.ofString p)) :
    (convert env configPath).Turns u written u := by
  obtain ⟨c, x, made, hinquire, hvalid, hmade, hstores, hpaths, rfl⟩ :=
    exists_stores_of_turns_convert hstore h
  have hload := (turns_inquire_iff.mp hinquire).1
  -- The directory is there, and the same tables are stored where they stand.
  have hdir := FileTree.makeDirs_of_hasDir
    (hstores.keepsDirs.hasDir (FileTree.hasDir_of_makeDirs hmade))
  have hexport := (turns_exportTable_iff hstore).mpr ⟨_, hdir, hstores.again hstore, rfl⟩
  have hwritten : (Export.tables c.table.tableName x.1 x.2 c.output).map (fun y => toString y.1) =
      c.outputPaths.map toString := by
    rw [← hpaths, List.map_map]
    rfl
  rw [hwritten] at hexport
  exact turns_convert_iff.mpr ⟨c, x, inquire_again hinquire (hkept c hload), hexport⟩

/-- A file that no output leads to is read as before. -/
theorem Job.Gives.read_eq_of_convert (hstore : env.tables.Lawful)
    (h : (convert env configPath).Gives w written w')
    (hload : (Config.load configPath).Gives w c w₁) {p : Path} {bytes : List UInt8}
    (hread : w.files.read p = .ok bytes)
    (hapart : ∀ s ∈ written, ∀ q, Export.place? env.tables c.output (.ofString s) = some q →
      w'.files.locate q ≠ w'.files.locate p) :
    w'.files.read p = w.files.read p := by
  obtain ⟨c', w₂, hload', hvalid, rfl, -, hconfined⟩ := h.confined_of_convert hstore
  obtain rfl : c = c' := (Config.isQuery_load configPath).eq_of_gives hload hload' rfl
  rw [hread]
  refine hconfined.read_eq hread fun q hq => ?_
  obtain ⟨r, hr, hplace⟩ := List.mem_filterMap.mp hq
  refine hapart (toString r) (List.mem_map.mpr ⟨r, hr, rfl⟩) q ?_
  rwa [(hvalid.of_mem_outputPaths hr).2]

/-- A conversion rebuilds its files and does not add to them. If it succeeds, and if for
each of the two files that it reads no output leads to the file, or the file still has the
bytes it had, then a second run succeeds as well, gives the same paths and leaves all files
as the first one left them. Output leads where its path leads, unless a store takes the path
for another one.

Settings files with anchors, tags, directives, complex keys or merge keys are not loaded,
and sources in an encoding other than the known ones are not parsed, so nothing is said of
them. -/
theorem convert_again (hstore : env.tables.Lawful)
    (hload : (Config.load configPath).Gives w c w₁)
    (h : (convert env configPath).Gives w written w')
    (hinput : ∀ p ∈ [configPath, c.source.inputPath],
      (∀ s ∈ written, ∀ q, Export.place? env.tables c.output (.ofString s) = some q →
        w'.files.locate q ≠ w'.files.locate (.ofString p)) ∨
        w'.files.read (.ofString p) = w.files.read (.ofString p)) :
    ∃ w'', (convert env configPath).Gives w' written w'' ∧ w''.files = w'.files := by
  have hconvert := (ignoresLog_convert env configPath).turns_of_gives h
  refine (ignoresLog_convert env configPath).turns_iff.mp (turns_convert_again hstore hconvert ?_)
  intro c' hload' p hp
  obtain rfl : c = c' := by
    obtain ⟨w₂, hload', -⟩ := (Config.isQuery_load configPath).ignoresLog.turns_iff.mp hload'
    exact (Config.isQuery_load configPath).eq_of_gives hload hload' rfl
  rcases hinput p hp with hapart | hsame
  · -- The file was read by the first run, so there is something to keep.
    obtain ⟨bytes, hread⟩ : ∃ bytes, w.files.read (.ofString p) = .ok bytes := by
      obtain ⟨c', x, hinquire, -⟩ := turns_convert_iff.mp hconvert
      obtain ⟨hload'', d, hsource, -⟩ := turns_inquire_iff.mp hinquire
      obtain ⟨rfl, -⟩ := hload'.eq hload''
      obtain ⟨bytes, v, hread, -⟩ := turns_load_iff.mp hload'
      obtain ⟨bytes', e, text, hread', -⟩ := turns_parseFile_iff.mp hsource
      simp only [List.mem_cons, List.not_mem_nil, or_false] at hp
      rcases hp with rfl | rfl
      · exact ⟨bytes, hread⟩
      · exact ⟨bytes', hread'⟩
    exact h.read_eq_of_convert hstore hload hread hapart
  · exact hsame

/-- A source without names is converted once more, and nothing changes. -/
theorem convert_again_unnamed :
    ∃ w' w'', (convert (.plain "") "c.yaml").Gives { files := unnamedFiles } ["default.csv"] w' ∧
      (convert (.plain "") "c.yaml").Gives w' ["default.csv"] w'' ∧ w''.files = w'.files := by
  have hload : (Config.load "c.yaml").Turns unnamedFiles unnamedConfig unnamedFiles :=
    turns_load_of_stat? ⟨by decide +kernel, .inl rfl, .crlf, rfl⟩
      ((FileTree.stat?_eq_get? _ "c.yaml" (by decide +kernel) (by decide)).trans
        (by simp [unnamedFiles, FileTree.get?]))
      (by decide +kernel)
  have hrun : (parseFile "a.csv" >>= runPipeline (.plain "") unnamedConfig).Turns unnamedFiles
      ["default.csv"] _ := ⟨_, Job.gives_of_outcome (by decide +kernel), rfl⟩
  obtain ⟨w', hconvert, hfiles⟩ := turns_convert_of_load hload hrun
  obtain ⟨w₁, hload, -⟩ := hload
  obtain ⟨w'', hagain, hsame⟩ := convert_again (Environment.lawful_plain "") hload hconvert (by
    rw [hfiles]
    intro p hp
    refine .inl fun s hs q hq => ?_
    obtain rfl := List.mem_singleton.mp hs
    obtain rfl : Path.ofString "default.csv" = q := Option.some.inj hq
    simp only [List.mem_cons, List.not_mem_nil, or_false] at hp
    rcases hp with rfl | rfl <;> decide +kernel)
  exact ⟨w', w'', hconvert, hagain, hsame⟩

/-- Settings that direct the output at the source. -/
def selfConfig : Config :=
  { source := { inputPath := "a.csv" }
    table := { tableName := "a", header := false }
    output := { dir := ".", format := .csv, writeMeta := false, encoding := "utf-8" } }

/-- A settings file next to a source with one cell. -/
def selfFiles : FileTree :=
  ⟨[(["c.yaml"], .file (Utf8.encode selfConfig.render)), (["a.csv"], .file [0x31])]⟩

/-- Conversions of a source to itself are not repeated: each adds a record. -/
theorem convert_grows_source :
    ∃ w' w'', (convert (.plain "") "c.yaml").Gives { files := selfFiles } ["a.csv"] w' ∧
      (convert (.plain "") "c.yaml").Gives w' ["a.csv"] w'' ∧
      w'.files.read (.ofString "a.csv") = .ok (Utf8.encode "column_1\r\n1\r\n".toList) ∧
      w''.files.read (.ofString "a.csv") =
        .ok (Utf8.encode "column_1\r\ncolumn_1\r\n1\r\n".toList) := by
  have hload : (Config.load "c.yaml").Turns selfFiles selfConfig selfFiles :=
    turns_load_of_stat? ⟨by decide +kernel, .inl rfl, .crlf, rfl⟩
      ((FileTree.stat?_eq_get? _ "c.yaml" (by decide +kernel) (by decide)).trans
        (by simp [selfFiles, FileTree.get?]))
      (by decide +kernel)
  have hrun : (parseFile "a.csv" >>= runPipeline (.plain "") selfConfig).Turns selfFiles
      ["a.csv"] _ := ⟨_, Job.gives_of_outcome (by decide +kernel), rfl⟩
  obtain ⟨w', hconvert, hfiles⟩ := turns_convert_of_load hload hrun
  -- The settings are still what they were, the source is not.
  obtain ⟨bytes, v, hread, hsettings⟩ := turns_load_iff.mp hload
  obtain ⟨w₁, hload₁, -⟩ := hload
  have hkept := hconvert.read_eq_of_convert (Environment.lawful_plain "") hload₁ hread (by
    intro s hs q hq
    obtain rfl := List.mem_singleton.mp hs
    obtain rfl : Path.ofString "a.csv" = q := Option.some.inj hq
    rw [hfiles]
    decide +kernel)
  have hload' : (Config.load "c.yaml").Turns w'.files selfConfig w'.files :=
    turns_load_iff.mpr ⟨bytes, v, hkept.trans hread, hsettings⟩
  have hrun' : (parseFile "a.csv" >>= runPipeline (.plain "") selfConfig).Turns w'.files
      ["a.csv"] _ := ⟨_, Job.gives_of_outcome (by rw [hfiles]; decide +kernel), rfl⟩
  obtain ⟨w'', hconvert', hfiles'⟩ :=
    (ignoresLog_convert (.plain "") "c.yaml").turns_iff.mp (turns_convert_of_load hload' hrun')
  refine ⟨w', w'', hconvert, hconvert', ?_, ?_⟩
  · rw [hfiles]
    decide +kernel
  · rw [hfiles', hfiles]
    decide +kernel

end Delimited
