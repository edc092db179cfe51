import Delimited.Proofs.Conversion.Export
import Delimited.Proofs.Conversion.TableStore
import Delimited.Proofs.Effects

/-!
# The files of an export

For every table of an export there is one file, and what it holds depends on the
table and the settings alone. An export makes the directory and then stores these
files one after another, so it is known which paths it gives, what stands at them
afterwards, and that storing them again changes nothing. Whether it succeeds or
not, only these files and missing directories on the way change.

Text goes to the path that the export gives. The file of a stored table goes where
the store takes it to, which need not be in the file tree.

## Main definitions

* `Export.content?`: what is stored for a table, if it can be stored.
* `Export.place?`: where the file for a path goes.
* `Export.Writes`: a table is written to a path.
* `Export.tables`: the tables of an export, with their paths.
* `Export.Stores`: tables are stored one after another.

## Main results

* `Export.gives_write_iff_writes`: what a successful write does.
* `turns_exportTable_iff`: what a successful export does.
* `changes_exportTable`, `failsOnly_exportTable`: what any export does.
* `Export.Stores.again`: storing once more changes nothing.
* `Export.Stores.exists_stat?`: what stands where a table was stored.
-/

namespace Delimited

namespace Export

variable {store : TableStore} {output : Config.Output} {t : Table} {p q : Path} {e : Entry}
  {files files' : FileTree} {l : Location} {w w' : World} {xs : List (Path × Table)}

/-! ### One file -/

/-- What is stored for a table: its text in the encoding of the settings, or the
table in the bytes of a store. -/
def content? (store : TableStore) (output : Config.Output) (t : Table) : Option Entry :=
  match output.format with
  | .csv => (text output t).toOption.bind fun s =>
      (encode output.encoding s).toOption.map .file
  | .parquet => (store.image t).map (.table t)
  | .other _ => none

/-- Where the file for a path goes, if it is in the file tree. -/
def place? (store : TableStore) (output : Config.Output) (p : Path) : Option Path :=
  match output.format with
  | .parquet => store.destination p
  | _ => some p

/-- Text goes to its path, and so does a table whose path does not start with a tilde. -/
theorem place?_eq_some (hstore : store.Lawful) (h : output.format = .csv ∨ p.isHome = false) :
    place? store output p = some p := by
  unfold place?
  split
  · rename_i hformat
    rcases h with h | h
    · rw [h] at hformat
      cases hformat
    · exact hstore.destination_eq h
  · rfl

theorem destination_eq_none (h : place? store output p = none) : store.destination p = none := by
  unfold place? at h
  split at h
  · exact h
  · cases h

/-- A table is written to a path: its file is put where it goes, if that is in the file
tree. -/
inductive Writes (store : TableStore) (output : Config.Output) (p : Path) (t : Table)
    (files : FileTree) : FileTree → Prop
  /-- The file is put in the tree. -/
  | stored {q : Path} {e : Entry} {files' : FileTree} (place : place? store output p = some q)
      (entry : content? store output t = some e) (stored : files.store q e = .ok files') :
      Writes store output p t files files'
  /-- The file goes out of the tree. -/
  | beyond (place : place? store output p = none) (done : (store.write t p files).2 = none) :
      Writes store output p t files files

theorem writes_iff_of_place (hplace : place? store output p = some q) :
    Writes store output p t files files' ↔
      ∃ e, content? store output t = some e ∧ files.store q e = .ok files' := by
  constructor
  · intro h
    cases h with
    | stored place entry stored =>
      obtain rfl : q = _ := Option.some.inj (hplace.symm.trans place)
      exact ⟨_, entry, stored⟩
    | beyond place done =>
      rw [hplace] at place
      cases place
  · rintro ⟨e, entry, stored⟩
    exact .stored hplace entry stored

theorem writes_iff_of_beyond (hplace : place? store output p = none) :
    Writes store output p t files files' ↔ files' = files ∧ (store.write t p files).2 = none := by
  constructor
  · intro h
    cases h with
    | stored place entry stored =>
      rw [hplace] at place
      cases place
    | beyond place done => exact ⟨rfl, done⟩
  · rintro ⟨rfl, done⟩
    exact .beyond hplace done

/-- What is stored is a file. -/
theorem ne_directory_of_content? (h : content? store output t = some e) : e ≠ .directory := by
  rintro rfl
  unfold content? at h
  split at h
  · cases htext : text output t with
    | error cause => simp [htext, Except.toOption] at h
    | ok s => cases hbytes : encode output.encoding s <;> simp [htext, hbytes, Except.toOption] at h
  · cases himage : store.image t <;> simp [himage] at h
  · cases h

/-- Every table with columns of different names can be stored, in a format and with
line ends that are known. -/
theorem exists_content? (hstore : store.Lawful)
    (hformat : output.format = .csv ∨ output.format = .parquet)
    (hterminator : ∃ b, output.terminator = .known b)
    (hencoding : output.encoding ∈ ["utf-8", "utf-8-sig"]) (hcolumns : t.columns ≠ [])
    (hnames : t.names.Nodup) : ∃ e, content? store output t = some e := by
  rcases hformat with hformat | hformat
  · obtain ⟨b, hb⟩ := hterminator
    obtain ⟨s, hs, -⟩ := exists_formatDocument_eq b true t.records_ne_nil
      (List.length_pos_iff.mpr hcolumns) fun _ => Table.length_of_mem_records
    obtain ⟨bytes, hbytes⟩ : ∃ bytes, encode output.encoding s = .ok bytes := by
      simp only [List.mem_cons, List.not_mem_nil, or_false] at hencoding
      rcases hencoding with hencoding | hencoding <;> rw [hencoding] <;> exact ⟨_, rfl⟩
    exact ⟨.file bytes, by
      simp [content?, hformat, text_eq_ok_iff.mpr ⟨b, hb, hs⟩, hbytes, Except.toOption]⟩
  · obtain ⟨bytes, hbytes⟩ := hstore.exists_image hnames
    exact ⟨.table t bytes, by simp [content?, hformat, hbytes]⟩

/-- What becomes of the files when a table is written, and why that fails. -/
def attempt (store : TableStore) (output : Config.Output) (t : Table) (p : Path)
    (files : FileTree) : FileTree × Option Failure :=
  match output.format with
  | .csv => (writeText output t p files).map id (·.map (.notExported p.name .csv))
  | .parquet => (store.write t p files).map id (·.map (.notExported p.name .parquet))
  | .other name => (files, some (.unsupportedFormat name))

theorem outcome_write (store : TableStore) (output : Config.Output) (t : Table) (p : Path)
    (w : World) :
    (write store output t p).outcome w =
      match attempt store output t p w.files with
      | (files, none) => (.ok (), { w with files })
      | (files, some e) => (.error e, { w with files }) := by
  cases hformat : output.format with
  | csv =>
    simp only [write, attempt, hformat, Job.outcome_bind, Job.outcome_files]
    obtain ⟨files, cause⟩ := writeText output t p w.files
    rw [outcome_finish]
    cases cause <;> rfl
  | parquet =>
    simp only [write, attempt, hformat, Job.outcome_bind, Job.outcome_files]
    obtain ⟨files, cause⟩ := store.write t p w.files
    rw [outcome_finish]
    cases cause <;> rfl
  | other name =>
    simp only [write, attempt, hformat]
    rfl

/-- Storing an empty file first makes no difference. -/
theorem store_file_iff {bytes : List UInt8} :
    (∃ made, files.store p (.file []) = .ok made ∧ made.store p (.file bytes) = .ok files') ↔
      files.store p (.file bytes) = .ok files' := by
  constructor
  · rintro ⟨made, hmade, hfilled⟩
    have hkeep := FileTree.keepsDirs_of_store hmade
    obtain ⟨l, hlocate, hdir, rfl⟩ := FileTree.store_eq_ok_iff.mp hmade
    obtain ⟨m, hlocate', -, rfl⟩ := FileTree.store_eq_ok_iff.mp hfilled
    obtain rfl : l = m := by simpa [hkeep.locate hlocate] using hlocate'
    exact FileTree.store_eq_ok_iff.mpr ⟨l, hlocate, hdir, FileTree.put_put files l _ _⟩
  · intro hstore
    obtain ⟨l, hlocate, hdir, rfl⟩ := FileTree.store_eq_ok_iff.mp hstore
    refine ⟨_, FileTree.store_eq_ok_iff.mpr ⟨l, hlocate, hdir, rfl⟩,
      FileTree.store_eq_ok_iff.mpr ⟨l, (FileTree.keepsDirs_put hdir).locate hlocate, ?_,
        (FileTree.put_put files l _ _).symm⟩⟩
    rw [FileTree.get?_put_self (FileTree.ne_nil_of_get?_ne hdir)]
    simp

/-- A text is written when its bytes are stored. -/
theorem writeText_eq_none_iff_content (hformat : output.format = .csv) :
    writeText output t p files = (files', none) ↔
      ∃ e, content? store output t = some e ∧ files.store p e = .ok files' := by
  simp only [writeText_eq_none_iff, content?, hformat]
  constructor
  · rintro ⟨s, made, bytes, hs, hmade, hbytes, hfilled⟩
    exact ⟨.file bytes, by simp [hs, hbytes, Except.toOption], store_file_iff.mp
      ⟨made, put_eq_ok_iff.mp hmade, put_eq_ok_iff.mp hfilled⟩⟩
  · rintro ⟨e, he, hstored⟩
    cases hs : text output t with
    | error cause => simp [hs, Except.toOption] at he
    | ok s =>
      cases hbytes : encode output.encoding s with
      | error cause => simp [hs, hbytes, Except.toOption] at he
      | ok bytes =>
        obtain rfl : .file bytes = e := by simpa [hs, hbytes, Except.toOption] using he
        obtain ⟨made, hmade, hfilled⟩ := store_file_iff.mpr hstored
        exact ⟨s, made, bytes, rfl, put_eq_ok_iff.mpr hmade, hbytes, put_eq_ok_iff.mpr hfilled⟩

/-- Naming the file in a failure does not decide whether there is one. -/
theorem map_failure_eq_none_iff {α : Type} {x : FileTree × Option α} {failure : α → Failure} :
    x.map id (·.map failure) = (files', none) ↔ x = (files', none) := by
  obtain ⟨files, cause⟩ := x
  cases cause <;> simp

/-- A table is written when its file is put where it goes. -/
theorem attempt_eq_none_iff (hstore : store.Lawful) :
    attempt store output t p files = (files', none) ↔ Writes store output p t files files' := by
  cases hformat : output.format with
  | csv =>
    have hplace : place? store output p = some p := by simp [place?, hformat]
    simp only [attempt, hformat, map_failure_eq_none_iff]
    rw [writes_iff_of_place hplace, writeText_eq_none_iff_content hformat]
  | parquet =>
    have hplace : place? store output p = store.destination p := by simp [place?, hformat]
    simp only [attempt, hformat, map_failure_eq_none_iff]
    cases hdestination : store.destination p with
    | some q =>
      rw [writes_iff_of_place (hplace.trans hdestination), hstore.write_eq_none_iff hdestination]
      simp [content?, hformat]
    | none =>
      rw [writes_iff_of_beyond (hplace.trans hdestination), Prod.ext_iff,
        hstore.files_eq hdestination, eq_comm]
  | other name =>
    have hplace : place? store output p = some p := by simp [place?, hformat]
    rw [writes_iff_of_place hplace]
    simp [attempt, content?, hformat]

/-- What a successful write does. -/
theorem gives_write_iff_writes (hstore : store.Lawful) {u : Unit} :
    (write store output t p).Gives w u w' ↔
      ∃ files, Writes store output p t w.files files ∧ { w with files } = w' := by
  rw [Job.Gives, outcome_write]
  simp only [← attempt_eq_none_iff hstore]
  obtain ⟨files, cause⟩ := attempt store output t p w.files
  cases cause <;> simp

/-! ### What any attempt does -/

theorem confined_writeText (out : Path) (output : Config.Output) (t : Table) (p : Path)
    (files : FileTree) : FileTree.Confined out [p] files (writeText output t p files).1 := by
  -- A text that cannot be encoded is given up after an empty file was made.
  unfold writeText
  split
  · exact .refl _ _ _
  · split
    · exact .refl _ _ _
    · rename_i made hmade
      have hconfined := FileTree.confined_of_store out (put_eq_ok_iff.mp hmade)
      split
      · exact hconfined
      · split
        · exact hconfined
        · rename_i filled hfilled
          exact hconfined.trans (FileTree.confined_of_store out (put_eq_ok_iff.mp hfilled))

theorem confined_attempt (hstore : store.Lawful) (out : Path) (output : Config.Output) (t : Table)
    (p : Path) (files : FileTree) :
    FileTree.Confined out (place? store output p).toList files
      (attempt store output t p files).1 := by
  cases hformat : output.format with
  | csv =>
    simp only [attempt, place?, hformat]
    exact confined_writeText out output t p files
  | parquet =>
    simp only [attempt, place?, hformat, Prod.map_fst, id_eq]
    cases hdestination : store.destination p with
    | some q => exact hstore.confined hdestination
    | none =>
      rw [hstore.files_eq hdestination]
      exact .refl _ _ _
  | other name =>
    simp only [attempt, hformat]
    exact .refl _ _ _

end Export

/-- The failures of an export. -/
def Failure.isOfExport : Failure → Bool
  | .notExported _ _ _ => true
  | .unsupportedFormat _ => true
  | _ => false

namespace Export

variable {store : TableStore} {output : Config.Output} {t : Table} {p q : Path} {e : Entry}
  {files files' : FileTree} {l : Location} {xs : List (Path × Table)}

theorem isOfExport_of_attempt {failure : Failure}
    (h : (attempt store output t p files).2 = some failure) :
    failure.isOfExport = true := by
  unfold attempt at h
  split at h
  · obtain ⟨cause, -, rfl⟩ := Option.map_eq_some_iff.mp h
    rfl
  · obtain ⟨cause, -, rfl⟩ := Option.map_eq_some_iff.mp h
    rfl
  · cases h
    rfl

theorem changes_write (hstore : store.Lawful) (out : Path) (output : Config.Output) (t : Table)
    (p : Path) :
    (write store output t p).Changes (FileTree.Confined out (place? store output p).toList) := by
  intro w
  have hconfined := confined_attempt hstore out output t p w.files
  rw [outcome_write]
  revert hconfined
  obtain ⟨files, cause⟩ := attempt store output t p w.files
  intro hconfined
  cases cause <;> exact hconfined

theorem failsOnly_write (store : TableStore) (output : Config.Output) (t : Table) (p : Path) :
    (write store output t p).FailsOnly fun e => e.isOfExport = true := by
  intro w e w' h
  rw [Job.Fails, outcome_write] at h
  cases hattempt : attempt store output t p w.files with
  | mk files cause =>
    rw [hattempt] at h
    cases cause with
    | none => cases h
    | some failure =>
      cases h
      exact isOfExport_of_attempt (congrArg Prod.snd hattempt)

theorem ignoresLog_write (store : TableStore) (output : Config.Output) (t : Table) (p : Path) :
    (write store output t p).IgnoresLog := by
  intro w v hfiles
  rw [outcome_write, outcome_write, hfiles]
  obtain ⟨files, cause⟩ := attempt store output t p v.files
  cases cause <;> exact ⟨rfl, rfl⟩

theorem Writes.keepsDirs (h : Writes store output p t files files') :
    FileTree.KeepsDirs files files' := by
  cases h with
  | stored place entry stored => exact FileTree.keepsDirs_of_store stored
  | beyond place done => exact .refl files

theorem Writes.hasFile (h : Writes store output p t files files') (hfile : files.HasFile l) :
    files'.HasFile l := by
  cases h with
  | stored place entry stored =>
    obtain ⟨m, -, hdir, rfl⟩ := FileTree.store_eq_ok_iff.mp stored
    exact hfile.put (FileTree.ne_nil_of_get?_ne hdir) (ne_directory_of_content? entry)
  | beyond place done => exact hfile

/-! ### Several files -/

/-- The path of the file of a table. -/
def path (output : Config.Output) (name : String) : Path :=
  (Path.ofString output.dir).join (name ++ ("." ++ output.format.name))

/-- The tables of an export, with their paths. -/
def tables (name : String) (t : Table) (description : Option Table) (output : Config.Output) :
    List (Path × Table) :=
  (path output name, t) :: (description.map (path output descriptionName, ·)).toList

/-- Where the files for some paths go, as far as that is in the file tree. -/
def places (store : TableStore) (output : Config.Output) (paths : List Path) : List Path :=
  paths.filterMap (place? store output)

theorem places_eq_self {paths : List Path}
    (h : ∀ p ∈ paths, place? store output p = some p) : places store output paths = paths := by
  rw [places, List.filterMap_congr h, List.filterMap_some]

/-- Tables are stored one after another. -/
inductive Stores (store : TableStore) (output : Config.Output) :
    List (Path × Table) → FileTree → FileTree → Prop
  | nil (files : FileTree) : Stores store output [] files files
  | cons {p : Path} {t : Table} {xs : List (Path × Table)} {files files₁ files₂ : FileTree}
      (first : Writes store output p t files files₁)
      (others : Stores store output xs files₁ files₂) :
      Stores store output ((p, t) :: xs) files files₂

namespace Stores

theorem keepsDirs (h : Stores store output xs files files') : FileTree.KeepsDirs files files' := by
  induction h with
  | nil files => exact .refl files
  | cons first others ih => exact first.keepsDirs.trans ih

/-- Where a file stands, one stands when more tables have been stored. -/
theorem hasFile (h : Stores store output xs files files') (hfile : files.HasFile l) :
    files'.HasFile l := by
  induction h with
  | nil files => exact hfile
  | cons first others ih => exact ih (first.hasFile hfile)

/-- Storing tables changes their files only. -/
theorem confined (h : Stores store output xs files files') (out : Path) :
    FileTree.Confined out (places store output (xs.map Prod.fst)) files files' := by
  induction h with
  | nil files => exact .refl _ _ _
  | @cons p t xs files files₁ files₂ first others ih =>
    have hlater : FileTree.Confined out (places store output (((p, t) :: xs).map Prod.fst))
        files₁ files₂ := by
      refine ih.mono fun q hq => ?_
      obtain ⟨r, hr, hplace⟩ := List.mem_filterMap.mp hq
      exact List.mem_filterMap.mpr ⟨r, List.mem_cons_of_mem _ hr, hplace⟩
    cases first with
    | stored place entry stored =>
      exact ((FileTree.confined_of_store out stored).mono (by simp [places, place])).trans hlater
    | beyond place done => exact hlater

/-- A file stands where the file for a path goes. -/
theorem exists_hasFile (h : Stores store output xs files files') :
    ∀ x ∈ xs, ∀ q, place? store output x.1 = some q →
      ∃ l, files'.locate q = .ok l ∧ files'.HasFile l := by
  induction h with
  | nil files => simp
  | @cons p t xs files files₁ files₂ first others ih =>
    rw [List.forall_mem_cons]
    refine ⟨fun q hplace => ?_, ih⟩
    obtain ⟨e, entry, stored⟩ := (writes_iff_of_place hplace).mp first
    have hkeep := (FileTree.keepsDirs_of_store stored).trans others.keepsDirs
    obtain ⟨l, hlocate, hdir, rfl⟩ := FileTree.store_eq_ok_iff.mp stored
    exact ⟨l, hkeep.locate hlocate, others.hasFile (FileTree.hasFile_put_self
      (FileTree.ne_nil_of_get?_ne hdir) (ne_directory_of_content? entry))⟩

theorem exists_stat? (h : Stores store output xs files files') {x : Path × Table} (hx : x ∈ xs)
    (hplace : place? store output x.1 = some q) :
    ∃ e, files'.stat? q = some e ∧ e ≠ .directory := by
  obtain ⟨l, hlocate, e, he, hdir⟩ := h.exists_hasFile x hx q hplace
  exact ⟨e, FileTree.stat?_eq_some_iff.mpr ⟨l, hlocate, he⟩, hdir⟩

/-! ### Storing again -/

/-- What stands at a location stays there when tables are stored elsewhere. -/
theorem put_eq_self (h : Stores store output xs files files') (hput : files.put l e = files)
    (hother : ∀ x ∈ xs, ∀ q, place? store output x.1 = some q → files'.locate q ≠ .ok l) :
    files'.put l e = files' := by
  induction h with
  | nil files => exact hput
  | cons first others ih =>
    refine ih ?_ fun x hx => hother x (by simp [hx])
    cases first with
    | stored place entry stored =>
      have hkeep := (FileTree.keepsDirs_of_store stored).trans others.keepsDirs
      obtain ⟨m, hlocate, hdir, rfl⟩ := FileTree.store_eq_ok_iff.mp stored
      have hne : l ≠ m := by
        rintro rfl
        exact hother _ (List.mem_cons_self ..) _ place (hkeep.locate hlocate)
      exact FileTree.put_eq_self_put hput hne
    | beyond place done => exact hput

/-- What is put in a file makes no difference when a table is stored there later. -/
theorem of_put (hstore : store.Lawful) (h : Stores store output xs files files')
    (hfile : files.HasFile l) (he : e ≠ .directory)
    (hlater : ∃ x ∈ xs, ∃ q, place? store output x.1 = some q ∧ files'.locate q = .ok l) :
    Stores store output xs (files.put l e) files' := by
  induction h with
  | nil files => simp at hlater
  | @cons p t xs files files₁ files₂ first others ih =>
    rw [List.exists_mem_cons_iff] at hlater
    have hroot := FileTree.ne_nil_of_get?_ne hfile.get?_ne
    have hput : FileTree.KeepsDirs files (files.put l e) := FileTree.keepsDirs_put hfile.get?_ne
    cases first with
    | @stored q f _ place entry stored =>
      obtain ⟨m, hlocate, hdir, rfl⟩ := FileTree.store_eq_ok_iff.mp stored
      by_cases hm : l = m
      · -- This table is stored there, over what was put.
        subst hm
        have hover : (files.put l e).get? l ≠ some .directory :=
          (FileTree.hasFile_put_self hroot he).get?_ne
        refine .cons (.stored place entry (FileTree.store_eq_ok_iff.mpr
          ⟨l, hput.locate hlocate, hover, (FileTree.put_put files l e f).symm⟩)) others
      · -- It is stored elsewhere, so another one is stored there.
        have hf : f ≠ .directory := ne_directory_of_content? entry
        have helsewhere : (files.put l e).get? m ≠ some .directory := by
          rwa [FileTree.get?_put_of_ne hroot (Ne.symm hm)]
        have hkeep := (FileTree.keepsDirs_of_store stored).trans others.keepsDirs
        have hothers := ih (hfile.put (FileTree.ne_nil_of_get?_ne hdir) hf) (hlater.resolve_left (by
          rintro ⟨r, hplace, hr⟩
          obtain rfl : q = r := Option.some.inj (place.symm.trans hplace)
          exact hm (by simpa [hkeep.locate hlocate] using hr.symm)))
        rw [← FileTree.put_comm hroot hfile.get?_ne_none hm] at hothers
        exact .cons (.stored place entry (FileTree.store_eq_ok_iff.mpr
          ⟨m, hput.locate hlocate, helsewhere, rfl⟩)) hothers
    | beyond place done =>
      have hothers := ih hfile (hlater.resolve_left fun ⟨q, hplace, _⟩ => by simp [place] at hplace)
      exact .cons (.beyond place (hstore.cause_eq (destination_eq_none place) ▸ done)) hothers

/-- Storing the same tables once more changes nothing. -/
theorem again (hstore : store.Lawful) (h : Stores store output xs files files') :
    Stores store output xs files' files' := by
  induction h with
  | nil files => exact .nil files
  | @cons p t xs files files₁ files₂ first others ih =>
    cases first with
    | @stored q e _ place entry stored =>
      have hkeep := (FileTree.keepsDirs_of_store stored).trans others.keepsDirs
      obtain ⟨l, hlocate, hdir, rfl⟩ := FileTree.store_eq_ok_iff.mp stored
      have he : e ≠ .directory := ne_directory_of_content? entry
      have hfile := others.hasFile
        (FileTree.hasFile_put_self (e := e) (FileTree.ne_nil_of_get?_ne hdir) he)
      have hstored : files₂.store q e = .ok (files₂.put l e) :=
        FileTree.store_eq_ok_iff.mpr ⟨l, hkeep.locate hlocate, hfile.get?_ne, rfl⟩
      refine .cons (.stored place entry hstored) ?_
      -- Either a later table replaces the file again, or the file is still there.
      by_cases hlater : ∃ x ∈ xs, ∃ q, place? store output x.1 = some q ∧ files₂.locate q = .ok l
      · exact ih.of_put hstore hfile he hlater
      · push Not at hlater
        rwa [others.put_eq_self (FileTree.put_put files l e e) hlater]
    | beyond place done =>
      exact .cons (.beyond place (hstore.cause_eq (destination_eq_none place) ▸ done)) ih

end Stores

end Export

/-! ### Exports -/

variable {store : TableStore} {name : String} {t : Table} {description : Option Table}
  {output : Config.Output} {files files' : FileTree} {written : List String}

/-- An export makes its directory and stores its tables, and gives their paths. -/
theorem turns_exportTable_iff (hstore : store.Lawful) :
    (exportTable store name t description output).Turns files written files' ↔
      ∃ made, files.makeDirs (.ofString output.dir) = .ok made ∧
        Export.Stores store output (Export.tables name t description output) made files' ∧
        written = (Export.tables name t description output).map fun x => toString x.1 := by
  have hpath (name : String) : (Path.ofString output.dir).join
      (name ++ ("." ++ output.format.name)) = Export.path output name := rfl
  simp only [Job.Turns, exportTable, exportInto, hpath, Job.gives_bind_iff,
    Job.gives_ensureDirs_iff, Export.gives_write_iff_writes hstore, Job.info, Job.report,
    Job.gives_modify_iff]
  -- What the paths are does not matter here.
  unfold Export.tables
  generalize Export.path output name = p, Export.path output descriptionName = q
  cases description with
  | none =>
    simp only [Job.gives_pure_iff, Option.map_none, Option.toList_none, List.map_cons,
      List.map_nil]
    constructor
    · rintro ⟨_, ⟨_, _, ⟨made, hmade, rfl⟩, _, _, ⟨_, hfirst, rfl⟩, _, _, rfl, rfl, rfl⟩, rfl⟩
      exact ⟨made, hmade, .cons hfirst (.nil _), rfl⟩
    · rintro ⟨made, hmade, hstores, rfl⟩
      cases hstores with
      | cons hfirst hothers =>
        cases hothers
        exact ⟨_, ⟨(), _, ⟨made, hmade, rfl⟩, (), _, ⟨_, hfirst, rfl⟩, (), _, rfl, rfl, rfl⟩, rfl⟩
  | some d =>
    simp only [Job.gives_bind_iff, Job.gives_pure_iff, Export.gives_write_iff_writes hstore,
      Job.gives_modify_iff, Option.map_some, Option.toList_some, List.map_cons, List.map_nil]
    constructor
    · rintro ⟨_, ⟨_, _, ⟨made, hmade, rfl⟩, _, _, ⟨_, hfirst, rfl⟩, _, _, rfl, _, _,
        ⟨_, hsecond, rfl⟩, _, _, rfl, rfl, rfl⟩, rfl⟩
      exact ⟨made, hmade, .cons hfirst (.cons hsecond (.nil _)), rfl⟩
    · rintro ⟨made, hmade, hstores, rfl⟩
      cases hstores with
      | cons hfirst hothers =>
        cases hothers with
        | cons hsecond hothers =>
          cases hothers
          exact ⟨_, ⟨(), _, ⟨made, hmade, rfl⟩, (), _, ⟨_, hfirst, rfl⟩, (), _, rfl, (), _,
            ⟨_, hsecond, rfl⟩, (), _, rfl, rfl, rfl⟩, rfl⟩

/-- An export changes its files, and makes missing directories on their way. -/
theorem changes_exportTable (hstore : store.Lawful) (name : String) (t : Table)
    (description : Option Table) (output : Config.Output) :
    (exportTable store name t description output).Changes
      (FileTree.Confined (.ofString output.dir) (Export.places store output
        ((Export.tables name t description output).map Prod.fst))) := by
  generalize htargets : Export.places store output
    ((Export.tables name t description output).map Prod.fst) = targets
  have hwrite (d : Table) (p : Path)
      (hp : p ∈ (Export.tables name t description output).map Prod.fst) :
      (Export.write store output d p).Changes
        (FileTree.Confined (.ofString output.dir) targets) := by
    intro w
    refine (Export.changes_write hstore _ output d p w).mono fun q hq => ?_
    rw [← htargets, Export.places, List.mem_filterMap]
    exact ⟨p, hp, by simpa using hq⟩
  have hquery {α : Type} {x : Job α} (hx : x.IsQuery) :
      x.Changes (FileTree.Confined (.ofString output.dir) targets) := hx.changes (.refl _ _)
  refine Job.Changes.bind .trans (fun w => (Job.changes_ensureDirs _ w).mono nofun) fun _ => ?_
  refine Job.Changes.bind .trans (hwrite t _ (by simp [Export.tables, Export.path])) fun _ => ?_
  refine Job.Changes.bind .trans (hquery (Job.isQuery_info _ _)) fun _ => ?_
  cases description with
  | none => exact hquery (Job.isQuery_pure _)
  | some d =>
    refine Job.Changes.bind .trans (hwrite d _ (by simp [Export.tables, Export.path])) fun _ => ?_
    exact Job.Changes.bind .trans (hquery (Job.isQuery_info _ _)) fun _ =>
      hquery (Job.isQuery_pure _)

/-- Making the directory is one step, which comes before all others. -/
theorem exportInto_eq (makeDirs : Path → Job Unit) (store : TableStore) (name : String) (t : Table)
    (description : Option Table) (output : Config.Output) :
    exportInto makeDirs store name t description output =
      makeDirs (.ofString output.dir) >>= fun _ =>
        exportInto (fun _ => pure ()) store name t description output := rfl

/-- An export gives the paths of its tables. -/
theorem Job.Gives.eq_of_exportInto {makeDirs : Path → Job Unit} {w w' : World}
    (h : (exportInto makeDirs store name t description output).Gives w written w') :
    written = (Export.tables name t description output).map fun x => toString x.1 := by
  simp only [exportInto, gives_bind_iff] at h
  obtain ⟨_, _, -, _, _, -, _, _, -, h⟩ := h
  cases description with
  | none => exact (gives_pure_iff.mp h).1.symm
  | some d =>
    simp only [gives_bind_iff] at h
    obtain ⟨_, _, -, _, _, -, h⟩ := h
    exact (gives_pure_iff.mp h).1.symm

/-- Once its directory is made, an export fails with a failure of its own only. -/
theorem failsOnly_exportInto (store : TableStore) (name : String) (t : Table)
    (description : Option Table) (output : Config.Output) :
    (exportInto (fun _ => pure ()) store name t description output).FailsOnly fun e =>
      e.isOfExport = true := by
  refine (Job.failsOnly_pure _).bind fun _ => (Export.failsOnly_write _ _ t _).bind fun _ =>
    (Job.failsOnly_info _ _).bind fun _ => ?_
  cases description with
  | none => exact Job.failsOnly_pure _
  | some d =>
    exact (Export.failsOnly_write _ _ d _).bind fun _ => (Job.failsOnly_info _ _).bind fun _ =>
      Job.failsOnly_pure _

/-- An export fails with a failure of its own, or because its directory cannot be
made, though never because there is nothing. -/
theorem failsOnly_exportTable (store : TableStore) (name : String) (t : Table)
    (description : Option Table) (output : Config.Output) :
    (exportTable store name t description output).FailsOnly fun e =>
      e.isOfExport = true ∨ ∃ error : OsError, e = .os error ∧ error.cause ≠ .notFound := by
  rw [exportTable, exportInto_eq]
  refine (Job.failsOnly_ensureDirs _ fun error hcause => .inr ⟨error, rfl, hcause⟩).bind fun _ => ?_
  exact fun w e w' h => .inl (failsOnly_exportInto store name t description output w e w' h)

theorem ignoresLog_exportTable (store : TableStore) (name : String) (t : Table)
    (description : Option Table) (output : Config.Output) :
    (exportTable store name t description output).IgnoresLog := by
  refine (Job.ignoresLog_ensureDirs _).bind fun _ => ?_
  refine (Export.ignoresLog_write _ _ _ _).bind fun _ => ?_
  refine (Job.isQuery_info _ _).ignoresLog.bind fun _ => ?_
  cases description with
  | none => exact (Job.isQuery_pure _).ignoresLog
  | some d =>
    refine (Export.ignoresLog_write _ _ _ _).bind fun _ => ?_
    exact ((Job.isQuery_info _ _).bind fun _ => Job.isQuery_pure _).ignoresLog

end Delimited
