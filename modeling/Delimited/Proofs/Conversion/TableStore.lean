import Delimited.Conversion.Plain
import Delimited.Proofs.FileTree.Confined

/-!
# Stores of tables

Tables are stored outside of the program, so what is relied on is stated here. A path is
taken as it is unless it starts with a tilde. A table is stored by putting the file with its
bytes where it goes, if the file tree lets this be done, and whatever else happens, nothing
but this file changes. What goes out of the file tree neither changes it nor depends on it.

## Main definitions

* `TableStore.Lawful`: what conversions rely on in a store of tables.

## Main results

* `TableStore.lawful_withHome`: the stores with a home directory are such stores.
-/

namespace Delimited

namespace FileTree

variable {t u : FileTree} {p : Path} {e : Entry}

theorem hasDir_parent_of_store (h : t.store p e = .ok u) : t.hasDir p.parent = true := by
  obtain ⟨l, hlocate, hdir, -⟩ := store_eq_ok_iff.mp h
  rcases List.eq_nil_or_concat p.parts with hparts | ⟨above, name, hparts⟩
  · obtain rfl := eq_nil_of_locate hparts hlocate
    exact absurd rfl hdir
  · rw [List.concat_eq_append] at hparts
    rw [locate, hparts, walk_append] at hlocate
    rw [hasDir_eq_true_iff, Path.parent, hparts, List.dropLast_concat]
    cases hwalk : t.walk [] above with
    | error cause => simp [hwalk, Except.bind, Except.mapError] at hlocate
    | ok m =>
      refine ⟨m, rfl, ?_⟩
      simp only [hwalk, Except.bind, walk] at hlocate
      split at hlocate
      · assumption
      · simp [Except.mapError] at hlocate
      · simp [Except.mapError] at hlocate

theorem hasDir_eq_false_of_store (h : t.store p e = .ok u) : t.hasDir p = false := by
  obtain ⟨l, hlocate, hdir, -⟩ := store_eq_ok_iff.mp h
  simpa [hasDir, stat?, hlocate] using hdir

end FileTree

namespace TableStore

variable {home : Option Path} {t : Table} {p q : Path} {files files' : FileTree}
  {names : List String}

/-- What conversions rely on in a store of tables. -/
structure Lawful (store : TableStore) : Prop where
  /-- A path that does not start with a tilde is taken as it is. -/
  destination_eq : ∀ {p}, p.isHome = false → store.destination p = some p
  /-- A table is stored when it has a file and the file can be put where it goes. Then
  nothing else is done. -/
  write_eq_none_iff : ∀ {t p q files files'}, store.destination p = some q →
    (store.write t p files = (files', none) ↔
      ∃ bytes, store.image t = some bytes ∧ files.store q (.table t bytes) = .ok files')
  /-- A table that is not stored leaves all but its file as it was. -/
  confined : ∀ {out t p q files}, store.destination p = some q →
    FileTree.Confined out [q] files (store.write t p files).1
  /-- What goes out of the file tree leaves the file tree. -/
  files_eq : ∀ {t p files}, store.destination p = none → (store.write t p files).1 = files
  /-- Whether it gets there has to do with no file in the tree. -/
  cause_eq : ∀ {t p files files'}, store.destination p = none →
    (store.write t p files).2 = (store.write t p files').2
  /-- A table whose columns have different names has a file. -/
  exists_image : ∀ {t : Table}, t.names.Nodup → ∃ bytes, store.image t = some bytes

/-! ### Stores with a home directory -/

theorem hasRepeats_eq_false_of_nodup (h : names.Nodup) : hasRepeats names = false := by
  induction names with
  | nil => rfl
  | cons name names ih =>
    obtain ⟨hnotMem, hnodup⟩ := List.nodup_cons.mp h
    simp [hasRepeats, hnotMem, ih hnodup]

theorem isBelowHome_eq_false (h : p.isHome = false) : isBelowHome p = false := by
  by_contra hhome
  obtain ⟨root, parts⟩ := p
  cases parts with
  | nil => simp [isBelowHome] at hhome
  | cons name names =>
    obtain ⟨rfl, rfl⟩ : root = "" ∧ name = "~" := by simpa [isBelowHome] using hhome
    simp [Path.isHome] at h

theorem destinationOf_eq (h : isBelowHome p = false) : destinationOf home p = some p := by
  simp [destinationOf, h]

theorem image_withHome_eq_some_iff {bytes' : List UInt8} :
    (withHome home).image t = some bytes' ↔ hasRepeats t.names = false ∧ bytes t = bytes' := by
  cases h : hasRepeats t.names <;> simp [withHome, h]

/-- In the file tree, a table without a name twice is put where its path goes. -/
theorem write_withHome_eq_none_iff (h : destinationOf home p = some q) :
    (withHome home).write t p files = (files', none) ↔
      hasRepeats t.names = false ∧ files.store q (.table t (bytes t)) = .ok files' := by
  constructor
  · intro hwrite
    simp only [withHome, h] at hwrite
    split_ifs at hwrite with hrepeats hdir hparent
    · cases hwrite
    · cases hwrite
    · cases hwrite
    · split at hwrite
      · cases hwrite
      · rename_i hput
        cases hwrite
        exact ⟨by simpa using hrepeats, hput⟩
  · rintro ⟨hrepeats, hstore⟩
    simp [withHome, h, hrepeats, FileTree.hasDir_eq_false_of_store hstore,
      FileTree.hasDir_parent_of_store hstore, hstore]

theorem confined_write_withHome (out : Path) (t : Table) (files : FileTree)
    (h : destinationOf home p = some q) :
    FileTree.Confined out [q] files ((withHome home).write t p files).1 := by
  simp only [withHome, h]
  split_ifs
  · exact .refl _ _ _
  · exact .refl _ _ _
  · exact .refl _ _ _
  · split
    · exact .refl _ _ _
    · rename_i made hmade
      exact FileTree.confined_of_store out hmade

/-- Out of the file tree, a table without a name twice goes for stored. -/
theorem write_withHome_of_eq_none (t : Table) (files : FileTree)
    (h : destinationOf home p = none) :
    (withHome home).write t p files =
      (files, if hasRepeats t.names then some (.repeatedNames t.names) else none) := by
  simp only [withHome, h]
  split_ifs <;> rfl

/-- Wherever the home directory is, conversions can rely on the store. -/
theorem lawful_withHome (home : Option Path) : (withHome home).Lawful where
  destination_eq h := destinationOf_eq (isBelowHome_eq_false h)
  write_eq_none_iff h := by
    simp [write_withHome_eq_none_iff h, image_withHome_eq_some_iff, and_assoc]
  confined h := confined_write_withHome _ _ _ h
  files_eq h := by rw [write_withHome_of_eq_none _ _ h]
  cause_eq h := by rw [write_withHome_of_eq_none _ _ h, write_withHome_of_eq_none _ _ h]
  exists_image h := ⟨_, image_withHome_eq_some_iff.mpr ⟨hasRepeats_eq_false_of_nodup h, rfl⟩⟩

end TableStore

theorem Environment.lawful_plain (now : String) : (Environment.plain now).tables.Lawful :=
  TableStore.lawful_withHome none

end Delimited
