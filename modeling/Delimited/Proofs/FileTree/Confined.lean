import Delimited.Proofs.FileTree

/-!
# What is written stays where it belongs

Two trees are compared location by location. Between them files may have changed
at some target paths, and directories that were missing may have been made on the
way of one path; nothing else differs. Storing a file and making directories are
confined in this sense, a sequence of confined changes is confined, and making
directories is so even when it stops half way.

## Main definitions

* `FileTree.OnTheWay`: the locations that the first names of a path lead to.
* `FileTree.Confined`: nothing differs but targets and directories on a way.

## Main results

* `FileTree.Confined.trans`: one confined change after another.
* `FileTree.confined_of_store`, `FileTree.confined_ensureDirs`: what is confined.
* `FileTree.hasDir_of_makeDirs`, `FileTree.makeDirs_of_hasDir`: a directory that was
  made is there, and need not be made again.
* `FileTree.cause_ne_notFound_of_ensureDirs`: a directory is never refused because
  there is nothing.
* `FileTree.Confined.read_eq`: a file that is no target is read as before.
-/

namespace Delimited.FileTree

variable {t u v : FileTree} {l m : Location} {e : Entry} {p q out : Path} {targets : List Path}

/-- The first names of a path lead to the location. -/
def OnTheWay (t : FileTree) (p : Path) (l : Location) : Prop :=
  ∃ names, names <+: p.parts ∧ t.walk [] names = .ok l

/-- Nothing differs but what the targets lead to and directories on the way of
`out`, which were missing. -/
structure Confined (out : Path) (targets : List Path) (t u : FileTree) : Prop where
  /-- No directory is gone. -/
  keepsDirs : KeepsDirs t u
  /-- What may differ at a location. -/
  only : ∀ l, u.get? l = t.get? l ∨
    (t.get? l = none ∧ u.get? l = some .directory ∧ u.OnTheWay out l) ∨
    ∃ p ∈ targets, u.locate p = .ok l

/-! ### Sequences of changes -/

theorem KeepsDirs.refl (t : FileTree) : KeepsDirs t t := fun _ h => h

theorem KeepsDirs.trans (h : KeepsDirs t u) (h' : KeepsDirs u v) : KeepsDirs t v :=
  fun l hl => h' l (h l hl)

theorem OnTheWay.keep (h : t.OnTheWay p l) (hkeep : KeepsDirs t u) : u.OnTheWay p l := by
  obtain ⟨names, hnames, hwalk⟩ := h
  exact ⟨names, hnames, hkeep.walk hwalk⟩

namespace Confined

theorem refl (out : Path) (targets : List Path) (t : FileTree) : Confined out targets t t :=
  ⟨.refl t, fun _ => .inl rfl⟩

theorem trans (h : Confined out targets t u) (h' : Confined out targets u v) :
    Confined out targets t v := by
  refine ⟨h.keepsDirs.trans h'.keepsDirs, fun l => ?_⟩
  rcases h'.only l with hsame | ⟨hnone, hdir, hway⟩ | htarget
  · -- The second change left the location as the first one did.
    rw [hsame]
    rcases h.only l with hsame' | ⟨hnone, hdir, hway⟩ | ⟨p, hp, hlocate⟩
    · exact .inl hsame'
    · exact .inr (.inl ⟨hnone, hdir, hway.keep h'.keepsDirs⟩)
    · exact .inr (.inr ⟨p, hp, h'.keepsDirs.locate hlocate⟩)
  · -- The second change made a directory, where the first one left nothing.
    rcases h.only l with hsame' | ⟨-, hdir', -⟩ | ⟨p, hp, hlocate⟩
    · exact .inr (.inl ⟨hsame' ▸ hnone, hdir, hway⟩)
    · rw [hnone] at hdir'
      cases hdir'
    · exact .inr (.inr ⟨p, hp, h'.keepsDirs.locate hlocate⟩)
  · exact .inr (.inr htarget)

theorem mono {targets' : List Path} (h : Confined out targets t u)
    (hsub : ∀ p ∈ targets, p ∈ targets') : Confined out targets' t u := by
  refine ⟨h.keepsDirs, fun l => ?_⟩
  rcases h.only l with hsame | hmade | ⟨p, hp, hlocate⟩
  · exact .inl hsame
  · exact .inr (.inl hmade)
  · exact .inr (.inr ⟨p, hsub p hp, hlocate⟩)

/-- Directories on the way of a path are on the way of every path that goes on. -/
theorem extend (h : Confined out targets t u) (hparts : out.parts <+: q.parts) :
    Confined q targets t u := by
  refine ⟨h.keepsDirs, fun l => ?_⟩
  rcases h.only l with hsame | ⟨hnone, hdir, names, hnames, hwalk⟩ | htarget
  · exact .inl hsame
  · exact .inr (.inl ⟨hnone, hdir, names, hnames.trans hparts, hwalk⟩)
  · exact .inr (.inr htarget)

/-- What stands at a location that no target leads to still stands there. -/
theorem get?_eq (h : Confined out targets t u) (hsome : t.get? l ≠ none)
    (htargets : ∀ p ∈ targets, u.locate p ≠ .ok l) : u.get? l = t.get? l := by
  rcases h.only l with hsame | ⟨hnone, -⟩ | ⟨p, hp, hlocate⟩
  · exact hsame
  · exact absurd hnone hsome
  · exact absurd hlocate (htargets p hp)

end Confined

/-! ### Storing files -/

/-- A file is stored at its target. -/
theorem confined_of_store (out : Path) (h : t.store p e = .ok u) : Confined out [p] t u := by
  have hkeep := keepsDirs_of_store h
  obtain ⟨l, hlocate, hdir, rfl⟩ := store_eq_ok_iff.mp h
  refine ⟨hkeep, fun m => ?_⟩
  by_cases hm : m = l
  · subst hm
    exact .inr (.inr ⟨p, by simp, hkeep.locate hlocate⟩)
  · exact .inl (get?_put_of_ne (ne_nil_of_get?_ne hdir) hm)

/-! ### Making directories -/

theorem hasDir_eq_true_iff :
    t.hasDir p = true ↔ ∃ l, t.walk [] p.parts = .ok l ∧ t.get? l = some .directory := by
  rw [hasDir, beq_iff_eq, stat?, locate]
  cases t.walk [] p.parts <;> simp [Except.mapError]

theorem locate_append_of_hasDir {root : String} {names : List String}
    (h : t.hasDir ⟨root, names⟩ = true) (name : String) :
    ∃ l, t.locate ⟨root, names ++ [name]⟩ = .ok l := by
  obtain ⟨m, hwalk, hdir⟩ := hasDir_eq_true_iff.mp h
  rw [locate, walk_append, hwalk]
  simp [Except.bind, walk, hdir, Except.mapError]

/-- In a directory every path leads somewhere. -/
theorem exists_locate_of_hasDir_parent (h : t.hasDir p.parent = true) :
    ∃ l, t.locate p = .ok l := by
  rcases List.eq_nil_or_concat p.parts with hparts | ⟨names, name, hparts⟩
  · exact ⟨[], by simp [locate, hparts, walk, Except.mapError]⟩
  · rw [List.concat_eq_append] at hparts
    have hp : p = ⟨p.root, names ++ [name]⟩ := by rw [← hparts]
    rw [hp]
    apply locate_append_of_hasDir
    rwa [Path.parent, hparts, List.dropLast_concat] at h

/-- A file is refused where a path leads nowhere, and where a directory stands. -/
theorem store_eq_error {error : OsError} (h : t.store p e = .error error) :
    t.locate p = .error error ∨ error.cause = .isADirectory := by
  rw [store] at h
  cases hlocate : t.locate p with
  | error cause =>
    simp only [hlocate, bind, Except.bind, Except.error.injEq] at h
    exact .inl (by rw [h])
  | ok l =>
    simp only [hlocate, bind, Except.bind] at h
    split at h
    · cases h
      exact .inr rfl
    · cases h

theorem makeDir_eq_ok_iff :
    t.makeDir p = .ok u ↔ ∃ l, t.locate p = .ok l ∧ t.get? l = none ∧ u = t.put l .directory := by
  rw [makeDir]
  cases hlocate : t.locate p with
  | error cause => simp [bind, Except.bind]
  | ok l =>
    simp only [bind, Except.bind, Except.ok.injEq, exists_eq_left']
    split
    · simp [*]
    · simp [*, eq_comm]

/-- A directory is refused where a path leads nowhere, and where something stands. -/
theorem makeDir_eq_error {error : OsError} (h : t.makeDir p = .error error) :
    t.locate p = .error error ∨ error.cause = .alreadyExists := by
  rw [makeDir] at h
  cases hlocate : t.locate p with
  | error cause =>
    simp only [hlocate, bind, Except.bind, Except.error.injEq] at h
    exact .inl (by rw [h])
  | ok l =>
    simp only [hlocate, bind, Except.bind] at h
    split at h
    · cases h
      exact .inr rfl
    · cases h

/-- In a directory, another one is never refused because there is nothing. -/
theorem cause_ne_notFound_of_makeDir {root name : String} {above : List String} {error : OsError}
    (hdir : t.hasDir ⟨root, above.reverse⟩ = true)
    (h : t.makeDir ⟨root, (name :: above).reverse⟩ = .error error) : error.cause ≠ .notFound := by
  obtain ⟨l, hlocate⟩ := locate_append_of_hasDir hdir name
  rw [← List.reverse_cons] at hlocate
  rcases makeDir_eq_error h with hnowhere | hexists
  · rw [hlocate] at hnowhere
    cases hnowhere
  · simp [hexists]

/-- A directory is made where nothing stood, at the end of its way. -/
theorem confined_of_makeDir (h : t.makeDir p = .ok u) :
    Confined p [] t u ∧ u.hasDir p = true := by
  obtain ⟨l, hlocate, hnone, rfl⟩ := makeDir_eq_ok_iff.mp h
  have hdir : t.get? l ≠ some .directory := by simp [hnone]
  have hl := ne_nil_of_get?_ne hdir
  have hlocate' := (keepsDirs_put hdir (e := .directory)).locate hlocate
  have hwalk : (t.put l .directory).walk [] p.parts = .ok l := by
    rw [locate] at hlocate'
    cases hw : (t.put l .directory).walk [] p.parts <;> simp_all [Except.mapError]
  refine ⟨⟨keepsDirs_put hdir, fun m => ?_⟩, ?_⟩
  · by_cases hm : m = l
    · subst hm
      exact .inr (.inl ⟨hnone, get?_put_self hl, p.parts, List.prefix_rfl, hwalk⟩)
    · exact .inl (get?_put_of_ne hl hm)
  · exact hasDir_eq_true_iff.mpr ⟨l, hwalk, get?_put_self hl⟩

/-- What making a directory comes to: only directories on the way were made, the
directory is there unless there is an error, and the error is never that there is
nothing. -/
structure Ensured (t : FileTree) (p : Path) (r : FileTree × Option OsError) : Prop where
  /-- Only directories on the way were made. -/
  confined : Confined p [] t r.1
  /-- The directory is there. -/
  hasDir : r.2 = none → r.1.hasDir p = true
  /-- The cause of an error. -/
  cause_ne : ∀ error, r.2 = some error → error.cause ≠ .notFound

theorem ensured_of_makeDir (h : Confined p [] t u) (hmade : u.makeDir p = .ok v) :
    Ensured t p (v, none) := by
  obtain ⟨hconfined, hdir⟩ := confined_of_makeDir hmade
  exact ⟨h.trans hconfined, fun _ => hdir, nofun⟩

theorem ensured_forgive {error : OsError} (h : Confined p [] t u)
    (hcause : error.cause ≠ .notFound) : Ensured t p (u.forgive p error) := by
  refine ⟨h, fun hnone => ?_, fun error' herror => ?_⟩
  · change u.hasDir p = true
    by_contra hdir
    rw [forgive, if_neg hdir] at hnone
    cases hnone
  · have hsome : (if u.hasDir p then none else some error) = some error' := herror
    split at hsome
    · cases hsome
    · cases hsome
      exact hcause

theorem ensured_ensureDirsRev (root : String) (t : FileTree) (names : List String) :
    Ensured t ⟨root, names.reverse⟩ (ensureDirsRev root t names) := by
  -- The names stand in reverse: a directory is tried before the one that it is in.
  induction names with
  | nil => exact ensured_forgive (.refl _ _ _) (by simp)
  | cons name above ih =>
    rw [ensureDirsRev]
    split
    · rename_i hmade
      exact ensured_of_makeDir (.refl _ _ _) hmade
    · -- There was nothing above, so what is above is made first.
      have hextend : above.reverse <+: (name :: above).reverse := by simp
      split
      · rename_i habove
        rw [habove] at ih
        have hconfined := ih.confined.extend (q := ⟨root, (name :: above).reverse⟩) hextend
        split
        · rename_i hmade
          exact ensured_of_makeDir hconfined hmade
        · -- The second attempt can only fail over what stands there by now.
          rename_i hrefused
          exact ensured_forgive hconfined (cause_ne_notFound_of_makeDir (ih.hasDir rfl) hrefused)
      · rename_i habove
        rw [habove] at ih
        exact ⟨ih.confined.extend hextend, nofun, ih.cause_ne⟩
    · rename_i error hother hrefused
      refine ensured_forgive (.refl _ _ _) fun hcause => ?_
      obtain ⟨cause, path⟩ := error
      obtain rfl : cause = .notFound := hcause
      exact hother path rfl

theorem ensured_ensureDirs (t : FileTree) (p : Path) : Ensured t p (t.ensureDirs p) := by
  have hensured := ensured_ensureDirsRev p.root t p.parts.reverse
  rwa [List.reverse_reverse] at hensured

/-- Making directories makes those on the way, also when it stops half way. -/
theorem confined_ensureDirs (t : FileTree) (p : Path) : Confined p [] t (t.ensureDirs p).1 :=
  (ensured_ensureDirs t p).confined

theorem cause_ne_notFound_of_ensureDirs {error : OsError} (h : t.ensureDirs p = (u, some error)) :
    error.cause ≠ .notFound :=
  (ensured_ensureDirs t p).cause_ne error (by rw [h])

theorem makeDirs_eq_ok_iff : t.makeDirs p = .ok u ↔ t.ensureDirs p = (u, none) := by
  rw [makeDirs]
  obtain ⟨v, error⟩ := t.ensureDirs p
  cases error <;> simp

/-- A directory that was made is there. -/
theorem hasDir_of_makeDirs (h : t.makeDirs p = .ok u) : u.hasDir p = true := by
  have hensured := ensured_ensureDirs t p
  rw [makeDirs_eq_ok_iff.mp h] at hensured
  exact hensured.hasDir rfl

theorem confined_of_makeDirs (h : t.makeDirs p = .ok u) : Confined p [] t u := by
  have hconfined := confined_ensureDirs t p
  rwa [makeDirs_eq_ok_iff.mp h] at hconfined

/-- A directory is made where nothing stands. -/
theorem makeDirs_of_get?_eq_none (hlocate : t.locate p = .ok l) (hnone : t.get? l = none) :
    t.makeDirs p = .ok (t.put l .directory) := by
  have hmade : t.makeDir p = .ok (t.put l .directory) :=
    makeDir_eq_ok_iff.mpr ⟨l, hlocate, hnone, rfl⟩
  rw [makeDirs_eq_ok_iff, ensureDirs]
  cases hparts : p.parts.reverse with
  | nil =>
    obtain rfl := eq_nil_of_locate (List.reverse_eq_nil_iff.mp hparts) hlocate
    cases hnone
  | cons name above =>
    have hp : p = ⟨p.root, (name :: above).reverse⟩ := by rw [← hparts, List.reverse_reverse]
    rw [ensureDirsRev, ← hp, hmade]

/-- A directory that is there need not be made. -/
theorem makeDirs_of_hasDir (h : t.hasDir p = true) : t.makeDirs p = .ok t := by
  have hforgive (error : OsError) : t.forgive p error = (t, none) := by simp [forgive, h]
  rw [makeDirs_eq_ok_iff, ensureDirs]
  obtain ⟨l, hwalk, hdir⟩ := hasDir_eq_true_iff.mp h
  cases hparts : p.parts.reverse with
  | nil =>
    have hp : p = ⟨p.root, []⟩ := by
      rw [List.reverse_eq_nil_iff] at hparts
      rw [← hparts]
    rw [ensureDirsRev, ← hp, hforgive]
  | cons name above =>
    have hp : p = ⟨p.root, (name :: above).reverse⟩ := by rw [← hparts, List.reverse_reverse]
    -- The first attempt is refused, and this is forgiven.
    have hrefused : t.makeDir p = .error ⟨.alreadyExists, p⟩ := by
      simp [makeDir, locate, hwalk, hdir, Except.mapError, bind, Except.bind]
    rw [ensureDirsRev, ← hp, hrefused]
    exact hforgive _

theorem KeepsDirs.hasDir (h : KeepsDirs t u) (hdir : t.hasDir p = true) : u.hasDir p = true := by
  obtain ⟨l, hwalk, hl⟩ := hasDir_eq_true_iff.mp hdir
  exact hasDir_eq_true_iff.mpr ⟨l, h.walk hwalk, h l hl⟩

/-! ### Reading what is no target -/

theorem read_eq_ok_iff {bytes : List UInt8} :
    t.read p = .ok bytes ↔
      ∃ l e, t.locate p = .ok l ∧ t.get? l = some e ∧ e.bytes? = some bytes := by
  rw [read]
  cases t.locate p with
  | error cause => simp [bind, Except.bind]
  | ok l =>
    cases hget : t.get? l with
    | none => simp [bind, Except.bind, hget]
    | some e => cases hbytes : e.bytes? <;> simp [bind, Except.bind, hget, hbytes]

theorem has_of_read {bytes : List UInt8} (h : t.read p = .ok bytes) : t.has p = true := by
  obtain ⟨l, e, hlocate, he, -⟩ := read_eq_ok_iff.mp h
  exact has_of_stat? (stat?_eq_some_iff.mpr ⟨l, hlocate, he⟩)

/-- A file is read as before when no target leads to where it stands. -/
theorem Confined.read_eq {bytes : List UInt8} (h : Confined out targets t u)
    (hread : t.read p = .ok bytes) (htargets : ∀ q ∈ targets, u.locate q ≠ u.locate p) :
    u.read p = .ok bytes := by
  obtain ⟨l, e, hlocate, he, hbytes⟩ := read_eq_ok_iff.mp hread
  have hlocate' := h.keepsDirs.locate hlocate
  have hsame : u.get? l = t.get? l :=
    h.get?_eq (by simp [he]) fun q hq => hlocate' ▸ htargets q hq
  exact read_eq_ok_iff.mpr ⟨l, e, hlocate', hsame.trans he, hbytes⟩

end Delimited.FileTree
