import Delimited.Proofs.Conversion.Files

/-!
# Exports that fail

An export makes its directory first and then writes its files. All that can go wrong with a
file is reported as a failure of the export, whatever the settings. Making the directory is
not: whatever it fails with is passed on as it is. In a file tree it fails where a file stands
at the directory or on the way to it.

## Main definitions

* `FileTree.Blocked`: a file stands at a path or on the way to it.
* `FileTree.RefusedBy`: an error in making a directory comes from such a file.

## Main results

* `FileTree.ensureDirs_eq_none_iff`: which directories can be made.
* `exportTable_refusals`: what an export comes to.
-/

namespace Delimited

namespace FileTree

variable {t : FileTree} {p : Path} {here : Location} {names : List String} {error : OsError}

/-- A file stands at the path, or at one above it. -/
def Blocked (t : FileTree) (p : Path) : Prop :=
  ∃ names e, names <+: p.parts ∧ t.stat? ⟨p.root, names⟩ = some e ∧ e ≠ .directory

theorem stat?_of_walk {root : String} {l : Location} (h : t.walk [] names = .ok l) :
    t.stat? ⟨root, names⟩ = t.get? l := by
  simp [stat?, locate, h, Except.mapError]

/-- A walk ends early where there is nothing, or at a file. -/
theorem cause_of_walk {cause : OsCause} (h : t.walk here names = .error cause) :
    cause = .notFound ∨ cause = .notADirectory ∧
      ∃ before l e, before <+: names ∧ t.walk here before = .ok l ∧ t.get? l = some e ∧
        e ≠ .directory := by
  -- The induction is on the names, from wherever the walk has come to.
  induction names generalizing here with
  | nil => cases h
  | cons name names ih =>
    rw [walk] at h
    split at h
    · rename_i hdir
      rcases ih h with hnone | ⟨hcause, before, l, e, hbefore, hwalk, hl, he⟩
      · exact .inl hnone
      · refine .inr ⟨hcause, name :: before, l, e, List.cons_prefix_cons.mpr ⟨rfl, hbefore⟩, ?_, hl,
          he⟩
        rw [walk, hdir]
        exact hwalk
    · rename_i e hdir he
      cases h
      exact .inr ⟨rfl, [], here, e, List.nil_prefix, rfl, he, hdir⟩
    · cases h
      exact .inl rfl

/-- All paths above a directory are directories. -/
theorem stat?_of_hasDir (h : t.hasDir p = true) (hnames : names <+: p.parts) :
    t.stat? ⟨p.root, names⟩ = some .directory := by
  obtain ⟨l, hwalk, hdir⟩ := hasDir_eq_true_iff.mp h
  obtain ⟨rest, hrest⟩ := hnames
  rw [← hrest, walk_append] at hwalk
  cases hbefore : t.walk [] names with
  | error cause =>
    rw [hbefore] at hwalk
    cases hwalk
  | ok m =>
    rw [stat?_of_walk hbefore]
    rw [hbefore] at hwalk
    change t.walk m rest = .ok l at hwalk
    cases rest with
    | nil =>
      cases hwalk
      exact hdir
    | cons name rest =>
      -- The walk went on from here.
      rw [walk] at hwalk
      split at hwalk
      · assumption
      · cases hwalk
      · cases hwalk

theorem not_blocked_of_hasDir (h : t.hasDir p = true) : ¬ t.Blocked p := by
  rintro ⟨names, e, hnames, hstat, he⟩
  rw [stat?_of_hasDir h hnames, Option.some.injEq] at hstat
  exact he hstat.symm

/-- If making a directory ends in an error, then a file is in the way. -/
def RefusedBy (p : Path) (r : FileTree × Option OsError) : Prop :=
  ∀ error, r.2 = some error →
    (error.cause = .alreadyExists ∨ error.cause = .notADirectory) ∧ r.1.Blocked p

/-- A directory that is refused is there, or a file is in the way. -/
theorem refusedBy_forgive (h : t.makeDir p = .error error) (hcause : error.cause ≠ .notFound) :
    RefusedBy p (t.forgive p error) := by
  intro error' herror
  have hsome : (if t.hasDir p then none else some error) = some error' := herror
  split at hsome
  · cases hsome
  rename_i hdir
  cases hsome
  change _ ∧ t.Blocked p
  rw [makeDir] at h
  cases hwalk : t.walk [] p.parts with
  | error cause =>
    simp only [locate, hwalk, Except.mapError, bind, Except.bind, Except.error.injEq] at h
    subst h
    obtain ⟨rfl, before, l, e, hbefore, hwalk, hl, he⟩ := (cause_of_walk hwalk).resolve_left hcause
    exact ⟨.inr rfl, before, e, hbefore, (stat?_of_walk hwalk).trans hl, he⟩
  | ok l =>
    simp only [locate, hwalk, Except.mapError, bind, Except.bind] at h
    split at h
    · rename_i e hl
      cases h
      refine ⟨.inl rfl, p.parts, e, List.prefix_rfl, (stat?_of_walk hwalk).trans hl, ?_⟩
      rintro rfl
      exact hdir (hasDir_eq_true_iff.mpr ⟨l, hwalk, hl⟩)
    · cases h

theorem refusedBy_made (p : Path) (t : FileTree) : RefusedBy p (t, none) := by
  rintro error ⟨⟩

theorem refusedBy_ensureDirsRev (root : String) (t : FileTree) (names : List String) :
    RefusedBy ⟨root, names.reverse⟩ (ensureDirsRev root t names) := by
  -- The names stand in reverse: a directory is tried before the one that it is in.
  induction names with
  | nil =>
    intro error herror
    have hroot : t.hasDir ⟨root, []⟩ = true := hasDir_eq_true_iff.mpr ⟨[], rfl, rfl⟩
    simp [ensureDirsRev, forgive, hroot] at herror
  | cons name above ih =>
    rw [ensureDirsRev]
    split
    · exact refusedBy_made _ _
    · split
      · rename_i u habove
        have hdir : u.hasDir ⟨root, above.reverse⟩ = true := by
          have hensured := ensured_ensureDirsRev root t above
          rw [habove] at hensured
          exact hensured.hasDir rfl
        split
        · exact refusedBy_made _ _
        · -- What is above is there by now, so there is not nothing on the way.
          rename_i hrefused
          exact refusedBy_forgive hrefused (cause_ne_notFound_of_makeDir hdir hrefused)
      · rename_i u error habove
        rw [habove] at ih
        intro error' herror
        obtain ⟨hcause, before, e, hbefore, hstat, he⟩ := ih error' herror
        exact ⟨hcause, before, e, hbefore.trans (by simp), hstat, he⟩
    · rename_i error hother hrefused
      refine refusedBy_forgive hrefused fun hcause => ?_
      obtain ⟨cause, path⟩ := error
      obtain rfl : cause = .notFound := hcause
      exact hother path rfl

theorem refusedBy_ensureDirs (t : FileTree) (p : Path) : RefusedBy p (t.ensureDirs p) := by
  have hrefused := refusedBy_ensureDirsRev p.root t p.parts.reverse
  rwa [List.reverse_reverse] at hrefused

/-- A directory is made unless a file is in the way, in the tree that is left. -/
theorem ensureDirs_eq_none_iff (t : FileTree) (p : Path) :
    (t.ensureDirs p).2 = none ↔ ¬ (t.ensureDirs p).1.Blocked p := by
  constructor
  · intro hnone
    exact not_blocked_of_hasDir ((ensured_ensureDirs t p).hasDir hnone)
  · intro hfree
    by_contra hne
    obtain ⟨error, herror⟩ := Option.ne_none_iff_exists'.mp hne
    exact hfree (refusedBy_ensureDirs t p error herror).2

end FileTree

/-! ### Exports -/

variable {store : TableStore} {name : String} {t : Table} {description : Option Table}
  {output : Config.Output} {makeDirs : Path → Job Unit} {w w' w₁ : World} {e : Failure}

/-- Once its directory is made, an export gives the paths of its files or fails as an
export. -/
theorem gives_or_fails_exportInto (h : (makeDirs (.ofString output.dir)).Gives w () w₁) :
    (∃ w', (exportInto makeDirs store name t description output).Gives w
        ((Export.tables name t description output).map fun x => toString x.1) w') ∨
      ∃ e w', (exportInto makeDirs store name t description output).Fails w e w' ∧
        e.isOfExport = true := by
  cases hresult : ((exportInto makeDirs store name t description output).outcome w).1 with
  | ok written =>
    have hgives := Job.gives_of_outcome hresult
    obtain rfl := hgives.eq_of_exportInto
    exact .inl ⟨_, hgives⟩
  | error e =>
    have hfails := Job.fails_of_outcome hresult
    refine .inr ⟨e, _, hfails, ?_⟩
    rw [exportInto_eq] at hfails
    rcases Job.fails_bind_iff.mp hfails with hfirst | ⟨_, w₂, -, hrest⟩
    · rw [Job.Fails, h] at hfirst
      cases hfirst
    · exact failsOnly_exportInto store name t description output w₂ e _ hrest

/-- What making the directory fails with is passed on. -/
theorem fails_exportInto (h : (makeDirs (.ofString output.dir)).Fails w e w₁) :
    (exportInto makeDirs store name t description output).Fails w e w₁ := by
  rw [exportInto_eq]
  exact Job.fails_bind_iff.mpr (.inl h)

/-- An export gives the paths of its files or fails as an export, as long as its directory is
made. However that is done, what goes wrong with it is passed on as it is, be it that
something is in the way, that it is not permitted, or that no path can have the name.

A file tree permits everything and takes every name. There the directory is made unless a
file stands at it or on the way to it, and otherwise one of two errors is passed on. -/
theorem exportTable_refusals (store : TableStore) (name : String) (t : Table)
    (description : Option Table) (output : Config.Output) (w : World) :
    let out := Path.ofString output.dir
    let paths := (Export.tables name t description output).map fun x => toString x.1
    (∀ makeDirs : Path → Job Unit,
      let job := exportInto makeDirs store name t description output
      (∀ w₁, (makeDirs out).Gives w () w₁ →
        (∃ w', job.Gives w paths w') ∨
          ∃ e w', job.Fails w e w' ∧ e.isOfExport = true) ∧
      ∀ e w₁, (makeDirs out).Fails w e w₁ → job.Fails w e w₁) ∧
    let job := exportTable store name t description output
    let left := (w.files.ensureDirs out).1
    (¬ left.Blocked out ∧
      ((∃ w', job.Gives w paths w') ∨ ∃ e w', job.Fails w e w' ∧ e.isOfExport = true)) ∨
    (left.Blocked out ∧
      ∃ error : OsError, (error.cause = .alreadyExists ∨ error.cause = .notADirectory) ∧
        job.Fails w (.os error) { w with files := left }) := by
  intro out paths
  refine ⟨fun makeDirs => ⟨fun w₁ => gives_or_fails_exportInto, fun e w₁ => fails_exportInto⟩, ?_⟩
  intro job left
  have hfree : (w.files.ensureDirs out).2 = none ↔ ¬ left.Blocked out :=
    w.files.ensureDirs_eq_none_iff out
  cases hdirs : (w.files.ensureDirs out).2 with
  | none =>
    have hmade : (Job.ensureDirs out).Gives w () { w with files := left } :=
      Job.gives_ensureDirs_iff.mpr
        ⟨left, FileTree.makeDirs_eq_ok_iff.mpr (Prod.ext rfl hdirs), rfl⟩
    exact .inl ⟨hfree.mp hdirs, gives_or_fails_exportInto hmade⟩
  | some error =>
    obtain ⟨hcause, hblocked⟩ := w.files.refusedBy_ensureDirs out error hdirs
    refine .inr ⟨hblocked, error, hcause, fails_exportInto ?_⟩
    exact Job.fails_ensureDirs_iff.mpr ⟨left, error, Prod.ext rfl hdirs, rfl, rfl⟩

/-- A directory that may not be made is reported by the file system, and a format that is not
known by the export. -/
theorem exportTable_refusals_notPermitted :
    let t : Table := ⟨1, [⟨"a", .untyped ["1"]⟩]⟩
    (∃ w', (exportInto (fun p => throw (.os ⟨.notPermitted, p⟩)) .plain "t" t none
      { dir := "out" }).Fails {} (.os ⟨.notPermitted, .ofString "out"⟩) w') ∧
    ∃ e w', (exportTable .plain "t" t none { dir := "out", format := .other "xml" }).Fails {} e w' ∧
      e.isOfExport = true := by
  intro t
  constructor
  · obtain ⟨hinto, -⟩ := exportTable_refusals .plain "t" t none { dir := "out" } {}
    exact ⟨_, (hinto fun p => throw (.os ⟨.notPermitted, p⟩)).2 _ _ rfl⟩
  · obtain ⟨-, htable⟩ := exportTable_refusals .plain "t" t none
      { dir := "out", format := .other "xml" } {}
    have hresult : ((exportTable .plain "t" t none { dir := "out", format := .other "xml" }).outcome
        {}).1 = .error (.unsupportedFormat "xml") := by decide +kernel
    rcases htable with ⟨-, ⟨w', hgives⟩ | hfails⟩ | ⟨hblocked, -⟩
    · rw [hgives] at hresult
      cases hresult
    · exact hfails
    · exact absurd hblocked (FileTree.not_blocked_of_hasDir (by decide +kernel))

/-- A file stands where the directory should be made. The export gives no paths and does not
fail as an export. -/
theorem not_isOfExport_of_file_at_dir :
    let x := exportTable .plain "t" ⟨1, [⟨"a", .untyped ["1"]⟩]⟩ none
      { dir := "out", format := .csv }
    let w : World := { files := ⟨[(["out"], .file [0x78])]⟩ }
    (∃ w', x.Fails w (.os ⟨.alreadyExists, .ofString "out"⟩) w') ∧
      ¬ ((∃ written w', x.Gives w written w') ∨
        ∃ e w', x.Fails w e w' ∧ e.isOfExport = true) := by
  intro x w
  have hresult : (x.outcome w).1 = .error (.os ⟨.alreadyExists, .ofString "out"⟩) := by
    decide +kernel
  refine ⟨⟨_, Job.fails_of_outcome hresult⟩, ?_⟩
  rintro (⟨written, w', h⟩ | ⟨e, w', h, he⟩)
  · rw [h] at hresult
    cases hresult
  · rw [h] at hresult
    cases hresult
    cases he

end Delimited
