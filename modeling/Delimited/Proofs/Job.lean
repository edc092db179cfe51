import Delimited.Job

/-!
# Jobs that succeed

A job that succeeds gives a result and leaves a world. Such a run of a sequence of
jobs is a run of each, one after another, and every step a job is made of has one
outcome, so a successful run can be taken apart and put together step by step.

## Main definitions

* `Job.outcome`: what a job comes to in a world.
* `Job.Gives`: a job gives a result in a world and leaves another.
* `Job.IsQuery`: a job only asks about the files, also when it fails.

## Main results

* `Job.gives_bind_iff`: a sequence of two jobs.
* `Job.gives_ofExcept_iff`, `Job.gives_change_iff`, `Job.gives_ensureDirs_iff`: steps
  that may fail.
* `Job.IsQuery.bind`: a sequence of queries is a query.
-/

namespace Delimited.Job

variable {α β : Type} {ε : Type}

/-- What a job comes to in a world: a result or a failure, and the world it leaves. -/
def outcome (x : Job α) (w : World) : Except Failure α × World := x.run.run w

/-- The job gives `a` in the world `w` and leaves the world `w'`. -/
def Gives (x : Job α) (w : World) (a : α) (w' : World) : Prop := x.outcome w = (.ok a, w')

variable {x : Job α} {f : α → Job β} {w w' w'' : World} {a a' : α} {b : β}

theorem gives_of_outcome (h : (x.outcome w).1 = .ok a) : x.Gives w a (x.outcome w).2 := by
  rw [Gives, ← h]

theorem outcome_bind (x : Job α) (f : α → Job β) (w : World) :
    (x >>= f).outcome w =
      match x.outcome w with
      | (.ok a, w') => (f a).outcome w'
      | (.error e, w') => (.error e, w') := by
  change (ExceptT.bindCont f (x.outcome w).1) (x.outcome w).2 = _
  obtain ⟨result, next⟩ := x.outcome w
  cases result <;> rfl

/-- A sequence of jobs succeeds when each does, in the world that the first leaves. -/
@[simp] theorem gives_bind_iff :
    (x >>= f).Gives w b w'' ↔ ∃ a w', x.Gives w a w' ∧ (f a).Gives w' b w'' := by
  simp only [Gives, outcome_bind]
  obtain ⟨result, next⟩ := x.outcome w
  cases result with
  | ok a => simp [and_assoc]
  | error e => simp

@[simp] theorem gives_pure_iff : (pure a : Job α).Gives w a' w' ↔ a = a' ∧ w = w' := by
  change ((.ok a, w) : Except Failure α × World) = (.ok a', w') ↔ _
  simp

@[simp] theorem not_gives_throw {e : Failure} : ¬ (throw e : Job α).Gives w a w' := by
  change ¬ ((.error e, w) : Except Failure α × World) = (.ok a, w')
  simp

theorem outcome_files (w : World) : Job.files.outcome w = (.ok w.files, w) := rfl

@[simp] theorem gives_files_iff {files : FileTree} :
    Job.files.Gives w files w' ↔ w.files = files ∧ w = w' := by
  change ((.ok w.files, w) : Except Failure FileTree × World) = (.ok files, w') ↔ _
  simp

@[simp] theorem gives_modify_iff {f : World → World} {u : Unit} :
    (modify f : Job Unit).Gives w u w' ↔ f w = w' := by
  change ((.ok (), f w) : Except Failure Unit × World) = (.ok u, w') ↔ _
  simp

@[simp] theorem gives_ofExcept_iff {failure : ε → Failure} {r : Except ε α} :
    (ofExcept failure r).Gives w a w' ↔ r = .ok a ∧ w = w' := by
  cases r with
  | ok a' => simp [ofExcept]
  | error e => simp [ofExcept]

@[simp] theorem gives_change_iff {f : FileTree → Except OsError FileTree} {u : Unit} :
    (change f).Gives w u w' ↔ ∃ files, f w.files = .ok files ∧ { w with files } = w' := by
  simp only [change, gives_bind_iff, gives_files_iff, gives_ofExcept_iff, gives_modify_iff]
  constructor
  · rintro ⟨_, _, ⟨rfl, rfl⟩, files, _, ⟨hfiles, rfl⟩, rfl⟩
    exact ⟨files, hfiles, rfl⟩
  · rintro ⟨files, hfiles, rfl⟩
    exact ⟨_, _, ⟨rfl, rfl⟩, files, _, ⟨hfiles, rfl⟩, rfl⟩

/-- What making directories comes to, and the files it leaves also when it fails. -/
theorem outcome_ensureDirs (p : Path) (w : World) :
    (ensureDirs p).outcome w =
      match w.files.ensureDirs p with
      | (files, none) => (.ok (), { w with files })
      | (files, some e) => (.error (.os e), { w with files }) := by
  simp only [ensureDirs, outcome_bind, outcome_files]
  obtain ⟨files, error⟩ := w.files.ensureDirs p
  cases error <;> rfl

@[simp] theorem gives_ensureDirs_iff {p : Path} {u : Unit} :
    (ensureDirs p).Gives w u w' ↔
      ∃ files, w.files.makeDirs p = .ok files ∧ { w with files } = w' := by
  rw [Gives, outcome_ensureDirs, FileTree.makeDirs]
  obtain ⟨files, error⟩ := w.files.ensureDirs p
  cases error <;> simp

/-! ### Jobs that only ask -/

/-- The job changes no files, also when it fails, and what it comes to depends on
the files alone. -/
structure IsQuery (x : Job α) : Prop where
  /-- No files change. -/
  keeps : ∀ w, (x.outcome w).2.files = w.files
  /-- The log does not matter. -/
  same : ∀ w w', w.files = w'.files → (x.outcome w).1 = (x.outcome w').1

theorem IsQuery.files_eq (h : x.IsQuery) (hx : x.Gives w a w') : w'.files = w.files := by
  have hfiles := h.keeps w
  rwa [hx] at hfiles

/-- A query gives the same in another world with the same files. -/
theorem IsQuery.eq_of_gives (h : x.IsQuery) {v v' : World} (hx : x.Gives w a w')
    (hx' : x.Gives v a' v') (hfiles : w.files = v.files) : a = a' := by
  have hsame := h.same w v hfiles
  rw [hx, hx'] at hsame
  exact Except.ok.inj hsame

theorem IsQuery.exists_gives (h : x.IsQuery) {v : World} (hx : x.Gives w a w')
    (hfiles : w.files = v.files) : ∃ v', x.Gives v a v' := by
  have hsame := h.same w v hfiles
  rw [hx] at hsame
  exact ⟨_, gives_of_outcome hsame.symm⟩

theorem IsQuery.bind (hx : x.IsQuery) (hf : ∀ a, (f a).IsQuery) : (x >>= f).IsQuery := by
  constructor
  · intro w
    have hfirst := hx.keeps w
    rw [outcome_bind]
    revert hfirst
    obtain ⟨result, next⟩ := x.outcome w
    intro hfirst
    cases result with
    | ok a => exact ((hf a).keeps next).trans hfirst
    | error e => exact hfirst
  · intro w w' hfiles
    have hresult := hx.same w w' hfiles
    have hnext : (x.outcome w).2.files = (x.outcome w').2.files := by
      rw [hx.keeps, hx.keeps, hfiles]
    rw [outcome_bind, outcome_bind]
    revert hresult hnext
    obtain ⟨result, next⟩ := x.outcome w
    obtain ⟨result', next'⟩ := x.outcome w'
    rintro rfl hnext
    cases result with
    | ok a => exact (hf a).same next next' hnext
    | error e => rfl

theorem isQuery_pure (a : α) : (pure a : Job α).IsQuery := ⟨fun _ => rfl, fun _ _ _ => rfl⟩

theorem isQuery_throw (e : Failure) : (throw e : Job α).IsQuery :=
  ⟨fun _ => rfl, fun _ _ _ => rfl⟩

theorem isQuery_throw_bind (e : Failure) (f : α → Job β) : ((throw e : Job α) >>= f).IsQuery :=
  ⟨fun _ => rfl, fun _ _ _ => rfl⟩

theorem isQuery_files : Job.files.IsQuery := ⟨fun _ => rfl, fun _ _ h => congrArg Except.ok h⟩

theorem isQuery_report (level : Level) (component message : String) :
    (report level component message).IsQuery := ⟨fun _ => rfl, fun _ _ _ => rfl⟩

theorem isQuery_info (component message : String) : (info component message).IsQuery :=
  isQuery_report .info component message

theorem isQuery_ofExcept (failure : ε → Failure) (r : Except ε α) :
    (ofExcept failure r).IsQuery := by
  cases r with
  | ok a => exact isQuery_pure a
  | error e => exact isQuery_throw (failure e)

end Delimited.Job
