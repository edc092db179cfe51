import Delimited.Proofs.FileTree.Confined
import Delimited.Proofs.Job

/-!
# Jobs that fail

A job that fails gives a reason and leaves a world, with what it had done to the
files up to then. Three questions are asked of jobs that may fail, and each is
answered step by step: for which reasons they fail, what they do to the files either
way, and whether the log, which they write to, has any part in it.

## Main definitions

* `Job.Fails`: a job fails in a world and leaves another.
* `Job.FailsOnly`: a job fails for certain reasons only.
* `Job.Changes`: a job changes the files in certain ways only, also when it fails.
* `Job.IgnoresLog`: the outcome and the files that are left depend on the files alone.
* `Job.Turns`: what a job does to the files when it gives a result.
* `Job.effect`: what a job comes to on files, and the files it leaves.

## Main results

* `Job.fails_bind_iff`: a sequence of two jobs fails in the first or in the second.
* `Job.FailsOnly.bind`, `Job.Changes.bind`, `Job.IgnoresLog.bind`: sequences of jobs.
* `Job.IgnoresLog.turns_iff`, `Job.turns_bind_iff`, `Job.effect_bind`: jobs that do not
  look at the log are taken apart on the files alone.
-/

namespace Delimited.Job

variable {α β : Type} {ε : Type} {x : Job α} {f : α → Job β} {w w' w'' v : World} {a : α}
  {e : Failure} {P : Failure → Prop} {R : FileTree → FileTree → Prop}

/-- The job fails with `e` in the world `w` and leaves the world `w'`. -/
def Fails (x : Job α) (w : World) (e : Failure) (w' : World) : Prop := x.outcome w = (.error e, w')

theorem fails_of_outcome (h : (x.outcome w).1 = .error e) : x.Fails w e (x.outcome w).2 := by
  rw [Fails, ← h]

/-- A sequence of jobs fails in the first, or in the second after the first has given
a result. -/
theorem fails_bind_iff :
    (x >>= f).Fails w e w'' ↔
      x.Fails w e w'' ∨ ∃ a w', x.Gives w a w' ∧ (f a).Fails w' e w'' := by
  simp only [Fails, Gives, outcome_bind]
  obtain ⟨result, next⟩ := x.outcome w
  cases result with
  | ok a => simp [and_assoc]
  | error e => simp

@[simp] theorem not_fails_pure : ¬ (pure a : Job α).Fails w e w' := by
  change ¬ ((.ok a, w) : Except Failure α × World) = (.error e, w')
  simp

@[simp] theorem fails_throw_iff {e' : Failure} :
    (throw e : Job α).Fails w e' w' ↔ e = e' ∧ w = w' := by
  change ((.error e, w) : Except Failure α × World) = (.error e', w') ↔ _
  simp

@[simp] theorem not_fails_modify {g : World → World} : ¬ (modify g : Job Unit).Fails w e w' := by
  change ¬ ((.ok (), g w) : Except Failure Unit × World) = (.error e, w')
  simp

@[simp] theorem not_fails_files : ¬ Job.files.Fails w e w' := by
  change ¬ ((.ok w.files, w) : Except Failure FileTree × World) = (.error e, w')
  simp

/-- What is done with the files as they are. -/
theorem fails_files_bind_iff {f : FileTree → Job α} :
    (Job.files >>= f).Fails w e w' ↔ (f w.files).Fails w e w' := Iff.rfl

@[simp] theorem not_fails_info {component message : String} :
    ¬ (info component message).Fails w e w' := not_fails_modify

/-- A failed step leaves the world. -/
theorem fails_ofExcept_iff {failure : ε → Failure} {r : Except ε α} :
    (ofExcept failure r).Fails w e w' ↔
      (∃ cause, r = .error cause ∧ failure cause = e) ∧ w = w' := by
  cases r with
  | ok a => simp [ofExcept]
  | error cause => simp [ofExcept]

/-- Directories that cannot be made are reported with their error. -/
theorem fails_ensureDirs_iff {p : Path} :
    (ensureDirs p).Fails w e w' ↔ ∃ files error,
      w.files.ensureDirs p = (files, some error) ∧ .os error = e ∧ { w with files } = w' := by
  rw [Fails, outcome_ensureDirs]
  obtain ⟨files, error⟩ := w.files.ensureDirs p
  cases error <;> simp

theorem fails_change_iff {g : FileTree → Except OsError FileTree} :
    (change g).Fails w e w' ↔ ∃ error, g w.files = .error error ∧ .os error = e ∧ w = w' := by
  simp only [change, fails_bind_iff, not_fails_files, gives_files_iff, fails_ofExcept_iff,
    not_fails_modify, and_false, exists_false, or_false, false_or]
  constructor
  · rintro ⟨_, _, ⟨rfl, rfl⟩, ⟨error, herror, rfl⟩, rfl⟩
    exact ⟨error, herror, rfl, rfl⟩
  · rintro ⟨error, herror, rfl, rfl⟩
    exact ⟨_, _, ⟨rfl, rfl⟩, ⟨error, herror, rfl⟩, rfl⟩

theorem IsQuery.files_eq_of_fails (h : x.IsQuery) (hx : x.Fails w e w') : w'.files = w.files := by
  have hfiles := h.keeps w
  rwa [hx] at hfiles

/-! ### Reasons -/

/-- The job fails for reasons of one kind only. -/
def FailsOnly (P : Failure → Prop) (x : Job α) : Prop := ∀ w e w', x.Fails w e w' → P e

theorem FailsOnly.bind (hx : x.FailsOnly P) (hf : ∀ a, (f a).FailsOnly P) :
    (x >>= f).FailsOnly P := by
  intro w e w' h
  rcases fails_bind_iff.mp h with h | ⟨a, w₁, -, h⟩
  · exact hx w e w' h
  · exact hf a w₁ e w' h

theorem failsOnly_pure (a : α) : (pure a : Job α).FailsOnly P :=
  fun _ _ _ h => (not_fails_pure h).elim

theorem failsOnly_files : Job.files.FailsOnly P := fun _ _ _ h => (not_fails_files h).elim

theorem failsOnly_modify (g : World → World) : (modify g : Job Unit).FailsOnly P :=
  fun _ _ _ h => (not_fails_modify h).elim

theorem failsOnly_info (component message : String) : (info component message).FailsOnly P :=
  failsOnly_modify _

theorem FailsOnly.discard (hx : x.FailsOnly P) : (discard x : Job Unit).FailsOnly P :=
  hx.bind fun _ => failsOnly_pure _

theorem failsOnly_throw (h : P e) : (throw e : Job α).FailsOnly P := by
  intro w e' w' hthrow
  obtain ⟨rfl, -⟩ := fails_throw_iff.mp hthrow
  exact h

theorem failsOnly_throw_bind (h : P e) (f : α → Job β) :
    ((throw e : Job α) >>= f).FailsOnly P := by
  intro w e' w' hfails
  rcases fails_bind_iff.mp hfails with hthrow | ⟨a, w₁, hgives, -⟩
  · exact failsOnly_throw h w e' w' hthrow
  · exact absurd hgives not_gives_throw

theorem failsOnly_ofExcept {failure : ε → Failure} {r : Except ε α}
    (h : ∀ cause, r = .error cause → P (failure cause)) : (ofExcept failure r).FailsOnly P := by
  intro w e w' hfails
  obtain ⟨⟨cause, hcause, rfl⟩, -⟩ := fails_ofExcept_iff.mp hfails
  exact h cause hcause

/-- Making directories never fails because there is nothing. -/
theorem failsOnly_ensureDirs (p : Path)
    (h : ∀ error : OsError, error.cause ≠ .notFound → P (.os error)) :
    (ensureDirs p).FailsOnly P := by
  intro w e w' hfails
  obtain ⟨files, error, hmade, rfl, -⟩ := fails_ensureDirs_iff.mp hfails
  exact h error (FileTree.cause_ne_notFound_of_ensureDirs hmade)

/-! ### Changes -/

/-- The job changes the files in ways of one kind only, also when it fails. -/
def Changes (R : FileTree → FileTree → Prop) (x : Job α) : Prop :=
  ∀ w, R w.files (x.outcome w).2.files

theorem Changes.of_fails (h : x.Changes R) (hx : x.Fails w e w') : R w.files w'.files := by
  have hfiles := h w
  rwa [hx] at hfiles

theorem IsQuery.changes (h : x.IsQuery) (hrefl : ∀ t, R t t) : x.Changes R := by
  intro w
  rw [h.keeps w]
  exact hrefl w.files

theorem Changes.bind (htrans : ∀ {t u v}, R t u → R u v → R t v) (hx : x.Changes R)
    (hf : ∀ a, (f a).Changes R) : (x >>= f).Changes R := by
  intro w
  have hfirst := hx w
  rw [outcome_bind]
  revert hfirst
  obtain ⟨result, next⟩ := x.outcome w
  intro hfirst
  cases result with
  | ok a => exact htrans hfirst (hf a next)
  | error e => exact hfirst

theorem changes_ensureDirs (p : Path) : (ensureDirs p).Changes (FileTree.Confined p []) := by
  intro w
  have hconfined := FileTree.confined_ensureDirs w.files p
  rw [outcome_ensureDirs]
  revert hconfined
  obtain ⟨files, error⟩ := w.files.ensureDirs p
  intro hconfined
  cases error <;> exact hconfined

/-! ### The log -/

/-- What the job comes to, and the files it leaves, depend on the files alone. -/
def IgnoresLog (x : Job α) : Prop :=
  ∀ w v, w.files = v.files →
    (x.outcome w).1 = (x.outcome v).1 ∧ (x.outcome w).2.files = (x.outcome v).2.files

theorem IsQuery.ignoresLog (h : x.IsQuery) : x.IgnoresLog := by
  intro w v hfiles
  refine ⟨h.same w v hfiles, ?_⟩
  rw [h.keeps, h.keeps, hfiles]

theorem IgnoresLog.bind (hx : x.IgnoresLog) (hf : ∀ a, (f a).IgnoresLog) :
    (x >>= f).IgnoresLog := by
  intro w v hfiles
  have hfirst := hx w v hfiles
  rw [outcome_bind, outcome_bind]
  revert hfirst
  obtain ⟨result, next⟩ := x.outcome w
  obtain ⟨result', next'⟩ := x.outcome v
  rintro ⟨rfl, hnext⟩
  cases result with
  | ok a => exact hf a next next' hnext
  | error e => exact ⟨rfl, hnext⟩

/-- A job that gives a result gives it in every world with the same files. -/
theorem IgnoresLog.exists_gives (h : x.IgnoresLog) (hx : x.Gives w a w')
    (hfiles : w.files = v.files) : ∃ v', x.Gives v a v' ∧ v'.files = w'.files := by
  obtain ⟨hresult, hleft⟩ := h w v hfiles
  rw [hx] at hresult hleft
  exact ⟨_, gives_of_outcome hresult.symm, hleft.symm⟩

/-- A job that fails does so in every world with the same files. -/
theorem IgnoresLog.exists_fails (h : x.IgnoresLog) (hx : x.Fails w e w')
    (hfiles : w.files = v.files) : ∃ v', x.Fails v e v' ∧ v'.files = w'.files := by
  obtain ⟨hresult, hleft⟩ := h w v hfiles
  rw [hx] at hresult hleft
  exact ⟨_, fails_of_outcome hresult.symm, hleft.symm⟩

theorem ignoresLog_ensureDirs (p : Path) : (ensureDirs p).IgnoresLog := by
  intro w v hfiles
  rw [outcome_ensureDirs, outcome_ensureDirs, hfiles]
  obtain ⟨files, error⟩ := v.files.ensureDirs p
  cases error <;> exact ⟨rfl, rfl⟩

theorem ignoresLog_change (g : FileTree → Except OsError FileTree) : (change g).IgnoresLog := by
  refine isQuery_files.ignoresLog.bind fun files => ?_
  refine (isQuery_ofExcept _ _).ignoresLog.bind fun files' => ?_
  intro w v _
  exact ⟨rfl, rfl⟩

/-- What is caught is handled on the files that the failure left. -/
theorem outcome_tryCatch (x : Job α) (handler : Failure → Job α) (w : World) :
    (tryCatch x handler).outcome w =
      match x.outcome w with
      | (.ok a, w') => (.ok a, w')
      | (.error e, w') => (handler e).outcome w' := by
  cases hx : x.outcome w with
  | mk result next =>
    have hrun : StateT.run x w = (result, next) := hx
    simp only [outcome, tryCatch, tryCatchThe, MonadExceptOf.tryCatch, ExceptT.tryCatch,
      ExceptT.run_mk, StateT.run_bind, hrun]
    cases result <;> rfl

theorem IgnoresLog.tryCatch {handler : Failure → Job α} (hx : x.IgnoresLog)
    (hhandler : ∀ e, (handler e).IgnoresLog) : (tryCatch x handler).IgnoresLog := by
  intro w v hfiles
  have hfirst := hx w v hfiles
  rw [outcome_tryCatch, outcome_tryCatch]
  revert hfirst
  obtain ⟨result, next⟩ := x.outcome w
  obtain ⟨result', next'⟩ := x.outcome v
  rintro ⟨rfl, hnext⟩
  cases result with
  | ok a => exact ⟨rfl, hnext⟩
  | error e => exact hhandler e next next' hnext

/-! ### Jobs on files -/

/-- From the files `t` the job gives `a` and leaves the files `u`. -/
def Turns (x : Job α) (t : FileTree) (a : α) (u : FileTree) : Prop :=
  ∃ w', x.Gives { files := t } a w' ∧ w'.files = u

variable {t u : FileTree} {b : β}

/-- A job that does not look at the log does the same to the files in every world. -/
theorem IgnoresLog.turns_iff (h : x.IgnoresLog) :
    x.Turns w.files a u ↔ ∃ w', x.Gives w a w' ∧ w'.files = u := by
  constructor
  · rintro ⟨w', hx, rfl⟩
    exact h.exists_gives hx rfl
  · rintro ⟨w', hx, rfl⟩
    exact h.exists_gives hx rfl

theorem IgnoresLog.turns_of_gives (h : x.IgnoresLog) (hx : x.Gives w a w') :
    x.Turns w.files a w'.files :=
  h.turns_iff.mpr ⟨w', hx, rfl⟩

/-- One job after another, on files. -/
theorem turns_bind_iff (hf : ∀ a, (f a).IgnoresLog) :
    (x >>= f).Turns t b u ↔ ∃ a t₁, x.Turns t a t₁ ∧ (f a).Turns t₁ b u := by
  constructor
  · rintro ⟨w', h, rfl⟩
    obtain ⟨a, w₁, hx, hnext⟩ := gives_bind_iff.mp h
    exact ⟨a, w₁.files, ⟨w₁, hx, rfl⟩, (hf a).turns_of_gives hnext⟩
  · rintro ⟨a, _, ⟨w₁, hx, rfl⟩, hnext⟩
    obtain ⟨w', hgives, rfl⟩ := (hf a).turns_iff.mp hnext
    exact ⟨w', gives_bind_iff.mpr ⟨a, w₁, hx, hgives⟩, rfl⟩

theorem IsQuery.eq_of_turns (h : x.IsQuery) (hx : x.Turns t a u) : u = t := by
  obtain ⟨w', hx, rfl⟩ := hx
  exact h.files_eq hx

/-- What is asked first is asked of the same files. -/
theorem IsQuery.turns_bind_iff (hx : x.IsQuery) (hf : ∀ a, (f a).IgnoresLog) :
    (x >>= f).Turns t b u ↔ ∃ a, x.Turns t a t ∧ (f a).Turns t b u := by
  rw [Job.turns_bind_iff hf]
  constructor
  · rintro ⟨a, t₁, hfirst, hnext⟩
    obtain rfl := hx.eq_of_turns hfirst
    exact ⟨a, hfirst, hnext⟩
  · rintro ⟨a, hfirst, hnext⟩
    exact ⟨a, t, hfirst, hnext⟩

theorem turns_pure_iff {a' : α} : (pure a : Job α).Turns t a' u ↔ a = a' ∧ t = u := by
  simp only [Turns, gives_pure_iff]
  constructor
  · rintro ⟨w', ⟨rfl, rfl⟩, rfl⟩
    exact ⟨rfl, rfl⟩
  · rintro ⟨rfl, rfl⟩
    exact ⟨_, ⟨rfl, rfl⟩, rfl⟩

theorem turns_info (component message : String) (t : FileTree) :
    (info component message).Turns t () t :=
  ⟨_, gives_modify_iff.mpr rfl, rfl⟩

/-- A message at the end makes no difference to the files. -/
theorem turns_logged_iff {component : String} {message : α → String} :
    (x >>= fun a => info component (message a) >>= fun _ => pure a).Turns t a u ↔
      x.Turns t a u := by
  simp only [Turns, gives_bind_iff, info, report, gives_modify_iff, gives_pure_iff]
  constructor
  · rintro ⟨_, ⟨_, w₁, hx, _, _, rfl, rfl, rfl⟩, rfl⟩
    exact ⟨w₁, hx, rfl⟩
  · rintro ⟨w', hx, rfl⟩
    exact ⟨_, ⟨a, w', hx, (), _, rfl, rfl, rfl⟩, rfl⟩

/-! ### Effects -/

/-- What the job comes to on the files `t`, and the files that it leaves. -/
def effect (x : Job α) (t : FileTree) : Except Failure α × FileTree :=
  ((x.outcome { files := t }).1, (x.outcome { files := t }).2.files)

theorem effect_eq_ok_iff : x.effect t = (.ok a, u) ↔ x.Turns t a u := by
  simp only [effect, Turns, Gives, Prod.ext_iff]
  constructor
  · rintro ⟨hresult, rfl⟩
    exact ⟨_, ⟨hresult, rfl⟩, rfl⟩
  · rintro ⟨w', ⟨hresult, rfl⟩, rfl⟩
    exact ⟨hresult, rfl⟩

/-- What a job gives is determined. -/
theorem Turns.eq {a' : α} {u' : FileTree} (h : x.Turns t a u) (h' : x.Turns t a' u') :
    a = a' ∧ u = u' := by
  rw [← effect_eq_ok_iff] at h h'
  simpa using h.symm.trans h'

/-- A job that does not look at the log has its effect in every world. -/
theorem IgnoresLog.effect_eq (h : x.IgnoresLog) (w : World) :
    x.effect w.files = ((x.outcome w).1, (x.outcome w).2.files) := by
  obtain ⟨hresult, hleft⟩ := h { files := w.files } w rfl
  rw [effect, hresult, hleft]

theorem IgnoresLog.effect_of_fails (h : x.IgnoresLog) (hx : x.Fails w e w') :
    x.effect w.files = (.error e, w'.files) := by
  rw [h.effect_eq, hx]

/-- The effect of one job after another. -/
theorem effect_bind (hf : ∀ a, (f a).IgnoresLog) (t : FileTree) :
    (x >>= f).effect t =
      match x.effect t with
      | (.ok a, u) => (f a).effect u
      | (.error e, u) => (.error e, u) := by
  rw [effect, effect, outcome_bind]
  obtain ⟨result, next⟩ := x.outcome { files := t }
  cases result with
  | ok a => exact ((hf a).effect_eq next).symm
  | error e => rfl

theorem effect_map (g : α → β) (x : Job α) (t : FileTree) :
    (g <$> x).effect t = ((x.effect t).1.map g, (x.effect t).2) := by
  rw [map_eq_pure_bind, effect_bind fun a => (isQuery_pure (g a)).ignoresLog]
  obtain ⟨result, u⟩ := x.effect t
  cases result <;> rfl

theorem effect_tryCatch {handler : Failure → Job α} (hhandler : ∀ e, (handler e).IgnoresLog)
    (t : FileTree) :
    (tryCatch x handler).effect t =
      match x.effect t with
      | (.ok a, u) => (.ok a, u)
      | (.error e, u) => (handler e).effect u := by
  rw [effect, effect, outcome_tryCatch]
  obtain ⟨result, next⟩ := x.outcome { files := t }
  cases result with
  | ok a => rfl
  | error e => exact ((hhandler e).effect_eq next).symm

theorem effect_files_bind (f : FileTree → Job β) (t : FileTree) :
    (Job.files >>= f).effect t = (f t).effect t := rfl

/-- A message makes no difference to what comes after it. -/
theorem effect_report_bind {f : Unit → Job β} (hf : (f ()).IgnoresLog) (level : Level)
    (component message : String) (t : FileTree) :
    (report level component message >>= f).effect t = (f ()).effect t := by
  rw [effect_bind fun _ => hf]
  rfl

theorem IsQuery.effect_eq (h : x.IsQuery) (t : FileTree) : x.effect t = ((x.effect t).1, t) := by
  rw [effect, h.keeps]

end Delimited.Job
