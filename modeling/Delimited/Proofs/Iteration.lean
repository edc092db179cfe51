import Delimited.Proofs.Trace

/-!
# Repetition as iteration

A repetition asks its step again and again, each time at the view that the turn
before has left, for as long as the turns succeed and leave less than they were
given. The turns are determined by the step, there are no more of them than
characters ahead, and the step is asked once more after the last of them: that
answer decides how the repetition ends.

The step may be any step. In particular it may leave a view over another text, so
long as that view has a length.

## Main definitions

* `Step.Iterates p v turns u`: the turns of `p` that lead from `v` to `u`.
* `Step.Halts p u`: at `u` there is no further turn.
* `Step.Ending`: how a repetition ends.

## Main results

* `Step.Iterates.unique`, `Step.exists_iterates`: the turns up to the end.
* `Step.Iterates.length_le`: how many there can be.
* `Step.Iterates.many_eq`: the answer of a repetition after its turns.
* `Parser.many_iterates`: a repetition is its turns and its end.
-/

namespace Delimited

namespace Step

variable {α : Type} {p : Step α} {v w u u' : View} {a : α} {turns turns' : List (View × α)}

/-! ### Turns -/

/-- The turns of `p` that lead from `v` to `u`, each with the view it was asked at and
its output. A turn is a success that leaves less than it was given. -/
inductive Iterates (p : Step α) : View → List (View × α) → View → Prop where
  /-- No turn. -/
  | nil (v : View) : Iterates p v [] v
  /-- A turn, and those after it. -/
  | cons {v w u : View} {a : α} {turns : List (View × α)} (turn : p v = .ok (.success w a))
      (less : w.size < v.size) (others : Iterates p w turns u) : Iterates p v ((v, a) :: turns) u

/-- At `u` there is no turn: a success would leave no less than it was given. -/
def Halts (p : Step α) (u : View) : Prop :=
  ∀ ⦃w : View⦄ ⦃a : α⦄, p u = .ok (.success w a) → u.size ≤ w.size

/-- The views that `p` leaves have a length. -/
def LeavesLength (p : Step α) : Prop :=
  ∀ ⦃v w : View⦄ ⦃a : α⦄, p v = .ok (.success w a) → 0 ≤ w.size

/-- The turns up to the end are determined. -/
theorem Iterates.unique (h : p.Iterates v turns u) (hu : p.Halts u)
    (h' : p.Iterates v turns' u') (hu' : p.Halts u') : turns = turns' ∧ u = u' := by
  induction h generalizing turns' with
  | nil v =>
    cases h' with
    | nil => exact ⟨rfl, rfl⟩
    | cons turn less _ => exact absurd less (Int.not_lt.mpr (hu turn))
  | cons turn less _ ih =>
    cases h' with
    | nil => exact absurd less (Int.not_lt.mpr (hu' turn))
    | cons turn' _ others' =>
      -- Both runs ask the same step at the same view, so their first turns agree.
      rw [turn, Except.ok.injEq, Outcome.success.injEq] at turn'
      obtain ⟨rfl, rfl⟩ := turn'
      obtain ⟨rfl, rfl⟩ := ih hu others'
      exact ⟨rfl, rfl⟩

variable (hp : p.LeavesLength)

include hp

/-- Every turn takes at least one character of those that are ahead. -/
theorem Iterates.length_le (h : p.Iterates v turns u) : turns.length ≤ v.size.toNat := by
  induction h with
  | nil v => exact Nat.zero_le _
  | cons turn less _ ih =>
    have hlength := hp turn
    rw [List.length_cons]
    omega

/-- There are turns up to the end. -/
theorem exists_iterates (v : View) : ∃ turns u, p.Iterates v turns u ∧ p.Halts u := by
  generalize hn : v.size.toNat = n
  -- The induction is on what is left to read, as for the repetition itself.
  induction n using Nat.strongRecOn generalizing v with
  | _ n ih =>
    by_cases hturn : ∃ w a, p v = .ok (.success w a) ∧ w.size < v.size
    · obtain ⟨w, a, hw, hless⟩ := hturn
      have hlength := hp hw
      obtain ⟨turns, u, hturns, hu⟩ := ih w.size.toNat (by omega) w rfl
      exact ⟨(v, a) :: turns, u, .cons hw hless hturns, hu⟩
    · refine ⟨[], v, .nil v, fun w a hw => ?_⟩
      by_contra hmore
      exact hturn ⟨w, a, hw, Int.not_le.mp hmore⟩

/-- The turns end at a view with a length, if they begin at one. -/
theorem Iterates.size_nonneg (h : p.Iterates v turns u) (hv : 0 ≤ v.size) : 0 ≤ u.size := by
  induction h with
  | nil v => exact hv
  | cons turn _ _ ih => exact ih (hp turn)

/-- A repetition answers as it does after its turns, with their outputs in front. -/
theorem Iterates.many_eq (h : p.Iterates v turns u) :
    p.many v = (p.many u).map (Outcome.map (turns.map Prod.snd ++ ·)) := by
  induction h with
  | nil v =>
    cases p.many v with
    | error fault => rfl
    | ok outcome => cases outcome <;> rfl
  | @cons v w u a turns turn less others ih =>
    have hlength := hp turn
    have hsizes : ¬ (w.size < 0 ∨ v.size < 0) := by omega
    rw [Step.many_eq, turn]
    simp only [hsizes, less, if_true, if_false, ih]
    cases p.many u with
    | error fault => rfl
    | ok outcome => cases outcome <;> rfl

omit hp

/-! ### Ends -/

/-- How a repetition ends. -/
inductive Ending where
  /-- The step is rejected and may be recovered from. -/
  | softly
  /-- The step is rejected for good. -/
  | hard
  /-- The step succeeds and leaves no less than it was given. -/
  | idle
  /-- There is no answer, of the step or to the question for a length. -/
  | faulty
  deriving DecidableEq, Repr

/-- The repetition of `p` ends in this way at the view `u`, with this answer, when its
turns have given the outputs `found`. -/
def Ending.Holds (p : Step α) (u : View) (found : List α)
    (answer : Except Fault (Outcome (List α))) : Ending → Prop
  | softly => ∃ e, p u = .ok (.rejected e) ∧ e.isHard = false ∧ answer = .ok (.success u found)
  | hard => ∃ e, p u = .ok (.rejected e) ∧ e.isHard = true ∧ answer = .ok (.rejected e)
  | idle => ∃ w a, p u = .ok (.success w a) ∧ u.size ≤ w.size ∧
      answer = .ok (.fail u .systemFailure)
  | faulty => ∃ fault, answer = .error fault ∧
      (p u = .error fault ∨ u.length = .error fault ∧ ∃ w a, p u = .ok (.success w a))

variable {found : List α} {answer : Except Fault (Outcome (List α))} {ending ending' : Ending}

theorem Ending.Holds.unique (h : ending.Holds p u found answer)
    (h' : ending'.Holds p u found answer) : ending = ending' := by
  -- The answer of the step tells the ends apart, and a missing answer the last of them.
  cases ending <;> cases ending' <;> grind [Ending.Holds, Outcome.fail, Outcome.reject]

/-- Where a repetition ends there is no further turn. -/
theorem Ending.Holds.halts (hp : p.LeavesLength) (h : ending.Holds p u found answer) :
    p.Halts u := by
  intro w a hw
  cases ending with
  | softly =>
    obtain ⟨e, he, -⟩ := h
    cases hw.symm.trans he
  | hard =>
    obtain ⟨e, he, -⟩ := h
    cases hw.symm.trans he
  | idle =>
    obtain ⟨w', a', hw', hmore, -⟩ := h
    cases hw.symm.trans hw'
    exact hmore
  | faulty =>
    obtain ⟨fault, -, hfault | ⟨hlength, -⟩⟩ := h
    · cases hw.symm.trans hfault
    · -- The view given has no length, and what is left has one.
      have hpast : u.size < 0 := by
        by_contra hsize
        simp [View.length, hsize] at hlength
      have hleft := hp hw
      omega

/-- Where there is no further turn a repetition ends. -/
theorem Halts.exists_ending (hp : p.LeavesLength) (h : p.Halts u) (found : List α) :
    ∃ ending : Ending,
      ending.Holds p u found ((p.many u).map (Outcome.map (found ++ ·))) := by
  rw [many_eq]
  cases hu : p u with
  | error fault => exact ⟨.faulty, fault, rfl, .inl hu⟩
  | ok outcome =>
    cases outcome with
    | rejected e =>
      cases he : e.isHard with
      | true => exact ⟨.hard, e, hu, he, by simp [he, Except.map, Outcome.map]⟩
      | false => exact ⟨.softly, e, hu, he, by simp [he, Except.map, Outcome.map]⟩
    | success w a =>
      have hmore := h hu
      have hlength := hp hu
      by_cases hpast : u.size < 0
      · refine ⟨.faulty, .negativeLength, ?_, .inr ⟨?_, w, a, hu⟩⟩
        · simp [hpast, Except.map]
        · simp [View.length, hpast]
      · refine ⟨.idle, w, a, hu, hmore, ?_⟩
        have hsizes : ¬ (w.size < 0 ∨ u.size < 0) := by omega
        simp only [hsizes, Int.not_lt.mpr hmore, if_false]
        rfl

end Step

namespace Parser

open Step

variable {α : Type} {p : Parser α} {v u : View} {turns : List (View × α)}

/-! ### What is asked -/

/-- In the turns of a repetition its parser is asked once each. -/
theorem events_of_iterates (hp : p.run.LeavesLength) (h : p.run.Iterates v turns u) :
    (Recorded.many p.recorded v).events =
      (turns.flatMap fun turn => (p.recorded turn.1).events) ++
        (Recorded.many p.recorded u).events := by
  induction h with
  | nil v => rfl
  | @cons v w u a turns turn less others ih =>
    have hlength := hp turn
    have hsizes : ¬ (w.size < 0 ∨ v.size < 0) := by omega
    rw [Recorded.many, Recorded.events_andThen, answer_recorded, turn]
    simp [hsizes, less, ih]

/-- Where there is no further turn the parser is asked, and nothing after that. -/
theorem events_of_halts (h : p.run.Halts u) :
    (Recorded.many p.recorded u).events = (p.recorded u).events := by
  rw [Recorded.many, Recorded.events_andThen, answer_recorded]
  cases hu : p.run u with
  | error fault => simp
  | ok outcome =>
    cases outcome with
    | rejected e => cases he : e.isHard <;> simp [he]
    | success w a =>
      have hless : ¬ w.size < u.size := Int.not_lt.mpr (h hu)
      by_cases hsizes : w.size < 0 ∨ u.size < 0 <;> simp [hsizes, hless]

/-- What a repetition leaves is left by a second repetition too, which finds nothing. -/
theorem many_again (hp : p.run.LeavesLength) {found : List α}
    (h : (many p).run v = .ok (.success u found)) : (many p).run u = .ok (.success u []) := by
  obtain ⟨turns, u', hturns, hhalts⟩ := exists_iterates hp v
  obtain ⟨ending, hending⟩ := hhalts.exists_ending hp (turns.map Prod.snd)
  rw [← hturns.many_eq hp] at hending
  change p.run.many v = _ at h
  -- Of all ends, only a rejection that may be recovered from makes a success.
  cases ending with
  | softly =>
    obtain ⟨e, he, hsoft, hanswer⟩ := hending
    cases h.symm.trans hanswer
    change p.run.many u = _
    rw [Step.many_eq, he]
    simp [hsoft]
  | hard =>
    obtain ⟨e, -, -, hanswer⟩ := hending
    cases h.symm.trans hanswer
  | idle =>
    obtain ⟨w, a, -, -, hanswer⟩ := hending
    cases h.symm.trans hanswer
  | faulty =>
    obtain ⟨fault, hanswer, -⟩ := hending
    cases h.symm.trans hanswer

/-- A repetition consists of turns, which its parser determines, and of an end. Its
parser is asked at the views of the turns and where they lead to, in this order and
nowhere else, which is at most once more than there are characters ahead, and the
last answer makes exactly one of the ends. That there is no answer is none of them, if
the parser has answers and the view a length. A repetition after a repetition that
succeeded finds nothing. -/
theorem many_iterates (p : Parser α) (hp : p.run.LeavesLength) (v : View) :
    (∃ turns u, p.run.Iterates v turns u ∧
      ((many p).recorded v).events =
        .asked (many p) v ::
          ((turns.map Prod.fst ++ [u]).flatMap fun x => (p.recorded x).events) ++
            [.answered (many p) v ((many p).run v)] ∧
      (turns.map Prod.fst ++ [u]).length ≤ v.size.toNat + 1 ∧
      (∃! ending : Ending, ending.Holds p.run u (turns.map Prod.snd) ((many p).run v)) ∧
      (0 ≤ v.size → (∀ x, ∃ outcome, p.run x = .ok outcome) →
        ¬ Ending.faulty.Holds p.run u (turns.map Prod.snd) ((many p).run v)) ∧
      ∀ turns' u', p.run.Iterates v turns' u' →
        (∃ ending : Ending, ending.Holds p.run u' (turns'.map Prod.snd) ((many p).run v)) →
          turns' = turns ∧ u' = u) ∧
      ∀ u found, (many p).run v = .ok (.success u found) →
        (many p).run u = .ok (.success u []) := by
  refine ⟨?_, fun u found => many_again hp⟩
  obtain ⟨turns, u, hturns, hhalts⟩ := exists_iterates hp v
  obtain ⟨ending, hending⟩ := hhalts.exists_ending hp (turns.map Prod.snd)
  rw [← hturns.many_eq hp] at hending
  refine ⟨turns, u, hturns, ?_, ?_, ⟨ending, hending, fun _ h => h.unique hending⟩, ?_, ?_⟩
  · rw [recorded, Recorded.events_inside, Recorded.answer_many (answer_recorded p),
      events_of_iterates hp hturns, events_of_halts hhalts]
    simp [run, List.flatMap_map]
  · have hlength := hturns.length_le hp
    simp only [List.length_append, List.length_map, List.length_singleton]
    omega
  · rintro hv hanswers ⟨fault, -, hfault | ⟨hlength, -⟩⟩
    · obtain ⟨outcome, houtcome⟩ := hanswers u
      cases houtcome.symm.trans hfault
    · have hsize := hturns.size_nonneg hp hv
      simp [View.length, Int.not_lt.mpr hsize] at hlength
  · rintro turns' u' hturns' ⟨ending', hending'⟩
    exact hturns'.unique (hending'.halts hp) hturns hhalts

/-- Reads nothing, and leaves a shorter text in place of the one it was given. -/
def shortening : Parser Nat := leaf "shortening" fun v =>
  .ok (.success ⟨v.text.pop, 0⟩ v.text.size)

/-- The case of a parser that leaves other texts. It is asked three times ahead of two
characters, and the empty text that it leaves unchanged is a failure of the system. -/
theorem many_iterates_shortening :
    shortening.run.LeavesLength ∧
      (many shortening).run ⟨#['a', 'b'], 0⟩ = .ok (.fail ⟨#[], 0⟩ .systemFailure) ∧
      ∃ turns u, turns = [(⟨#['a', 'b'], 0⟩, 2), (⟨#['a'], 0⟩, 1)] ∧ u = ⟨#[], 0⟩ ∧
        shortening.run.Iterates ⟨#['a', 'b'], 0⟩ turns u ∧
        (turns.map Prod.fst ++ [u]).length ≤ (View.mk #['a', 'b'] 0).size.toNat + 1 ∧
        ∃! ending : Ending, ending.Holds shortening.run u (turns.map Prod.snd)
          ((many shortening).run ⟨#['a', 'b'], 0⟩) := by
  have hlength : shortening.run.LeavesLength := by
    rintro v w a h
    cases h
    simp [View.size]
  have hturns : shortening.run.Iterates ⟨#['a', 'b'], 0⟩
      [(⟨#['a', 'b'], 0⟩, 2), (⟨#['a'], 0⟩, 1)] ⟨#[], 0⟩ :=
    .cons rfl (by decide) (.cons rfl (by decide) (.nil _))
  have hrun : (many shortening).run ⟨#['a', 'b'], 0⟩ = .ok (.fail ⟨#[], 0⟩ .systemFailure) := by
    rw [run, hturns.many_eq hlength, Step.many_eq]
    rfl
  have hidle : Ending.idle.Holds shortening.run ⟨#[], 0⟩ [2, 1]
      ((many shortening).run ⟨#['a', 'b'], 0⟩) := ⟨⟨#[], 0⟩, 0, rfl, Int.le_refl _, hrun⟩
  obtain ⟨⟨turns, u, hturns', -, hcalls, hending, -, hunique⟩, -⟩ :=
    many_iterates shortening hlength ⟨#['a', 'b'], 0⟩
  obtain ⟨hsame, hend⟩ := hunique _ _ hturns ⟨.idle, hidle⟩
  exact ⟨hlength, hrun, turns, u, hsame.symm, hend.symm, hturns', hcalls, hending⟩

end Parser

end Delimited
