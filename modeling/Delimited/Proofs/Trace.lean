import Delimited.Proofs.Reading

/-!
# Recorded runs

A recorded run is a run in which every parser that is asked, the whole one and
its parts down to the leaves, leaves two events behind: that it was asked, and
what it answered. A part is asked only through its own recorded run, so nothing
is asked without an event.

Recording changes no answer: a recorded run ends with the answer of the run, and
every answer among its events is the answer of the parser that gave it.

## Main definitions

* `Event`: a parser is asked at a view, or has answered.
* `Recorded`: an answer with the events that led to it, in their order.
* `Parser.recorded`: the recorded run of a parser.
* `Recorded.PassesHard next`: to a hard rejection, `next` answers with its code and
  asks nothing.

## Main results

* `Parser.answer_recorded`: a recorded run has the answer of the run.
* `Parser.recorded_induction`: what is kept by going on after an answer, in a way
  that passes hard rejections on, holds of every recorded run.
* `Parser.answer_eq_run_of_mem`: the answers among its events are those of runs.
-/

namespace Delimited

/-- What happens in a run. -/
inductive Event : Type 1 where
  /-- A parser is asked at a view. -/
  | asked {α : Type} (p : Parser α) (v : View)
  /-- A parser that was asked at a view answers. -/
  | answered {α : Type} (p : Parser α) (v : View) (answer : Except Fault (Outcome α))

/-- An answer with the events that led to it, in the order in which they happened. -/
structure Recorded (α : Type) : Type 1 where
  events : List Event
  answer : Except Fault (Outcome α)

namespace Recorded

variable {α β : Type}

/-- An answer for which nothing was asked. -/
def given (answer : Except Fault (Outcome α)) : Recorded α := ⟨[], answer⟩

/-- Goes on with an answer, after the events that led to it. -/
def andThen (r : Recorded α) (next : Except Fault (Outcome α) → Recorded β) : Recorded β :=
  ⟨r.events ++ (next r.answer).events, (next r.answer).answer⟩

/-- What happened while `p` was asked at `v`, with the asking and the answer itself. -/
def inside (p : Parser α) (v : View) (r : Recorded α) : Recorded α :=
  ⟨.asked p v :: r.events ++ [.answered p v r.answer], r.answer⟩

/-- Keeps an output that is accepted, and rejects any other with `c` at `v`. -/
def screen (r : Recorded α) (v : View) (accept : α → Bool) (c : Code) : Recorded α :=
  r.andThen fun
    | .ok (.success remaining output) =>
      if accept output then given (.ok (.success remaining output))
      else given (.ok (.reject v c))
    | answer => given answer

/-- The turns of a repetition, each of them recorded. -/
def many (p : View → Recorded α) (v : View) : Recorded (List α) :=
  (p v).andThen fun
    | .ok (.success remaining output) =>
      if remaining.size < 0 ∨ v.size < 0 then given (.error .negativeLength)
      else if _less : remaining.size < v.size then
        (many p remaining).andThen fun others => given (others.map (Outcome.map (output :: ·)))
      else given (.ok (.fail v .systemFailure))
    | .ok (.rejected e) =>
      if e.isHard then given (.ok (.rejected e)) else given (.ok (.success v []))
    | .error fault => given (.error fault)
termination_by v.size.toNat

/-- To a hard rejection, `next` answers with its code, and asks nothing. -/
def PassesHard (next : Except Fault (Outcome α) → Recorded β) : Prop :=
  ∀ e : Rejection, e.isHard = true →
    ∃ e', next (.ok (.rejected e)) = given (.ok (.rejected e')) ∧ e'.code = e.code

section Lemmas

variable (r : Recorded α) (p : Parser α) (v : View) (answer : Except Fault (Outcome α))
  (next : Except Fault (Outcome α) → Recorded β)

@[simp] theorem events_given : (given answer).events = [] := rfl

@[simp] theorem answer_given : (given answer).answer = answer := rfl

@[simp] theorem events_andThen :
    (r.andThen next).events = r.events ++ (next r.answer).events := rfl

@[simp] theorem answer_andThen : (r.andThen next).answer = (next r.answer).answer := rfl

@[simp] theorem events_inside :
    (r.inside p v).events = .asked p v :: (r.events ++ [.answered p v r.answer]) := rfl

@[simp] theorem answer_inside : (r.inside p v).answer = r.answer := rfl

end Lemmas

theorem answer_screen {r : Recorded α} {q : Step α} {v : View} (h : r.answer = q v)
    (accept : α → Bool) (c : Code) : (r.screen v accept c).answer = q.screen accept c v := by
  rw [screen, Step.screen, answer_andThen, h]
  rcases q v with fault | ⟨remaining, output⟩ | e
  · rfl
  · cases hx : accept output <;> simp [hx]
  · rfl

/-- The turns of a repetition have the answer of the repetition. -/
theorem answer_many {p : View → Recorded α} {q : Step α} (h : ∀ v, (p v).answer = q v)
    (v : View) : (many p v).answer = q.many v := by
  generalize hn : v.size.toNat = n
  -- The induction is on what is left to read, as for the repetition itself.
  induction n using Nat.strongRecOn generalizing v with
  | _ n ih =>
    rw [many, Step.many_eq, answer_andThen, h v]
    cases hq : q v with
    | error fault => rfl
    | ok outcome =>
      cases outcome with
      | rejected e =>
        by_cases he : e.isHard = true
        · simp [he]
        · simp [he]
      | success remaining output =>
        by_cases hsizes : remaining.size < 0 ∨ v.size < 0
        · simp [hsizes]
        · by_cases hless : remaining.size < v.size
          · have hshorter : remaining.size.toNat < n := by omega
            simp [hsizes, hless, ih _ hshorter remaining rfl]
          · simp [hsizes, hless]

end Recorded

namespace Parser

open Recorded

variable {α β : Type}

/-- The run of a parser at a view, recorded. -/
def recorded {α : Type} : Parser α → View → Recorded α
  | leaf name step, v => inside (leaf name step) v (given (step v))
  | map f p, v =>
    inside (map f p) v ((p.recorded v).andThen fun answer => given (answer.map (Outcome.map f)))
  | bind p next, v =>
    inside (bind p next) v ((p.recorded v).andThen fun
      | .ok (.success remaining output) => (next output).recorded remaining
      | .ok (.rejected e) => given (.ok (.rejected e))
      | .error fault => given (.error fault))
  | orElse p q, v =>
    inside (orElse p q) v ((p.recorded v).andThen fun
      | .ok (.rejected e) => if e.isHard then given (.ok (.rejected e)) else q.recorded v
      | answer => given answer)
  | filter p accept, v =>
    inside (filter p accept) v ((p.recorded v).screen v accept .predicate)
  | require p accept expected, v =>
    inside (require p accept expected) v
      ((p.recorded v).screen v accept (.failure (.invalidInput expected)))
  | pair p q, v =>
    inside (pair p q) v ((p.recorded v).andThen fun
      | .ok (.success middle first) =>
        (q.recorded middle).andThen fun
          | .ok (.success remaining second) => given (.ok (.success remaining (first, second)))
          | .ok (.rejected e) => given (.ok (.reject v e.code))
          | .error fault => given (.error fault)
      | .ok (.rejected e) => given (.ok (.rejected e))
      | .error fault => given (.error fault))
  | many p, v => inside (many p) v (Recorded.many p.recorded v)

/-- A recorded run has the answer of the run. -/
@[simp] theorem answer_recorded (p : Parser α) (v : View) : (p.recorded v).answer = p.run v := by
  induction p generalizing v with
  | leaf name step => rfl
  | map f p ih => simp [recorded, run, Step.map, ih]
  | bind p next ih ihnext =>
    simp only [recorded, run, Step.bind, answer_inside, answer_andThen, ih]
    rcases p.run v with fault | ⟨remaining, output⟩ | e
    · rfl
    · exact ihnext output remaining
    · rfl
  | orElse p q ih ih' =>
    simp only [recorded, run, Step.orElse, answer_inside, answer_andThen, ih]
    rcases p.run v with fault | ⟨remaining, output⟩ | e
    · rfl
    · rfl
    · by_cases he : e.isHard = true <;> simp [he, ih']
  | filter p accept ih => exact answer_screen (ih v) accept _
  | require p accept expected ih => exact answer_screen (ih v) accept _
  | pair p q ih ih' =>
    simp only [recorded, run, Step.pair, answer_inside, answer_andThen, ih]
    rcases p.run v with fault | ⟨middle, first⟩ | e
    · rfl
    · simp only [answer_andThen, ih']
      rcases q.run middle with fault | ⟨remaining, second⟩ | e <;> rfl
    · rfl
  | many p ih => exact Recorded.answer_many ih v

/-! ### What holds of every recorded run -/

section Induction

variable {I : ⦃α : Type⦄ → Recorded α → Prop}
  (hgiven : ∀ ⦃α : Type⦄ (answer : Except Fault (Outcome α)), I (given answer))
  (handThen : ∀ ⦃α β : Type⦄ (r : Recorded α) (next : Except Fault (Outcome α) → Recorded β),
    PassesHard next → I r → (∀ answer, I (next answer)) → I (r.andThen next))

include hgiven handThen

theorem screen_induction {r : Recorded α} (h : I r) (v : View) (accept : α → Bool) (c : Code) :
    I (r.screen v accept c) := by
  refine handThen _ _ ?_ h ?_
  · exact fun e _ => ⟨e, rfl, rfl⟩
  · rintro (fault | ⟨remaining, output⟩ | e)
    · exact hgiven _
    · dsimp only
      split <;> exact hgiven _
    · exact hgiven _

theorem many_induction {p : View → Recorded α} (h : ∀ v, I (p v)) (v : View) :
    I (Recorded.many p v) := by
  generalize hn : v.size.toNat = n
  induction n using Nat.strongRecOn generalizing v with
  | _ n ih =>
    rw [Recorded.many]
    refine handThen _ _ ?_ (h v) ?_
    · exact fun e he => ⟨e, by simp [he], rfl⟩
    · rintro (fault | ⟨remaining, output⟩ | e)
      · exact hgiven _
      · dsimp only
        split
        · exact hgiven _
        · rename_i hsizes
          split
          · rename_i hless
            have hshorter : remaining.size.toNat < n := by omega
            refine handThen _ _ ?_ (ih _ hshorter remaining rfl) fun _ => hgiven _
            exact fun e _ => ⟨e, rfl, rfl⟩
          · exact hgiven _
      · dsimp only
        split <;> exact hgiven _

/-- What is kept by going on after an answer, in a way that passes hard rejections
on, and by being asked, holds of every recorded run. -/
theorem recorded_induction
    (hinside : ∀ ⦃α : Type⦄ (p : Parser α) (v : View) (r : Recorded α),
      r.answer = p.run v → I r → I (r.inside p v))
    (p : Parser α) (v : View) : I (p.recorded v) := by
  have hrun {α : Type} {p : Parser α} {v : View} {r : Recorded α}
      (heq : p.recorded v = r.inside p v) (h : I r) : I (p.recorded v) := by
    have hanswer : r.answer = p.run v := by rw [← answer_recorded p v, heq, answer_inside]
    rw [heq]
    exact hinside p v r hanswer h
  induction p generalizing v with
  | leaf name step => exact hrun rfl (hgiven _)
  | map f p ih =>
    refine hrun rfl (handThen _ _ ?_ (ih v) fun _ => hgiven _)
    exact fun e _ => ⟨e, rfl, rfl⟩
  | bind p next ih ihnext =>
    refine hrun (by rw [recorded]) ?_
    refine handThen _ _ ?_ (ih v) ?_
    · exact fun e _ => ⟨e, rfl, rfl⟩
    · rintro (fault | ⟨remaining, output⟩ | e)
      · exact hgiven _
      · exact ihnext output remaining
      · exact hgiven _
  | orElse p q ih ih' =>
    refine hrun rfl (handThen _ _ ?_ (ih v) ?_)
    · exact fun e he => ⟨e, by simp [he], rfl⟩
    · rintro (fault | ⟨remaining, output⟩ | e)
      · exact hgiven _
      · exact hgiven _
      · dsimp only
        split
        · exact hgiven _
        · exact ih' v
  | filter p accept ih => exact hrun rfl (screen_induction hgiven handThen (ih v) v accept _)
  | require p accept expected ih =>
    exact hrun rfl (screen_induction hgiven handThen (ih v) v accept _)
  | pair p q ih ih' =>
    refine hrun rfl (handThen _ _ ?_ (ih v) ?_)
    · exact fun e _ => ⟨e, rfl, rfl⟩
    · rintro (fault | ⟨middle, first⟩ | e)
      · exact hgiven _
      · -- A rejection of the second part is moved back, and keeps its code.
        refine handThen _ _ ?_ (ih' middle) ?_
        · exact fun e _ => ⟨⟨v, e.code⟩, rfl, rfl⟩
        · rintro (fault | ⟨remaining, second⟩ | e) <;> exact hgiven _
      · exact hgiven _
  | many p ih => exact hrun rfl (many_induction hgiven handThen ih v)

end Induction

/-- The answers among the events of a recorded run are those of the parsers asked. -/
theorem answer_eq_run_of_mem {q : Parser β} {w : View} {answer : Except Fault (Outcome β)}
    (p : Parser α) (v : View) (h : .answered q w answer ∈ (p.recorded v).events) :
    answer = q.run w := by
  refine recorded_induction
    (I := fun _ r => ∀ ⦃β : Type⦄ (q : Parser β) (w : View) (answer : Except Fault (Outcome β)),
      .answered q w answer ∈ r.events → answer = q.run w) ?_ ?_ ?_ p v q w answer h
  · intro α answer β q w answer' hmem
    simp at hmem
  · intro α β r next _ hr hnext γ q w answer hmem
    rcases List.mem_append.mp hmem with hmem | hmem
    · exact hr q w answer hmem
    · exact hnext r.answer q w answer hmem
  · intro α p v r hanswer hr β q w answer hmem
    simp only [events_inside, List.mem_cons, List.mem_append, List.not_mem_nil, or_false,
      reduceCtorEq, false_or] at hmem
    rcases hmem with hmem | hmem
    · exact hr q w answer hmem
    · cases hmem
      exact hanswer

end Parser

end Delimited
