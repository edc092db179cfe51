import Delimited.Proofs.Reading

/-!
# Reading looks ahead only

A step is local when its answer is decided by the text ahead of the view: behind
whatever text it stands, it reads the same part or is rejected at the same place
with the same code. The combinators build local steps from local steps, so the
answer of such a step moves with the view when text is put in front.

## Main definitions

* `Step.Answers p l`: ahead of `l` the step reads or is rejected, whatever is behind.
* `Step.Local p`: it does so ahead of every text.
* `View.shift`, `Outcome.shift`: a view and an outcome with a text put in front.

## Main results

* `Step.Local.map`, `Step.Local.bind`, `Step.Local.orElse`, `Step.Local.filter`,
  `Step.Local.require`, `Step.Local.pair`, `Step.Local.many`: the combinators
  keep locality.
* `Step.Local.shift_eq`: a local step answers a shifted view with the shifted outcome.
-/

namespace Delimited

namespace Step

variable {α β : Type} {p q : Step α}

/-- Ahead of `l` the step reads or is rejected, whatever text is behind it. -/
inductive Answers (p : Step α) : List Char → Prop where
  | reads {s t : List Char} {x : α} (h : p.Reads s x t) : Answers p (s ++ t)
  | rejects {s t : List Char} {c : Code} (h : p.Rejects s c t) : Answers p (s ++ t)

/-- The answer of the step is decided by the text ahead of it. -/
def Local (p : Step α) : Prop := ∀ l, p.Answers l

-- With the equation as a hypothesis, the text ahead need not be a split one.
theorem Answers.of_eq {l : List Char}
    (heq : ∀ before, p (.between before l) = q (.between before l)) (h : q.Answers l) :
    p.Answers l := by
  cases h with
  | reads h => exact .reads fun before => (heq before).trans (h before)
  | rejects h => exact .rejects fun before => (heq before).trans (h before)

theorem Local.map (f : α → β) (h : p.Local) : (p.map f).Local := by
  intro l
  cases h l with
  | reads h => exact .reads (h.map f)
  | rejects h => exact .rejects (h.map f)

theorem Local.bind {next : α → Step β} (h : p.Local) (hnext : ∀ x, (next x).Local) :
    (p.bind next).Local := by
  intro l
  cases h l with
  | rejects h => exact .rejects h.bind
  | @reads s l x h =>
    -- The second step is asked ahead of what the first one leaves.
    cases hnext x l with
    | reads h' =>
      rw [← List.append_assoc]
      exact .reads (h.bind h')
    | rejects h' =>
      rw [← List.append_assoc]
      exact .rejects (h.bind_rejects h')

theorem Local.orElse (h : p.Local) (h' : q.Local) : (p.orElse q).Local := by
  intro l
  cases h l with
  | reads h => exact .reads h.orElse
  | @rejects s t c h =>
    by_cases hc : c.isHard = true
    · exact .rejects (h.orElse hc)
    · rw [Bool.not_eq_true] at hc
      exact (h' (s ++ t)).of_eq (h.orElse_eq hc)

theorem Local.screen (accept : α → Bool) (c : Code) (h : p.Local) :
    (p.screen accept c).Local := by
  intro l
  cases h l with
  | @rejects s t c' h =>
    refine .rejects (c := c') fun before => ?_
    rw [Step.screen, h before]
    rfl
  | @reads s t x h =>
    cases hx : accept x with
    | true =>
      refine .reads (x := x) fun before => ?_
      simp only [Step.screen, h before, hx, if_true]
    | false =>
      -- A refused output is rejected where the step was asked, before `s`.
      refine .rejects (s := []) (c := c) fun before => ?_
      simp [Step.screen, h before, hx]

theorem Local.filter (accept : α → Bool) (h : p.Local) : (p.filter accept).Local := by
  simpa only [filter_eq_screen] using h.screen accept _

theorem Local.require (accept : α → Bool) (expected : String) (h : p.Local) :
    (p.require accept expected).Local := by
  simpa only [require_eq_screen] using h.screen accept _

theorem Local.pair {q : Step β} (h : p.Local) (h' : q.Local) : (p.pair q).Local := by
  intro l
  cases h l with
  | rejects h => exact .rejects h.pair
  | @reads s l x h =>
    cases h' l with
    | reads h' =>
      rw [← List.append_assoc]
      exact .reads (h.pair h')
    | rejects h' => exact .rejects (s := []) (h.pair_rejects h')

theorem Local.many (h : p.Local) : p.many.Local := by
  intro l
  generalize hn : l.length = n
  -- The induction is on the length of the text ahead, which a turn makes shorter.
  induction n using Nat.strongRecOn generalizing l with
  | _ n ih =>
    cases h l with
    | @rejects s t c h =>
      by_cases hc : c.isHard = true
      · exact .rejects (h.many hc)
      · rw [Bool.not_eq_true] at hc
        exact .reads (s := []) (h.many_nil hc)
    | @reads s l x h =>
      by_cases hs : s = []
      · subst hs
        exact .rejects (s := []) h.many_stuck
      · have hpos := List.length_pos_of_ne_nil hs
        rw [List.length_append] at hn
        have hshorter : l.length < n := by omega
        cases ih l.length hshorter l rfl with
        | reads h' =>
          rw [← List.append_assoc]
          exact .reads (h.many_cons hs h')
        | rejects h' =>
          rw [← List.append_assoc]
          exact .rejects (h.many_rejects hs h')

end Step

/-! ### Text put in front -/

/-- The same place of the text with `a` put in front of it. -/
def View.shift (a : String) (v : View) : View :=
  ⟨a.toList.toArray ++ v.text, v.offset + a.length⟩

/-- The outcome with `a` put in front of the text of its view. -/
def Outcome.shift {α : Type} (a : String) : Outcome α → Outcome α
  | success remaining output => success (remaining.shift a) output
  | rejected e => rejected ⟨e.input.shift a, e.code⟩

theorem View.shift_between (a : String) (before rest : List Char) :
    (between before rest).shift a = between (a.toList ++ before) rest := by
  simp only [shift, between, mk.injEq, List.append_toArray, List.append_assoc, true_and,
    List.length_append, String.length_toList]
  omega

/-- The view of `b` behind `a` is the view of `b` alone, shifted. -/
theorem View.ofString_append (a b : String) :
    ofString (a ++ b) a.length = (ofString b).shift a := by
  simp [ofString, shift]

/-- A local step answers a shifted view with the shifted outcome. -/
theorem Step.Local.shift_eq {α : Type} {p : Step α} (h : p.Local) (a : String) {v : View}
    (hv : v.Within) : p (v.shift a) = (p v).map (Outcome.shift a) := by
  rw [← View.between_before_rest hv, View.shift_between]
  generalize v.before = before, v.rest = l
  cases h l with
  | reads h =>
    rw [h, h]
    simp [Except.map, Outcome.shift, View.shift_between]
  | rejects h =>
    rw [h, h]
    simp [Except.map, Outcome.shift, Outcome.reject, View.shift_between]

end Delimited
