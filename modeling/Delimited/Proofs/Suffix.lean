import Delimited.Proofs.Locality

/-!
# Reading goes forward

A step is well-behaved when the view in its outcome, the remaining one of a
success or the one at which a rejection stands, is a suffix of the view it was
given: a place of the same text, not before the given one and not past the end.
Nothing is asked of views on which the step has no answer.

Steps in general need not be well-behaved. The combinators only pass on views of
their parts or the view they were given, so they build well-behaved steps from
well-behaved ones.

## Main definitions

* `View.IsSuffix w v`: `w` is a place of the text of `v`, from `v` on.
* `Step.WellBehaved`: outcomes stand at suffixes of the given view.

## Main results

* `Step.Local.wellBehaved`: a local step is well-behaved.
* `Step.WellBehaved.map`, `Step.WellBehaved.bind`, `Step.WellBehaved.orElse`,
  `Step.WellBehaved.filter`, `Step.WellBehaved.require`, `Step.WellBehaved.pair`,
  `Step.WellBehaved.many`: the combinators keep this.
-/

namespace Delimited

namespace View

variable {u v w : View}

/-- The view `w` is over the text of `v`, at `v` or behind it, and not past the end. -/
def IsSuffix (w v : View) : Prop :=
  w.text = v.text ∧ v.offset ≤ w.offset ∧ w.offset ≤ v.text.size

theorem isSuffix_refl (h : v.Within) : v.IsSuffix v := ⟨rfl, Int.le_refl _, h.2⟩

theorem IsSuffix.within (h : w.IsSuffix v) (hv : v.Within) : w.Within := by
  obtain ⟨htext, hle, hend⟩ := h
  refine ⟨Int.le_trans hv.1 hle, ?_⟩
  rwa [htext]

theorem IsSuffix.trans (h : u.IsSuffix w) (h' : w.IsSuffix v) : u.IsSuffix v := by
  obtain ⟨htext, hle, hend⟩ := h
  obtain ⟨htext', hle', -⟩ := h'
  refine ⟨htext.trans htext', Int.le_trans hle' hle, ?_⟩
  rwa [htext'] at hend

theorem isSuffix_between (before s t : List Char) :
    (between (before ++ s) t).IsSuffix (between before (s ++ t)) := by
  simp only [IsSuffix, text_between, offset_between, List.append_assoc, List.length_append,
    List.size_toArray, true_and]
  omega

end View

/-- The view at which an outcome stands. -/
def Outcome.view {α : Type} : Outcome α → View
  | success remaining _ => remaining
  | rejected e => e.input

@[simp] theorem Outcome.view_map {α β : Type} (f : α → β) (outcome : Outcome α) :
    (outcome.map f).view = outcome.view := by
  cases outcome <;> rfl

namespace Step

variable {α β : Type} {p q : Step α} {v : View}

/-- Wherever the step answers, the view in its outcome is a suffix of the given one. -/
def WellBehaved (p : Step α) : Prop :=
  ∀ v, v.Within → ∀ outcome, p v = .ok outcome → outcome.view.IsSuffix v

theorem Local.wellBehaved (h : p.Local) : p.WellBehaved := by
  intro v hv outcome hout
  rw [← View.between_before_rest hv] at hout ⊢
  generalize v.before = before, v.rest = l at hout ⊢
  cases h l with
  | reads h =>
    cases (h before).symm.trans hout
    exact View.isSuffix_between _ _ _
  | rejects h =>
    cases (h before).symm.trans hout
    exact View.isSuffix_between _ _ _

theorem WellBehaved.map (f : α → β) (h : p.WellBehaved) : (p.map f).WellBehaved := by
  intro v hv outcome hout
  cases hp : p v with
  | error fault => simp [Step.map, hp, Except.map] at hout
  | ok first =>
    simp only [Step.map, hp, Except.map, Except.ok.injEq] at hout
    rw [← hout, Outcome.view_map]
    exact h v hv first hp

theorem WellBehaved.bind {next : α → Step β} (h : p.WellBehaved)
    (hnext : ∀ x, (next x).WellBehaved) : (p.bind next).WellBehaved := by
  intro v hv outcome hout
  simp only [Step.bind] at hout
  split at hout
  · rename_i remaining output hp
    have hfirst : remaining.IsSuffix v := h v hv _ hp
    exact (hnext output remaining (hfirst.within hv) outcome hout).trans hfirst
  · rename_i e hp
    cases hout
    exact h v hv _ hp
  · cases hout

theorem WellBehaved.orElse (h : p.WellBehaved) (h' : q.WellBehaved) :
    (p.orElse q).WellBehaved := by
  intro v hv outcome hout
  simp only [Step.orElse] at hout
  split at hout
  · rename_i e hp
    split at hout
    · cases hout
      exact h v hv _ hp
    · -- The second step is asked at the given view, not where the first stopped.
      exact h' v hv outcome hout
  · exact h v hv outcome hout

theorem WellBehaved.screen (accept : α → Bool) (c : Code) (h : p.WellBehaved) :
    (p.screen accept c).WellBehaved := by
  intro v hv outcome hout
  simp only [Step.screen] at hout
  split at hout
  · rename_i remaining output hp
    split at hout
    · exact h v hv outcome (hp.trans hout)
    · cases hout
      exact View.isSuffix_refl hv
  · exact h v hv outcome hout

theorem WellBehaved.filter (accept : α → Bool) (h : p.WellBehaved) :
    (p.filter accept).WellBehaved := by
  simpa only [filter_eq_screen] using h.screen accept _

theorem WellBehaved.require (accept : α → Bool) (expected : String) (h : p.WellBehaved) :
    (p.require accept expected).WellBehaved := by
  simpa only [require_eq_screen] using h.screen accept _

theorem WellBehaved.pair {q : Step β} (h : p.WellBehaved) (h' : q.WellBehaved) :
    (p.pair q).WellBehaved := by
  intro v hv outcome hout
  simp only [Step.pair] at hout
  split at hout
  · rename_i middle first hp
    have hfirst : middle.IsSuffix v := h v hv _ hp
    split at hout
    · rename_i remaining second hq
      cases hout
      exact (h' middle (hfirst.within hv) _ hq).trans hfirst
    · -- Wherever the second part stopped, the rejection is moved back.
      cases hout
      exact View.isSuffix_refl hv
    · cases hout
  · rename_i e hp
    cases hout
    exact h v hv _ hp
  · cases hout

theorem WellBehaved.many (h : p.WellBehaved) : p.many.WellBehaved := by
  intro v hv
  generalize hn : v.size.toNat = n
  -- The induction is on what is left to read, and each turn starts at a suffix.
  induction n using Nat.strongRecOn generalizing v with
  | _ n ih =>
    intro outcome hout
    rw [many_eq] at hout
    split at hout
    · rename_i remaining output hp
      have hturn : remaining.IsSuffix v := h v hv _ hp
      split at hout
      · cases hout
      · rename_i hsizes
        split at hout
        · rename_i hless
          have hshorter : remaining.size.toNat < n := by omega
          have hrest := ih _ hshorter remaining (hturn.within hv) rfl
          cases hmany : p.many remaining with
          | error fault => simp [hmany, Except.map] at hout
          | ok others =>
            simp only [hmany, Except.map, Except.ok.injEq] at hout
            rw [← hout, Outcome.view_map]
            exact (hrest others hmany).trans hturn
        · cases hout
          exact View.isSuffix_refl hv
    · rename_i e hp
      split at hout
      · cases hout
        exact h v hv _ hp
      · cases hout
        exact View.isSuffix_refl hv
    · cases hout

end Step

end Delimited
