import Delimited.Proofs.Reading

/-!
# The shape of what is read

What a combinator can put out follows from what its parts can put out, at whatever view they
are asked. So a document that was read has a first record, and all its records are as wide
as that one. This holds for every view, also for one whose offset lies outside its text.

## Main definitions

* `Step.Outputs p P`: whatever `p` reads has the property `P`.
* `Grammar.Rectangular`: the documents with records of one width.

## Main results

* `Step.Outputs.map`, `Step.Outputs.bind`, `Step.outputs_require`, `Step.Outputs.pair`,
  `Step.Outputs.many`: the combinators.
* `Grammar.rectangular_of_parseDocument`: the records of a document.
-/

namespace Delimited

namespace Step

variable {α β : Type} {p : Step α} {q : Step β} {P : α → Prop} {Q : β → Prop}

/-- Whatever the step reads has the property. -/
def Outputs (p : Step α) (P : α → Prop) : Prop :=
  ∀ ⦃v remaining : View⦄ ⦃output : α⦄, p v = .ok (.success remaining output) → P output

theorem Outputs.map {f : α → β} (h : p.Outputs fun output => Q (f output)) :
    (p.map f).Outputs Q := by
  intro v remaining output hread
  rw [Step.map] at hread
  rcases hp : p v with fault | ⟨remaining', output'⟩ | e
  · simp [hp, Except.map] at hread
  · simp only [hp, Except.map, Outcome.map, Except.ok.injEq, Outcome.success.injEq] at hread
    rw [← hread.2]
    exact h hp
  · simp [hp, Except.map, Outcome.map] at hread

theorem Outputs.bind {next : α → Step β} (h : p.Outputs P)
    (hnext : ∀ output, P output → (next output).Outputs Q) : (p.bind next).Outputs Q := by
  intro v remaining output hread
  rw [Step.bind] at hread
  rcases hp : p v with fault | ⟨middle, first⟩ | e
  · simp [hp] at hread
  · rw [hp] at hread
    exact hnext first (h hp) hread
  · simp [hp] at hread

/-- An output that was refused is not put out. -/
theorem outputs_require (p : Step α) (accept : α → Bool) (expected : String) :
    (p.require accept expected).Outputs fun output => accept output = true := by
  intro v remaining output hread
  rw [Step.require] at hread
  rcases hp : p v with fault | ⟨remaining', output'⟩ | e
  · simp [hp] at hread
  · rw [hp] at hread
    dsimp only at hread
    split at hread
    · rename_i haccept
      cases hread
      exact haccept
    · cases hread
  · simp [hp] at hread

theorem Outputs.pair (h : q.Outputs Q) : (p.pair q).Outputs fun output => Q output.2 := by
  intro v remaining output hread
  rw [Step.pair] at hread
  rcases hp : p v with fault | ⟨middle, first⟩ | e
  · simp [hp] at hread
  · rcases hq : q middle with fault | ⟨remaining', second⟩ | e
    · simp [hp, hq] at hread
    · simp only [hp, hq] at hread
      cases hread
      exact h hq
    · simp [hp, hq, Outcome.reject] at hread
  · simp [hp] at hread

/-- Every output that a repetition collects was put out by its step. -/
theorem Outputs.many (h : p.Outputs P) : p.many.Outputs fun outputs => ∀ a ∈ outputs, P a := by
  intro v
  generalize hn : v.size.toNat = n
  -- The induction is on what is left to read, as for the repetition itself.
  induction n using Nat.strongRecOn generalizing v with
  | _ n ih =>
    intro remaining outputs hread
    rw [many_eq] at hread
    rcases hp : p v with fault | ⟨middle, first⟩ | e
    · simp [hp] at hread
    · simp only [hp] at hread
      split at hread
      · cases hread
      · split at hread
        · rcases hmany : p.many middle with fault | ⟨remaining', others⟩ | e
          · simp [hmany, Except.map] at hread
          · simp only [hmany, Except.map, Outcome.map, Except.ok.injEq,
              Outcome.success.injEq] at hread
            rw [← hread.2]
            exact List.forall_mem_cons.mpr ⟨h hp, ih _ (by omega) rfl hmany⟩
          · simp [hmany, Except.map, Outcome.map] at hread
        · simp [Outcome.fail, Outcome.reject] at hread
    · simp only [hp] at hread
      split at hread
      · cases hread
      · cases hread
        simp

end Step

namespace Grammar

variable {v remaining : View} {d : Document}

theorem outputs_finish (d : Document) : (finish d).Outputs (· = d) := by
  intro v remaining output hread
  unfold finish at hread
  repeat' split at hread
  all_goals cases hread
  all_goals rfl

/-- There is a first record, and all others are as wide. -/
def Rectangular (d : Document) : Prop :=
  ∃ first others, d = first :: others ∧ ∀ r ∈ others, r.length = first.length

theorem outputs_recordsLike (first : Record) : (recordsLike first).run.Outputs Rectangular := by
  refine Step.Outputs.map fun v remaining others hread => ⟨first, others, rfl, ?_⟩
  refine (Step.Outputs.many (Step.Outputs.map (Step.Outputs.pair ?_))) hread
  intro v remaining r hread
  simpa using Step.outputs_require _ _ _ hread

theorem outputs_document : document.run.Outputs Rectangular := by
  have hrecords : records.run.Outputs Rectangular :=
    Step.Outputs.bind (P := fun _ => True) (fun _ _ _ _ => trivial) fun first _ =>
      outputs_recordsLike first
  refine hrecords.bind fun d hd v remaining output hread => ?_
  rw [outputs_finish d hread]
  exact hd

/-- A document that was read has records, all of one width. -/
theorem rectangular_of_parseDocument (h : parseDocument v = .ok (.success remaining d)) :
    Rectangular d :=
  outputs_document h

end Grammar

end Delimited
