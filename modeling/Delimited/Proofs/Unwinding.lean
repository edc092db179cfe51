import Delimited.Proofs.Trace

/-!
# Hard rejections end a run

Once some parser in a run has been rejected hard, nothing is asked any more: what
is left of the run are the answers of the parsers around it, and each of them is
a hard rejection with the same code, the last one being that of the whole run.

A run ends in a hard rejection only where one begins: at a leaf, at an output
that is refused for good, or at a turn of a repetition that leaves no less than it
was given. In the events of the run such an origin is seen in one answer, or in
two that follow each other.

## Main definitions

* `hardCode?`: the code of an answer that is a hard rejection.
* `Recorded.Unwinds r`: after a hard answer among the events of `r` all others, and
  the answer of `r`, are hard with its code.
* `Origin events c`: among the events a hard rejection with the code `c` begins.

## Main results

* `Parser.unwinds_recorded`: every recorded run unwinds.
* `Parser.origin_of_run_eq`: where a hard rejection of a run begins.
* `Parser.hard_ends_run_and_has_origin`: both, in terms of runs.
-/

namespace Delimited

variable {α β : Type}

/-- The code of a hard rejection. -/
def hardCode? : Except Fault (Outcome α) → Option Code
  | .ok (.rejected e) => if e.isHard then some e.code else none
  | _ => none

theorem hardCode?_eq_some_iff {answer : Except Fault (Outcome α)} {c : Code} :
    hardCode? answer = some c ↔
      ∃ e, answer = .ok (.rejected e) ∧ e.isHard = true ∧ e.code = c := by
  rcases answer with fault | ⟨remaining, output⟩ | e
  · simp [hardCode?]
  · simp [hardCode?]
  · simp [hardCode?]

theorem hardCode?_rejected {e : Rejection} (he : e.isHard = true) :
    hardCode? (.ok (.rejected e) : Except Fault (Outcome α)) = some e.code := by
  simp [hardCode?, he]

/-- The code of a hard rejection that is answered. -/
def Event.hardCode? : Event → Option Code
  | asked _ _ => none
  | answered _ _ answer => Delimited.hardCode? answer

/-! ### Nothing is asked after a hard rejection -/

namespace Recorded

/-- After a hard answer among the events, all others are hard answers with its code,
and so is the answer they lead to. -/
structure Unwinds (r : Recorded α) : Prop where
  pairwise : r.events.Pairwise fun first second =>
    ∀ c, first.hardCode? = some c → second.hardCode? = some c
  answer : ∀ event ∈ r.events, ∀ c, event.hardCode? = some c → hardCode? r.answer = some c

theorem unwinds_given (answer : Except Fault (Outcome α)) : (given answer).Unwinds :=
  ⟨.nil, by simp⟩

theorem Unwinds.andThen {r : Recorded α} {next : Except Fault (Outcome α) → Recorded β}
    (hpasses : PassesHard next) (h : r.Unwinds) (hnext : ∀ answer, (next answer).Unwinds) :
    (r.andThen next).Unwinds := by
  -- What is hard among the first events is passed on, and then no others follow.
  have hfirst : ∀ event ∈ r.events, ∀ c, event.hardCode? = some c →
      (next r.answer).events = [] ∧ hardCode? (next r.answer).answer = some c := by
    intro event hmem c hc
    obtain ⟨e, heq, he, rfl⟩ := hardCode?_eq_some_iff.mp (h.answer event hmem c hc)
    obtain ⟨e', heq', hcode⟩ := hpasses e he
    have he' : e'.isHard = true := by rw [Rejection.isHard, hcode]; exact he
    rw [heq, heq', ← hcode]
    exact ⟨rfl, hardCode?_rejected he'⟩
  constructor
  · rw [events_andThen, List.pairwise_append]
    refine ⟨h.pairwise, (hnext _).pairwise, ?_⟩
    intro first hmem second hmem' c hc
    rw [(hfirst first hmem c hc).1] at hmem'
    cases hmem'
  · intro event hmem c hc
    rcases List.mem_append.mp hmem with hmem | hmem
    · exact (hfirst event hmem c hc).2
    · exact (hnext _).answer event hmem c hc

theorem Unwinds.inside {r : Recorded α} (p : Parser α) (v : View) (h : r.Unwinds) :
    (r.inside p v).Unwinds := by
  have hlast : (Event.answered p v r.answer).hardCode? = hardCode? r.answer := rfl
  constructor
  · rw [events_inside, List.pairwise_cons, List.pairwise_append]
    refine ⟨?_, h.pairwise, List.pairwise_singleton _ _, ?_⟩
    · intro event _ c hc
      cases hc
    · intro event hmem last hmem' c hc
      rw [List.mem_singleton.mp hmem', hlast]
      exact h.answer event hmem c hc
  · intro event hmem c hc
    rw [events_inside, List.mem_cons, List.mem_append, List.mem_singleton] at hmem
    rcases hmem with rfl | hmem | rfl
    · cases hc
    · exact h.answer event hmem c hc
    · exact hc

end Recorded

namespace Parser

theorem unwinds_recorded (p : Parser α) (v : View) : (p.recorded v).Unwinds :=
  recorded_induction (fun _ => Recorded.unwinds_given)
    (fun _ _ _ _ hpasses h hnext => h.andThen hpasses hnext) (fun _ p v _ _ h => h.inside p v) p v

end Parser

/-! ### How the rejections of combinators come about -/

namespace Step

variable {p q : Step α} {v : View} {e : Rejection}

theorem of_map_eq_rejected {f : α → β} (h : p.map f v = .ok (.rejected e)) :
    p v = .ok (.rejected e) := by
  rw [Step.map] at h
  rcases hp : p v with fault | ⟨remaining, output⟩ | e'
  · simp [hp, Except.map] at h
  · simp [hp, Except.map, Outcome.map] at h
  · simpa [hp, Except.map, Outcome.map] using h

theorem of_bind_eq_rejected {next : α → Step β} (h : p.bind next v = .ok (.rejected e)) :
    p v = .ok (.rejected e) ∨ ∃ remaining output, p v = .ok (.success remaining output) ∧
      next output remaining = .ok (.rejected e) := by
  rw [Step.bind] at h
  rcases hp : p v with fault | ⟨remaining, output⟩ | e'
  · simp [hp] at h
  · rw [hp] at h
    exact .inr ⟨remaining, output, rfl, h⟩
  · rw [hp] at h
    cases h
    exact .inl rfl

theorem of_orElse_eq_rejected (h : p.orElse q v = .ok (.rejected e)) :
    p v = .ok (.rejected e) ∨
      ∃ e', p v = .ok (.rejected e') ∧ e'.isHard = false ∧ q v = .ok (.rejected e) := by
  rw [Step.orElse] at h
  rcases hp : p v with fault | ⟨remaining, output⟩ | e'
  · simp [hp] at h
  · simp [hp] at h
  · cases he' : e'.isHard with
    | true =>
      simp only [hp, he', if_true] at h
      exact .inl h
    | false =>
      simp only [hp, he', Bool.false_eq_true, if_false] at h
      exact .inr ⟨e', rfl, he', h⟩

theorem of_screen_eq_rejected {accept : α → Bool} {c : Code}
    (h : p.screen accept c v = .ok (.rejected e)) :
    p v = .ok (.rejected e) ∨ ∃ remaining output, p v = .ok (.success remaining output) ∧
      accept output = false ∧ e = ⟨v, c⟩ := by
  rw [Step.screen] at h
  rcases hp : p v with fault | ⟨remaining, output⟩ | e'
  · simp [hp] at h
  · cases hx : accept output with
    | true => simp [hp, hx] at h
    | false =>
      simp only [hp, hx, Bool.false_eq_true, if_false] at h
      cases h
      exact .inr ⟨remaining, output, rfl, hx, rfl⟩
  · rw [hp] at h
    exact .inl h

theorem of_pair_eq_rejected {q : Step β} (h : p.pair q v = .ok (.rejected e)) :
    p v = .ok (.rejected e) ∨ ∃ middle first e', p v = .ok (.success middle first) ∧
      q middle = .ok (.rejected e') ∧ e = ⟨v, e'.code⟩ := by
  rw [Step.pair] at h
  rcases hp : p v with fault | ⟨middle, first⟩ | e'
  · simp [hp] at h
  · rcases hq : q middle with fault | ⟨remaining, second⟩ | e'
    · simp [hp, hq] at h
    · simp [hp, hq] at h
    · simp only [hp, hq] at h
      cases h
      exact .inr ⟨middle, first, e', rfl, hq, rfl⟩
  · rw [hp] at h
    cases h
    exact .inl rfl

end Step

/-! ### Where a hard rejection begins -/

/-- Among the events a hard rejection with this code begins. -/
inductive Origin (events : List Event) : Code → Prop where
  /-- A leaf is rejected hard. -/
  | leaf {α : Type} {name : String} {step : Step α} {w : View} {e : Rejection}
      (answered : .answered (.leaf name step) w (.ok (.rejected e)) ∈ events)
      (hard : e.isHard = true) : Origin events e.code
  /-- An output is refused for good. -/
  | refused {α : Type} {q : Parser α} {accept : α → Bool} {expected : String}
      {w remaining : View} {output : α}
      (answered : [.answered q w (.ok (.success remaining output)),
        .answered (q.require accept expected) w (.ok (.fail w (.invalidInput expected)))] <:+:
          events)
      (refused : accept output = false) : Origin events (.failure (.invalidInput expected))
  /-- A turn of a repetition leaves no less than it was given. -/
  | stuck {α : Type} {q : Parser α} {v w remaining : View} {output : α}
      (answered : [.answered q w (.ok (.success remaining output)),
        .answered q.many v (.ok (.fail w .systemFailure))] <:+: events)
      (stuck : w.size ≤ remaining.size) : Origin events (.failure .systemFailure)

namespace Origin

variable {events events' : List Event} {c : Code} {p : Parser β} {v : View} {r : Recorded α}
  {next : Except Fault (Outcome α) → Recorded β}

theorem mono (h : Origin events c) (hpart : events <:+: events') : Origin events' c := by
  cases h with
  | leaf answered hard => exact .leaf (hpart.subset answered) hard
  | refused answered refused => exact .refused (answered.trans hpart) refused
  | stuck answered stuck => exact .stuck (answered.trans hpart) stuck

theorem of_first (h : Origin r.events c) : Origin ((r.andThen next).inside p v).events c :=
  h.mono ⟨[.asked p v], (next r.answer).events ++ [.answered p v (next r.answer).answer], by simp⟩

theorem of_next (h : Origin (next r.answer).events c) :
    Origin ((r.andThen next).inside p v).events c :=
  h.mono ⟨.asked p v :: r.events, [.answered p v (next r.answer).answer], by simp⟩

end Origin

namespace Parser

open Recorded

/-- The last event of a recorded run is the answer of its parser. -/
theorem exists_events_recorded_eq (p : Parser α) (v : View) :
    ∃ before, (p.recorded v).events = before ++ [.answered p v (p.run v)] := by
  have hinside : ∃ r : Recorded α, p.recorded v = r.inside p v := by
    cases p <;> exact ⟨_, by rw [recorded]⟩
  obtain ⟨r, hr⟩ := hinside
  have hanswer : r.answer = p.run v := by rw [← answer_recorded p v, hr, answer_inside]
  exact ⟨.asked p v :: r.events, by simp [hr, hanswer]⟩

/-- A hard rejection of a repetition begins in one of its turns. It may begin with
the answer of the repetition, so that one is put behind the events of the turns. -/
theorem origin_many {p : Parser α}
    (h : ∀ v e, p.run v = .ok (.rejected e) → e.isHard = true →
      Origin (p.recorded v).events e.code)
    {e : Rejection} (he : e.isHard = true) (v₀ v : View)
    (hmany : p.run.many v = .ok (.rejected e)) :
    Origin ((Recorded.many p.recorded v).events ++ [.answered p.many v₀ (.ok (.rejected e))])
      e.code := by
  generalize hn : v.size.toNat = n
  induction n using Nat.strongRecOn generalizing v with
  | _ n ih =>
    rw [Step.many_eq] at hmany
    rcases hp : p.run v with fault | ⟨remaining, output⟩ | e'
    · simp [hp] at hmany
    · by_cases hsizes : remaining.size < 0 ∨ v.size < 0
      · simp [hp, hsizes] at hmany
      by_cases hless : remaining.size < v.size
      · simp only [hp, hsizes, hless, if_true, if_false] at hmany
        replace hmany := Step.of_map_eq_rejected hmany
        have hshorter : remaining.size.toNat < n := by omega
        have hevents : (Recorded.many p.recorded v).events =
            (p.recorded v).events ++ (Recorded.many p.recorded remaining).events := by
          rw [Recorded.many]
          simp [hp, hsizes, hless]
        rw [hevents, List.append_assoc]
        exact (ih _ hshorter remaining hmany rfl).mono (List.suffix_append _ _).isInfix
      · -- The turn that is stuck is the last one, right before the answer.
        simp only [hp, hsizes, hless, if_false, Except.ok.injEq, Outcome.fail, Outcome.reject,
          Outcome.rejected.injEq] at hmany
        subst hmany
        obtain ⟨before, hbefore⟩ := exists_events_recorded_eq p v
        have hevents : (Recorded.many p.recorded v).events =
            before ++ [.answered p v (.ok (.success remaining output))] := by
          rw [Recorded.many]
          simp [hp, hsizes, hless, hbefore]
        rw [hevents, List.append_assoc]
        exact .stuck (List.suffix_append before _).isInfix (Int.not_lt.mp hless)
    · by_cases he' : e'.isHard = true
      · simp only [hp, he', if_true, Except.ok.injEq, Outcome.rejected.injEq] at hmany
        subst hmany
        have hevents : (Recorded.many p.recorded v).events = (p.recorded v).events := by
          rw [Recorded.many]
          simp [hp, he']
        rw [hevents]
        exact (h v e' hp he').mono (List.prefix_append _ _).isInfix
      · simp [hp, he'] at hmany

/-- Where a hard rejection of a run begins. -/
theorem origin_of_run_eq (p : Parser α) (v : View) (e : Rejection)
    (h : p.run v = .ok (.rejected e)) (he : e.isHard = true) :
    Origin (p.recorded v).events e.code := by
  induction p generalizing v e with
  | leaf name step =>
    have hmem : .answered (leaf name step) v (.ok (.rejected e)) ∈
        ((leaf name step).recorded v).events := by
      rw [recorded, ← h]
      simp [run]
    exact .leaf hmem he
  | map f p ih =>
    rw [recorded]
    exact (ih v e (Step.of_map_eq_rejected h) he).of_first
  | bind p next ih ihnext =>
    rw [recorded]
    rcases Step.of_bind_eq_rejected h with hp | ⟨remaining, output, hp, hnext⟩
    · exact (ih v e hp he).of_first
    · apply Origin.of_next
      simpa only [answer_recorded, hp] using ihnext output remaining e hnext he
  | orElse p q ih ih' =>
    rw [recorded]
    rcases Step.of_orElse_eq_rejected h with hp | ⟨e', hp, he', hq⟩
    · exact (ih v e hp he).of_first
    · apply Origin.of_next
      simpa [hp, he'] using ih' v e hq he
  | filter p accept ih =>
    rw [recorded]
    rcases Step.of_screen_eq_rejected h with hp | ⟨-, -, -, -, rfl⟩
    · exact (ih v e hp he).of_first
    · -- An output refused by a filter may be recovered from.
      cases he
  | require p accept expected ih =>
    rcases Step.of_screen_eq_rejected h with hp | ⟨remaining, output, hp, hx, rfl⟩
    · rw [recorded]
      exact (ih v e hp he).of_first
    · obtain ⟨before, hbefore⟩ := exists_events_recorded_eq p v
      have hpart : [.answered p v (.ok (.success remaining output)),
          .answered (p.require accept expected) v (.ok (.fail v (.invalidInput expected)))] <:+:
            ((p.require accept expected).recorded v).events := by
        refine ⟨.asked (p.require accept expected) v :: before, [], ?_⟩
        simp [recorded, screen, Outcome.fail, hp, hx, hbefore]
      exact .refused hpart hx
  | pair p q ih ih' =>
    rw [recorded]
    rcases Step.of_pair_eq_rejected h with hp | ⟨middle, first, e', hp, hq, rfl⟩
    · exact (ih v e hp he).of_first
    · -- The rejection is moved back to `v`, with the code that the second part gave.
      apply Origin.of_next
      simpa [hp, hq] using ih' middle e' hq he
  | many p ih =>
    have hmany : p.run.many v = .ok (.rejected e) := h
    rw [recorded, events_inside, Recorded.answer_many (answer_recorded p), hmany]
    exact (origin_many ih he v v hmany).mono (List.suffix_cons _ _).isInfix

/-- When a parser asked in a run is rejected hard, no parser is asked after it, and
the run is rejected with the same code. And a run is rejected hard only where that
begins: at a leaf that was asked, at an output refused for good, or at a turn of a
repetition that left no less than it was given. -/
theorem hard_ends_run_and_has_origin (p : Parser α) (v : View) :
    (∀ ⦃β : Type⦄ (q : Parser β) (w : View) (e : Rejection) (earlier later : List Event),
      (p.recorded v).events = earlier ++ .answered q w (.ok (.rejected e)) :: later →
      e.isHard = true →
        q.run w = .ok (.rejected e) ∧
          (∀ ⦃γ : Type⦄ (r : Parser γ) (u : View), .asked r u ∉ later) ∧
          ∃ e', p.run v = .ok (.rejected e') ∧ e'.code = e.code) ∧
      ∀ e, p.run v = .ok (.rejected e) → e.isHard = true →
        Origin (p.recorded v).events e.code := by
  refine ⟨?_, fun e h he => origin_of_run_eq p v e h he⟩
  intro β q w e earlier later heq he
  have hmem : .answered q w (.ok (.rejected e)) ∈ (p.recorded v).events := by simp [heq]
  have hcode : (Event.answered q w (.ok (.rejected e))).hardCode? = some e.code := by
    rw [Event.hardCode?, hardCode?_rejected he]
  have hunwinds := unwinds_recorded p v
  refine ⟨(answer_eq_run_of_mem p v hmem).symm, ?_, ?_⟩
  · -- An asking is no hard answer, but all that is behind one has to be.
    intro γ r u hasked
    have hpairwise := hunwinds.pairwise
    rw [heq, List.pairwise_append, List.pairwise_cons] at hpairwise
    have hhard := hpairwise.2.1.1 (.asked r u) hasked e.code hcode
    cases hhard
  · obtain ⟨e', hanswer, -, hcode'⟩ :=
      hardCode?_eq_some_iff.mp (hunwinds.answer _ hmem e.code hcode)
    rw [answer_recorded] at hanswer
    exact ⟨e', hanswer, hcode'⟩

/-- The case of an output refused in the second half of a pair, with another parser
to fall back on, which is not asked. -/
theorem hard_ends_run_and_has_origin_pair :
    (∃ earlier later,
      ((((char 'a').right (anyChar.require (· == 'b') "b")).orElse anyChar).recorded
        ⟨#['a', 'c'], 0⟩).events =
          earlier ++ .answered (anyChar.require (· == 'b') "b") ⟨#['a', 'c'], 1⟩
            (.ok (.rejected ⟨⟨#['a', 'c'], 1⟩, .failure (.invalidInput "b")⟩)) :: later ∧
        ∀ ⦃γ : Type⦄ (r : Parser γ) (u : View), .asked r u ∉ later) ∧
      Origin ((((char 'a').right (anyChar.require (· == 'b') "b")).orElse anyChar).recorded
        ⟨#['a', 'c'], 0⟩).events (.failure (.invalidInput "b")) := by
  have hunwind := hard_ends_run_and_has_origin
    (((char 'a').right (anyChar.require (· == 'b') "b")).orElse anyChar) ⟨#['a', 'c'], 0⟩
  have hmem : .answered (anyChar.require (· == 'b') "b") ⟨#['a', 'c'], 1⟩
      (.ok (.rejected ⟨⟨#['a', 'c'], 1⟩, .failure (.invalidInput "b")⟩)) ∈
        ((((char 'a').right (anyChar.require (· == 'b') "b")).orElse anyChar).recorded
          ⟨#['a', 'c'], 0⟩).events := by
    -- Eight events precede: six parsers are asked, and two of them answer.
    iterate 8 apply List.Mem.tail
    exact .head _
  obtain ⟨earlier, later, heq⟩ := List.append_of_mem hmem
  refine ⟨⟨earlier, later, heq, (hunwind.1 _ _ _ earlier later heq rfl).2.1⟩, ?_⟩
  exact hunwind.2 ⟨⟨#['a', 'c'], 0⟩, .failure (.invalidInput "b")⟩ rfl rfl

end Parser

end Delimited
