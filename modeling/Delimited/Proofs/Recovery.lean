import Delimited.Proofs.Reading

/-!
# What combinators see of a rejection

Two answers agree when they are equal or both are rejections that may be
recovered from. The combinators look at nothing but whether a rejection is hard,
so they cannot tell such rejections apart: parts whose answers agree may be put
for each other in any context.

The relation is kept by the combinators one by one, for steps, and then by the
contexts, by induction on how they are built.

## Main definitions

* `Agree a b`: the answers are equal, or both may be recovered from.
* `Step.Agrees p q`: the answers of `p` and `q` agree at every view.
* `Context α β`: a parser with holes for a parser of `α`.
* `Context.plug`: the parser in which the holes are filled.

## Main results

* `Step.Agrees.bind`, `Step.Agrees.orElse`, `Step.Agrees.pair`,
  `Step.Agrees.many` and the like: the combinators keep agreement.
* `Context.agree_run_plug`: contexts keep agreement, so the filled parsers succeed
  alike and fail hard alike.
-/

namespace Delimited

variable {α β γ : Type}

/-- The answers are equal, or both are rejections that may be recovered from. -/
def Agree (a b : Except Fault (Outcome α)) : Prop :=
  a = b ∨ ∃ e e', a = .ok (.rejected e) ∧ b = .ok (.rejected e') ∧
    e.isHard = false ∧ e'.isHard = false

namespace Agree

variable {a b : Except Fault (Outcome α)}

theorem refl (a : Except Fault (Outcome α)) : Agree a a := .inl rfl

theorem recoverable {e e' : Rejection} (h : e.isHard = false) (h' : e'.isHard = false) :
    Agree (.ok (.rejected e) : Except Fault (Outcome α)) (.ok (.rejected e')) :=
  .inr ⟨e, e', rfl, rfl, h, h'⟩

theorem map (f : α → β) (h : Agree a b) :
    Agree (a.map (Outcome.map f)) (b.map (Outcome.map f)) := by
  rcases h with rfl | ⟨e, e', rfl, rfl, he, he'⟩
  · exact refl _
  · exact recoverable he he'

theorem eq_success_iff (h : Agree a b) (remaining : View) (output : α) :
    a = .ok (.success remaining output) ↔ b = .ok (.success remaining output) := by
  rcases h with rfl | ⟨e, e', rfl, rfl, -, -⟩
  · rfl
  · simp

theorem eq_rejected_iff (h : Agree a b) {e : Rejection} (he : e.isHard = true) :
    a = .ok (.rejected e) ↔ b = .ok (.rejected e) := by
  rcases h with rfl | ⟨d, d', rfl, rfl, hd, hd'⟩
  · rfl
  · -- Neither side is a hard rejection.
    constructor
    · rintro ⟨⟩
      simp [hd] at he
    · rintro ⟨⟩
      simp [hd'] at he

end Agree

/-! ### Steps -/

namespace Step

variable {p q p' q' : Step α}

/-- The answers of the two steps agree at every view. -/
def Agrees (p q : Step α) : Prop := ∀ v, Agree (p v) (q v)

theorem Agrees.map (f : α → β) (h : p.Agrees q) : (p.map f).Agrees (q.map f) :=
  fun v => (h v).map f

theorem Agrees.bind {next next' : α → Step β} (h : p.Agrees q)
    (hnext : ∀ x, (next x).Agrees (next' x)) : (p.bind next).Agrees (q.bind next') := by
  intro v
  simp only [Step.bind]
  rcases h v with heq | ⟨e, e', hp, hq, he, he'⟩
  · rw [heq]
    -- After the same success, the steps that go on agree.
    split
    · exact hnext _ _
    · exact .refl _
    · exact .refl _
  · rw [hp, hq]
    exact .recoverable he he'

theorem Agrees.orElse (h : p.Agrees q) (h' : p'.Agrees q') :
    (p.orElse p').Agrees (q.orElse q') := by
  intro v
  simp only [Step.orElse]
  rcases h v with heq | ⟨e, e', hp, hq, he, he'⟩
  · rw [heq]
    split
    · split
      · exact .refl _
      · exact h' v
    · exact .refl _
  · -- The second steps are asked, whatever the first rejections were.
    simpa only [hp, hq, he, he', Bool.false_eq_true, if_false] using h' v

theorem Agrees.screen (accept : α → Bool) (c : Code) (h : p.Agrees q) :
    (p.screen accept c).Agrees (q.screen accept c) := by
  intro v
  simp only [Step.screen]
  rcases h v with heq | ⟨e, e', hp, hq, he, he'⟩
  · rw [heq]
    exact .refl _
  · rw [hp, hq]
    exact .recoverable he he'

theorem Agrees.filter (accept : α → Bool) (h : p.Agrees q) :
    (p.filter accept).Agrees (q.filter accept) := by
  simpa only [filter_eq_screen] using h.screen accept _

theorem Agrees.require (accept : α → Bool) (expected : String) (h : p.Agrees q) :
    (p.require accept expected).Agrees (q.require accept expected) := by
  simpa only [require_eq_screen] using h.screen accept _

theorem Agrees.pair {p' q' : Step β} (h : p.Agrees q) (h' : p'.Agrees q') :
    (p.pair p').Agrees (q.pair q') := by
  intro v
  simp only [Step.pair]
  rcases h v with heq | ⟨e, e', hp, hq, he, he'⟩
  · rw [heq]
    split
    · rename_i middle first _
      rcases h' middle with heq' | ⟨e, e', hp', hq', he, he'⟩
      · rw [heq']
        exact .refl _
      · -- Moving the rejections back keeps their codes, so neither becomes hard.
        rw [hp', hq']
        exact .recoverable he he'
    · exact .refl _
    · exact .refl _
  · rw [hp, hq]
    exact .recoverable he he'

theorem Agrees.many (h : p.Agrees q) : p.many.Agrees q.many := by
  intro v
  generalize hn : v.size.toNat = n
  -- The induction is on what is left to read. Two rejections that may be recovered
  -- from end both repetitions before the same turn.
  induction n using Nat.strongRecOn generalizing v with
  | _ n ih =>
    rw [many_eq, many_eq]
    rcases h v with heq | ⟨e, e', hp, hq, he, he'⟩
    · rw [heq]
      split
      · rename_i remaining output _
        split
        · exact .refl _
        · rename_i hsizes
          split
          · rename_i hless
            have hshorter : remaining.size.toNat < n := by omega
            exact (ih _ hshorter remaining rfl).map _
          · exact .refl _
      · exact .refl _
      · exact .refl _
    · simpa only [hp, hq, he, he', Bool.false_eq_true, if_false] using .refl _

end Step

/-! ### Contexts -/

/-- A parser of `β` with any number of holes for a parser of `α`, in any places. -/
inductive Context (α : Type) : Type → Type 1 where
  /-- A place to be filled. -/
  | hole : Context α α
  /-- A part without holes. -/
  | parser {β : Type} (q : Parser β) : Context α β
  | map {β γ : Type} (f : β → γ) (C : Context α β) : Context α γ
  | bind {β γ : Type} (C : Context α β) (next : β → Context α γ) : Context α γ
  | orElse {β : Type} (C D : Context α β) : Context α β
  | filter {β : Type} (C : Context α β) (accept : β → Bool) : Context α β
  | require {β : Type} (C : Context α β) (accept : β → Bool) (expected : String) : Context α β
  | pair {β γ : Type} (C : Context α β) (D : Context α γ) : Context α (β × γ)
  | many {β : Type} (C : Context α β) : Context α (List β)

namespace Context

/-- The context with `p` in its holes. -/
def plug (p : Parser α) {β : Type} : Context α β → Parser β
  | hole => p
  | parser q => q
  | map f C => (C.plug p).map f
  | bind C next => (C.plug p).bind fun output => (next output).plug p
  | orElse C D => (C.plug p).orElse (D.plug p)
  | filter C accept => (C.plug p).filter accept
  | require C accept expected => (C.plug p).require accept expected
  | pair C D => (C.plug p).pair (D.plug p)
  | many C => (C.plug p).many

/-- Reads two things and keeps the first. -/
def left (C : Context α β) (D : Context α γ) : Context α β := (C.pair D).map Prod.fst

/-- Reads two things and keeps the second. -/
def right (C : Context α β) (D : Context α γ) : Context α γ := (C.pair D).map Prod.snd

theorem agrees_plug {p q : Parser α} (h : p.run.Agrees q.run) (C : Context α β) :
    (C.plug p).run.Agrees (C.plug q).run := by
  induction C with
  | hole => exact h
  | parser q => exact fun v => .refl _
  | map f C ih => exact ih.map f
  | bind C next ih ihnext => exact ih.bind ihnext
  | orElse C D ih ih' => exact ih.orElse ih'
  | filter C accept ih => exact ih.filter accept
  | require C accept expected ih => exact ih.require accept expected
  | pair C D ih ih' => exact ih.pair ih'
  | many C ih => exact ih.many

/-- In every context, parsers whose answers agree give answers that agree. So the
filled contexts succeed at the same views, with the same output and the same
remaining view, and fail hard at the same views, with the same rejection. -/
theorem agree_run_plug (C : Context α β) (p q : Parser α) (h : ∀ v, Agree (p.run v) (q.run v))
    (v : View) :
    Agree ((C.plug p).run v) ((C.plug q).run v) ∧
      (∀ remaining output, (C.plug p).run v = .ok (.success remaining output) ↔
        (C.plug q).run v = .ok (.success remaining output)) ∧
      ∀ e : Rejection, e.isHard = true →
        ((C.plug p).run v = .ok (.rejected e) ↔ (C.plug q).run v = .ok (.rejected e)) := by
  have hagree := agrees_plug h C v
  exact ⟨hagree, hagree.eq_success_iff, fun e he => hagree.eq_rejected_iff he⟩

/-- The case of two parsers of one character, which report its absence in different
ways, as the lines of a repetition and again behind it. -/
theorem agree_run_plug_lines :
    (∀ v, Agree ((Parser.char 'a').run v) ((Parser.anyChar.filter (· == 'a')).run v)) ∧
      Agree
        ((((hole.left (parser Parser.lineBreak)).many.pair hole).plug (Parser.char 'a')).run
          (.ofString "a\nb"))
        ((((hole.left (parser Parser.lineBreak)).many.pair hole).plug
          (Parser.anyChar.filter (· == 'a'))).run (.ofString "a\nb")) := by
  have hchar (v : View) :
      Agree ((Parser.char 'a').run v) ((Parser.anyChar.filter (· == 'a')).run v) := by
    simp only [Parser.char, Parser.anyChar, Parser.run, Step.filter]
    cases hpeek : v.peek with
    | error fault => exact .refl _
    | ok next =>
      cases next with
      | none => exact .refl _
      | some d =>
        by_cases hd : d = 'a'
        · subst hd
          exact .refl _
        · simpa [hd] using .recoverable rfl rfl
  exact ⟨hchar, (agree_run_plug _ (Parser.char 'a') _ hchar (.ofString "a\nb")).1⟩

end Context

end Delimited
