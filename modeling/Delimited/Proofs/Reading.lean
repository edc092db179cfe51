import Delimited.Parser.Primitive
import Delimited.Proofs.View
import Delimited.Writer

/-!
# Rules of reading

What a step does at a view within its text is one of two things: it reads a part
of the text, or it is rejected somewhere in it. Both are said here of the text
ahead of the view alone, so that what the combinators do is said by one rule for
each way their parts may answer.

## Main definitions

* `Step.Reads p s x t`: ahead of `s ++ t` the step reads `s`, gives `x`, leaves `t`.
* `Step.Rejects p s c t`: ahead of `s ++ t` it is rejected with `c` where `t` begins.
* `Step.screen p accept c`: what `Step.filter` and `Step.require` are, with any code.

## Main results

* `Step.Reads.pair`, `Step.Reads.bind`, `Step.Reads.many_cons` and the like: how
  the answers of parts make the answer of the whole.
* `Step.many_eq`: what one turn of a repetition does.
* `Step.Reads.unique`: what is read is determined.
-/

namespace Delimited

namespace Step

variable {α β : Type} {p q : Step α} {x : α} {y : β} {c : Code} {s s' t t' l : List Char}

/-- Ahead of `s ++ t` the step reads `s`, gives `x` and leaves `t`. -/
def Reads (p : Step α) (s : List Char) (x : α) (t : List Char) : Prop :=
  ∀ before, p (.between before (s ++ t)) = .ok (.success (.between (before ++ s) t) x)

/-- Ahead of `s ++ t` the step is rejected with `c`, at the view where `t` begins. -/
def Rejects (p : Step α) (s : List Char) (c : Code) (t : List Char) : Prop :=
  ∀ before, p (.between before (s ++ t)) = .ok (.reject (.between (before ++ s) t) c)

theorem Reads.unique {x' : α} (h : p.Reads s x t) (h' : p.Reads s' x' t')
    (heq : s ++ t = s' ++ t') : s = s' ∧ x = x' ∧ t = t' := by
  -- One view is enough: both answers are given at the start of the same text.
  have hsame := (h []).symm.trans (heq ▸ h' [])
  simp only [Except.ok.injEq, Outcome.success.injEq] at hsame
  obtain ⟨hview, hx⟩ := hsame
  obtain ⟨hs, ht⟩ := View.between_injective hview
  exact ⟨by simpa using hs, hx, ht⟩

/-! ### Combinators that ask their parts once -/

theorem Reads.map (f : α → β) (h : p.Reads s x t) : (p.map f).Reads s (f x) t := by
  intro before
  simp [Step.map, h before, Except.map, Outcome.map]

theorem Rejects.map (f : α → β) (h : p.Rejects s c t) : (p.map f).Rejects s c t := by
  intro before
  simp [Step.map, h before, Except.map, Outcome.map, Outcome.reject]

theorem Reads.bind {next : α → Step β} (h : p.Reads s x (s' ++ t))
    (hnext : (next x).Reads s' y t) : (p.bind next).Reads (s ++ s') y t := by
  intro before
  simp only [Step.bind, List.append_assoc, h before, hnext (before ++ s)]

theorem Reads.bind_rejects {next : α → Step β} (h : p.Reads s x (s' ++ t))
    (hnext : (next x).Rejects s' c t) : (p.bind next).Rejects (s ++ s') c t := by
  intro before
  simp only [Step.bind, List.append_assoc, h before, hnext (before ++ s)]

theorem Rejects.bind {next : α → Step β} (h : p.Rejects s c t) :
    (p.bind next).Rejects s c t := by
  intro before
  simp only [Step.bind, h before, Outcome.reject]

theorem Reads.orElse (h : p.Reads s x t) : (p.orElse q).Reads s x t := by
  intro before
  simp only [Step.orElse, h before]

theorem Rejects.orElse (h : p.Rejects s c t) (hc : c.isHard = true) :
    (p.orElse q).Rejects s c t := by
  intro before
  simp [Step.orElse, h before, Outcome.reject, Rejection.isHard, hc]

/-- After a rejection that may be recovered from, the second step answers. -/
theorem Rejects.orElse_eq (h : p.Rejects s c t) (hc : c.isHard = false) (before : List Char) :
    p.orElse q (.between before (s ++ t)) = q (.between before (s ++ t)) := by
  simp [Step.orElse, h before, Outcome.reject, Rejection.isHard, hc]

/-- Keeps an output that is accepted, and rejects any other with `c` at the given view. -/
def screen (p : Step α) (accept : α → Bool) (c : Code) : Step α := fun v =>
  match p v with
  | .ok (.success remaining output) =>
    if accept output then .ok (.success remaining output) else .ok (.reject v c)
  | answer => answer

theorem filter_eq_screen (p : Step α) (accept : α → Bool) :
    p.filter accept = p.screen accept .predicate := rfl

theorem require_eq_screen (p : Step α) (accept : α → Bool) (expected : String) :
    p.require accept expected = p.screen accept (.failure (.invalidInput expected)) := rfl

theorem Reads.filter {accept : α → Bool} (h : p.Reads s x t) (hx : accept x = true) :
    (p.filter accept).Reads s x t := by
  intro before
  simp only [Step.filter, h before, hx, if_true]

theorem Reads.filter_rejects {accept : α → Bool} (h : p.Reads s x t) (hx : accept x = false) :
    (p.filter accept).Rejects [] .predicate (s ++ t) := by
  intro before
  simp [Step.filter, h before, hx]

theorem Rejects.filter {accept : α → Bool} (h : p.Rejects s c t) :
    (p.filter accept).Rejects s c t := by
  intro before
  simp only [Step.filter, h before, Outcome.reject]

theorem Reads.require {accept : α → Bool} (expected : String) (h : p.Reads s x t)
    (hx : accept x = true) : (p.require accept expected).Reads s x t := by
  intro before
  simp only [Step.require, h before, hx, if_true]

theorem Reads.require_rejects {accept : α → Bool} (expected : String) (h : p.Reads s x t)
    (hx : accept x = false) :
    (p.require accept expected).Rejects [] (.failure (.invalidInput expected)) (s ++ t) := by
  intro before
  simp [Step.require, h before, hx, Outcome.fail]

theorem Rejects.require (accept : α → Bool) (expected : String) (h : p.Rejects s c t) :
    (p.require accept expected).Rejects s c t := by
  intro before
  simp only [Step.require, h before, Outcome.reject]

theorem Reads.pair {q : Step β} (h : p.Reads s x (s' ++ t)) (hq : q.Reads s' y t) :
    (p.pair q).Reads (s ++ s') (x, y) t := by
  intro before
  simp only [Step.pair, List.append_assoc, h before, hq (before ++ s)]

/-- A rejection of the second part is moved back to where the first began. -/
theorem Reads.pair_rejects {q : Step β} (h : p.Reads s x (s' ++ t)) (hq : q.Rejects s' c t) :
    (p.pair q).Rejects [] c (s ++ (s' ++ t)) := by
  intro before
  simp only [Step.pair, List.nil_append, h before, hq (before ++ s), Outcome.reject,
    List.append_nil]

theorem Rejects.pair {q : Step β} (h : p.Rejects s c t) : (p.pair q).Rejects s c t := by
  intro before
  simp only [Step.pair, h before, Outcome.reject]

/-! ### Repetition -/

/-- What was found before a turn only stands in front of what is found from it on. -/
theorem manyFrom_eq_map_many (p : Step α) (v : View) (found : List α) :
    manyFrom p v found = (p.many v).map (Outcome.map (found.reverse ++ ·)) := by
  unfold many
  generalize hn : v.size.toNat = n
  -- The induction is on what is left to read, for any outputs found so far.
  induction n using Nat.strongRecOn generalizing v found with
  | _ n ih =>
    subst hn
    rw [manyFrom, manyFrom.eq_1 p v []]
    cases hp : p v with
    | error fault => rfl
    | ok outcome =>
      cases outcome with
      | rejected e =>
        by_cases he : e.isHard <;> simp [he, Except.map, Outcome.map]
      | success remaining output =>
        simp only
        split
        · rfl
        · split
          · -- Both runs go on from the same view, with one output more.
            rename_i hsizes hless
            have hlt : remaining.size.toNat < v.size.toNat := by omega
            rw [ih _ hlt _ _ rfl, ih _ hlt _ [output] rfl]
            cases manyFrom p remaining [] with
            | error fault => rfl
            | ok outcome => cases outcome <;> simp [Except.map, Outcome.map]
          · rfl

/-- One turn of a repetition: after a success that leaves less than it was given
come the other turns, and anything else ends it. -/
theorem many_eq (p : Step α) (v : View) :
    p.many v =
      match p v with
      | .ok (.success remaining output) =>
        if remaining.size < 0 ∨ v.size < 0 then .error .negativeLength
        else if remaining.size < v.size then
          (p.many remaining).map (Outcome.map (output :: ·))
        else .ok (.fail v .systemFailure)
      | .ok (.rejected e) => if e.isHard then .ok (.rejected e) else .ok (.success v [])
      | .error fault => .error fault := by
  rw [many, manyFrom]
  cases p v with
  | error fault => rfl
  | ok outcome =>
    cases outcome with
    | rejected e => rfl
    | success remaining output =>
      simp only [manyFrom_eq_map_many p remaining [output], List.reverse_singleton,
        List.singleton_append, dite_eq_ite]

/-- A rejection that may be recovered from ends a repetition before its turn. -/
theorem Rejects.many_nil (h : p.Rejects s c t) (hc : c.isHard = false) :
    p.many.Reads [] [] (s ++ t) := by
  intro before
  rw [List.nil_append, List.append_nil, many_eq, h before]
  simp [Outcome.reject, Rejection.isHard, hc]

theorem Rejects.many (h : p.Rejects s c t) (hc : c.isHard = true) : p.many.Rejects s c t := by
  intro before
  rw [many_eq, h before]
  simp [Outcome.reject, Rejection.isHard, hc]

private theorem Reads.many_eq_map (h : p.Reads s x l) (hs : s ≠ []) (before : List Char) :
    p.many (.between before (s ++ l)) =
      (p.many (.between (before ++ s) l)).map (Outcome.map (x :: ·)) := by
  have hpos := List.length_pos_of_ne_nil hs
  -- What is left has a length, and it is less than before the turn.
  have hsizes : ¬ ((l.length : Int) < 0 ∨ ((s ++ l).length : Int) < 0) := by omega
  have hless : (l.length : Int) < (s ++ l).length := by
    rw [List.length_append]
    omega
  rw [many_eq, h before]
  simp only [View.size_between, hsizes, hless, if_true, if_false]

theorem Reads.many_cons {xs : List α} (h : p.Reads s x (s' ++ t)) (hs : s ≠ [])
    (hmany : p.many.Reads s' xs t) : p.many.Reads (s ++ s') (x :: xs) t := by
  intro before
  rw [List.append_assoc, h.many_eq_map hs, hmany, ← List.append_assoc]
  rfl

theorem Reads.many_rejects (h : p.Reads s x (s' ++ t)) (hs : s ≠ [])
    (hmany : p.many.Rejects s' c t) : p.many.Rejects (s ++ s') c t := by
  intro before
  rw [List.append_assoc, h.many_eq_map hs, hmany, ← List.append_assoc]
  rfl

/-- A turn that reads nothing is a failure of the system. -/
theorem Reads.many_stuck (h : p.Reads [] x t) :
    p.many.Rejects [] (.failure .systemFailure) t := by
  intro before
  have hturn := h before
  simp only [List.nil_append, List.append_nil] at hturn ⊢
  rw [many_eq, hturn]
  simp [Outcome.fail]

end Step

/-! ### Characters -/

namespace Parser

variable {c d : Char} {t : List Char}

@[simp] theorem run_leaf {α : Type} (name : String) (p : Step α) : (leaf name p).run = p := rfl

theorem reads_char (c : Char) (t : List Char) : (char c).run.Reads [c] c t := by
  intro before
  simp [char]

theorem char_rejects_cons (h : d ≠ c) :
    (char c).run.Rejects [] (.char c.toString) (d :: t) := by
  intro before
  simp [char, h]

theorem char_rejects_nil (c : Char) : (char c).run.Rejects [] .endOfInput [] := by
  intro before
  simp [char]

theorem reads_anyChar (c : Char) (t : List Char) : anyChar.run.Reads [c] c t := by
  intro before
  simp [anyChar]

theorem anyChar_rejects_nil : anyChar.run.Rejects [] .endOfInput [] := by
  intro before
  simp [anyChar]

/-- A line break is read as the characters it is made of. -/
theorem reads_lineBreak (b : LineBreak) (t : List Char) :
    lineBreak.run.Reads b.chars (String.ofList b.chars) t := by
  intro before
  cases b with
  | lf => simp [lineBreak, View.startsWith_between, LineBreak.chars]
  | crlf =>
    -- No line feed stands first, so the second test decides.
    have hadvance := View.advance_between before ['\r', '\n'] t
    simpa [lineBreak, View.startsWith_between, LineBreak.chars] using hadvance

theorem lineBreak_rejects (h : ∀ b : LineBreak, ¬ b.chars <+: t) :
    lineBreak.run.Rejects [] .lineBreak t := by
  intro before
  have hno (b : LineBreak) : b.chars.isPrefixOf t = false := by
    rw [Bool.eq_false_iff, ne_eq, List.isPrefixOf_iff_prefix]
    exact h b
  have hlf : ['\n'].isPrefixOf t = false := hno .lf
  have hcrlf : ['\r', '\n'].isPrefixOf t = false := hno .crlf
  simp [lineBreak, View.startsWith_between, hlf, hcrlf]

end Parser

end Delimited
