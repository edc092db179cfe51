import Delimited.Proofs.Reading

/-!
# Reading with wide line breaks

Widening a text puts a carriage return before each of its line feeds. Two steps
are compared, one at a text without carriage returns and one at the widened
text: the second follows the first when it reads what the first reads, widened,
or is rejected with the same code where the first is. The combinators keep this,
whatever their parts are.

## Main definitions

* `widen`: a text with a carriage return before each line feed.
* `Step.Alike f p q l`: the answers of `p` at `l` and of `q` at the widened text
  correspond, `f` being applied to the output.
* `Step.Follows f p q`: they do at all texts without carriage returns.

## Main results

* `Step.Follows.map`, `Step.Follows.bind`, `Step.Follows.orElse`,
  `Step.Follows.require`, `Step.Follows.pair`, `Step.Follows.many`: the
  combinators keep it.
-/

namespace Delimited

/-- The text with a carriage return before each of its line feeds. -/
def widen (cs : List Char) : List Char :=
  cs.flatMap fun c => if c = '\n' then ['\r', '\n'] else [c]

section Widen

variable {s t l : List Char} {c : Char}

@[simp] theorem widen_nil : widen [] = [] := rfl

@[simp] theorem widen_append (s t : List Char) : widen (s ++ t) = widen s ++ widen t :=
  List.flatMap_append

@[simp] theorem widen_lf (t : List Char) : widen ('\n' :: t) = '\r' :: '\n' :: widen t := rfl

theorem widen_cons (h : c ≠ '\n') (t : List Char) : widen (c :: t) = c :: widen t := by
  simp [widen, h]

@[simp] theorem widen_eq_nil_iff : widen l = [] ↔ l = [] := by
  cases l with
  | nil => simp
  | cons c l => by_cases hc : c = '\n' <;> simp [hc, widen_cons]

theorem head?_widen (l : List Char) :
    (widen l).head? = l.head?.map fun c => if c = '\n' then '\r' else c := by
  cases l with
  | nil => rfl
  | cons c l => by_cases hc : c = '\n' <;> simp [hc, widen_cons]

/-- Widening leaves a text without line feeds as it is. -/
theorem widen_eq_self (h : '\n' ∉ s) : widen s = s := by
  induction s with
  | nil => rfl
  | cons c s ih =>
    have hc : c ≠ '\n' := fun hc => h (by simp [hc])
    rw [widen_cons hc, ih fun hs => h (List.mem_cons_of_mem c hs)]

theorem count_lf_widen (s : List Char) : (widen s).count '\n' = s.count '\n' := by
  induction s with
  | nil => rfl
  | cons c s ih =>
    by_cases hc : c = '\n'
    · subst hc
      simp [ih]
    · simp [widen_cons hc, hc, ih]

end Widen

namespace Step

variable {α β γ δ : Type} {f : α → β} {g : γ → δ} {p p' : Step α} {q q' : Step β}

/-- What `p` does at `l`, `q` does at the widened text, with `f` of the output. -/
inductive Alike (f : α → β) (p : Step α) (q : Step β) : List Char → Prop where
  /-- Both read. -/
  | reads {s t : List Char} {x : α} (left : p.Reads s x t)
      (right : q.Reads (widen s) (f x) (widen t)) : Alike f p q (s ++ t)
  /-- Both are rejected, with one code. -/
  | rejects {s t : List Char} {c : Code} (left : p.Rejects s c t)
      (right : q.Rejects (widen s) c (widen t)) : Alike f p q (s ++ t)

theorem Alike.reads_append {s s' t : List Char} {x : α} (left : p.Reads (s ++ s') x t)
    (right : q.Reads (widen s ++ widen s') (f x) (widen t)) : Alike f p q (s ++ (s' ++ t)) := by
  rw [← widen_append] at right
  rw [← List.append_assoc]
  exact .reads left right

theorem Alike.rejects_append {s s' t : List Char} {c : Code} (left : p.Rejects (s ++ s') c t)
    (right : q.Rejects (widen s ++ widen s') c (widen t)) : Alike f p q (s ++ (s' ++ t)) := by
  rw [← widen_append] at right
  rw [← List.append_assoc]
  exact .rejects left right

/-- At every text without carriage returns `q` does what `p` does. -/
def Follows (f : α → β) (p : Step α) (q : Step β) : Prop := ∀ l, '\r' ∉ l → Alike f p q l

theorem Follows.map {k : α → γ} {k' : β → δ} (h : Follows f p q) (hk : ∀ x, k' (f x) = g (k x)) :
    Follows g (p.map k) (q.map k') := by
  intro l hl
  cases h l hl with
  | @reads s t x left right =>
    have hright := right.map k'
    rw [hk x] at hright
    exact .reads (left.map k) hright
  | rejects left right => exact .rejects (left.map k) (right.map k')

theorem Follows.bind {next : α → Step γ} {next' : β → Step δ} (h : Follows f p q)
    (hnext : ∀ x, Follows g (next x) (next' (f x))) :
    Follows g (p.bind next) (q.bind next') := by
  intro l hl
  cases h l hl with
  | rejects left right => exact .rejects left.bind right.bind
  | @reads s l x left right =>
    have hrest : '\r' ∉ l := fun hmem => hl (List.mem_append_right s hmem)
    cases hnext x l hrest with
    | reads left' right' =>
      rw [widen_append] at right
      exact .reads_append (left.bind left') (right.bind right')
    | rejects left' right' =>
      rw [widen_append] at right
      exact .rejects_append (left.bind_rejects left') (right.bind_rejects right')

theorem Follows.orElse (h : Follows f p q) (h' : Follows f p' q') :
    Follows f (p.orElse p') (q.orElse q') := by
  intro l hl
  -- The text is kept under a name of its own, as each alternative splits it anew.
  generalize hwhole : l = l'
  cases h l hl with
  | reads left right => exact hwhole ▸ .reads left.orElse right.orElse
  | @rejects s t c left right =>
    by_cases hc : c.isHard = true
    · exact hwhole ▸ .rejects (left.orElse hc) (right.orElse hc)
    · -- The second alternatives are asked at the same texts.
      rw [Bool.not_eq_true] at hc
      have hleft (before : List Char) := left.orElse_eq (q := p') hc before
      have hright (before : List Char) := right.orElse_eq (q := q') hc before
      rw [← widen_append] at hright
      rw [hwhole] at hleft hright hl
      cases h' l' hl with
      | reads left' right' =>
        rw [widen_append] at hright
        exact .reads (fun before => (hleft before).trans (left' before))
          (fun before => (hright before).trans (right' before))
      | rejects left' right' =>
        rw [widen_append] at hright
        exact .rejects (fun before => (hleft before).trans (left' before))
          (fun before => (hright before).trans (right' before))

theorem Follows.require {accept : α → Bool} {accept' : β → Bool} (expected : String)
    (h : Follows f p q) (haccept : ∀ x, accept' (f x) = accept x) :
    Follows f (p.require accept expected) (q.require accept' expected) := by
  intro l hl
  cases h l hl with
  | rejects left right =>
    exact .rejects (left.require accept expected) (right.require accept' expected)
  | @reads s t x left right =>
    cases hx : accept x with
    | true =>
      have hx' : accept' (f x) = true := by rw [haccept, hx]
      exact .reads (left.require expected hx) (right.require expected hx')
    | false =>
      have hx' : accept' (f x) = false := by rw [haccept, hx]
      -- A refused output moves both rejections back to where the parts began.
      have hright := right.require_rejects expected hx'
      rw [← widen_append] at hright
      exact .rejects (s := []) (left.require_rejects expected hx) hright

theorem Follows.pair {p' : Step γ} {q' : Step δ} (h : Follows f p q) (h' : Follows g p' q') :
    Follows (Prod.map f g) (p.pair p') (q.pair q') := by
  intro l hl
  cases h l hl with
  | rejects left right => exact .rejects left.pair right.pair
  | @reads s l x left right =>
    have hrest : '\r' ∉ l := fun hmem => hl (List.mem_append_right s hmem)
    cases h' l hrest with
    | reads left' right' =>
      rw [widen_append] at right
      exact .reads_append (left.pair left') (right.pair right')
    | rejects left' right' =>
      rw [widen_append] at right
      have hright := right.pair_rejects right'
      rw [← widen_append, ← widen_append] at hright
      exact .rejects (s := []) (left.pair_rejects left') hright

/-- Both repetitions take the same turns, so they end alike: at a rejection, or
at a turn that reads nothing. -/
theorem Follows.many (h : Follows f p q) : Follows (List.map f) p.many q.many := by
  intro l hl
  generalize hn : l.length = n
  -- The induction is on the shorter of the two texts, which is the one not widened.
  induction n using Nat.strongRecOn generalizing l with
  | _ n ih =>
    cases h l hl with
    | @rejects s t c left right =>
      by_cases hc : c.isHard = true
      · exact .rejects (left.many hc) (right.many hc)
      · rw [Bool.not_eq_true] at hc
        have hright := right.many_nil hc
        rw [← widen_append] at hright
        exact .reads (s := []) (left.many_nil hc) hright
    | @reads s l x left right =>
      by_cases hs : s = []
      · -- A turn reads nothing in one text exactly when it does in the other.
        subst hs
        exact .rejects (s := []) left.many_stuck right.many_stuck
      · have hs' : widen s ≠ [] := by simpa using hs
        have hrest : '\r' ∉ l := fun hmem => hl (List.mem_append_right s hmem)
        have hshorter : l.length < n := by
          have hpos := List.length_pos_of_ne_nil hs
          rw [List.length_append] at hn
          omega
        cases ih _ hshorter l hrest rfl with
        | reads left' right' =>
          rw [widen_append] at right
          exact .reads_append (left.many_cons hs left') (right.many_cons hs' right')
        | rejects left' right' =>
          rw [widen_append] at right
          exact .rejects_append (left.many_rejects hs left') (right.many_rejects hs' right')

end Step

end Delimited
