import Delimited.Proofs.Grammar.Field

/-!
# Fields in any text

Whether a field is read as a quoted one is decided by the text ahead alone. It is
when the text begins with a quote and that quote is closed, which can be so in one
way only. In any other text, and also in one that begins with a quote which nothing
closes, the field is what stands before the first special character.

## Main definitions

* `Grammar.Collapses e cs`: between quotes, `e` stands for `cs`.
* `Grammar.Closed l e cs t`: a closed quoted field stands at the start of `l`.
* `Grammar.LongestPlain s l`: the longest part in front of `l` without special characters.

## Main results

* `Grammar.Closed.unique`: a quoted field is closed in one way.
* `Grammar.field_reads`: what a field reads, in every text.
-/

namespace Delimited

/-- What is read ahead of a view is read there. -/
theorem Step.Reads.run_eq {α : Type} {p : Step α} {s t : List Char} {x : α} {v : View}
    (h : p.Reads s x t) (hv : v.Within) (hrest : v.rest = s ++ t) :
    p v = .ok (.success (v.advance s.length) x) ∧ (v.advance s.length).rest = t := by
  have hread := h v.before
  rw [← View.advance_between, ← hrest, View.between_before_rest hv] at hread
  refine ⟨hread, ?_⟩
  rw [← View.between_before_rest hv, hrest, View.advance_between, View.rest_between]

namespace Grammar

variable {e e' cs cs' l s s' t t' : List Char}

/-! ### Between quotes -/

/-- Between quotes `e` stands for `cs`: it is made of characters other than quotes,
which stand for themselves, and of doubled quotes, which stand for one. -/
inductive Collapses : List Char → List Char → Prop where
  /-- Nothing. -/
  | nil : Collapses [] []
  /-- A character other than a quote. -/
  | other {c : Char} {e cs : List Char} (h : c ≠ '"') (others : Collapses e cs) :
      Collapses (c :: e) (c :: cs)
  /-- A doubled quote. -/
  | doubled {e cs : List Char} (others : Collapses e cs) :
      Collapses ('"' :: '"' :: e) ('"' :: cs)

theorem collapses_doubled (cs : List Char) : Collapses (Writer.doubled cs) cs := by
  induction cs with
  | nil => exact .nil
  | cons c cs ih =>
    by_cases hc : c = '"'
    · subst hc
      exact .doubled ih
    · rw [doubled_cons hc]
      exact .other hc ih

theorem Collapses.eq_doubled (h : Collapses e cs) : e = Writer.doubled cs := by
  induction h with
  | nil => rfl
  | other hc _ ih => rw [doubled_cons hc, ih]
  | doubled _ ih => rw [doubled_quote, ih]

/-- At the start of `l` stands a quoted field that is closed: a quote, then `e`, which
stands for `cs`, and a quote that no other follows. What is left is `t`. -/
structure Closed (l e cs t : List Char) : Prop where
  eq : l = '"' :: e ++ '"' :: t
  collapses : Collapses e cs
  next : '"' ∉ t.head?

theorem Closed.reads (h : Closed l e cs t) :
    field.run.Reads ('"' :: e ++ ['"']) (String.ofList cs) t := by
  have hread := reads_field_quoted (String.ofList cs) h.next
  rwa [String.toList_ofList, ← h.collapses.eq_doubled] at hread

/-- A quoted field is closed in one way only, since it is read in one way. -/
theorem Closed.unique (h : Closed l e cs t) (h' : Closed l e' cs' t') :
    e' = e ∧ cs' = cs ∧ t' = t := by
  have hsame : ('"' :: e' ++ ['"']) ++ t' = ('"' :: e ++ ['"']) ++ t := by
    have heq := h'.eq.symm.trans h.eq
    simpa using heq
  obtain ⟨-, hcs, ht⟩ := h'.reads.unique h.reads hsame
  obtain rfl := String.ofList_injective hcs
  exact ⟨h'.collapses.eq_doubled.trans h.collapses.eq_doubled.symm, rfl, ht⟩

/-! ### Outside quotes -/

/-- The longest part in front of `l` without commas, quotes and line ends. -/
structure LongestPlain (s l : List Char) : Prop where
  start : s <+: l
  plain : ∀ c ∈ s, c ∉ [',', '"', '\r', '\n']
  longest : ∀ s', s' <+: l → (∀ c ∈ s', c ∉ [',', '"', '\r', '\n']) → s'.length ≤ s.length

/-- A part without special characters is the longest, if one follows or nothing does. -/
theorem longestPlain_append (hs : ∀ c ∈ s, isSpecial c = false)
    (ht : ∀ c ∈ t.head?, isSpecial c = true) : LongestPlain s (s ++ t) := by
  refine ⟨List.prefix_append s t, fun c hc => isSpecial_eq_false_iff.mp (hs c hc), ?_⟩
  intro s' hstart hplain
  rcases List.prefix_or_prefix_of_prefix hstart (List.prefix_append s t) with hshort | ⟨r, rfl⟩
  · exact hshort.length_le
  · -- A longer part would hold the first character of what follows.
    rw [List.prefix_append_right_inj] at hstart
    cases r with
    | nil => simp
    | cons c r =>
      obtain ⟨r', rfl⟩ := hstart
      exact absurd (isSpecial_eq_true_iff.mp (ht c rfl)) (hplain c (by simp))

/-- Where no closed quoted field stands, a field is read up to the first special
character. -/
theorem exists_longestPlain_reads (h : ∀ e cs t, ¬ Closed l e cs t) :
    ∃ s t, l = s ++ t ∧ LongestPlain s l ∧ field.run.Reads s (String.ofList s) t := by
  cases fieldShape l with
  | closed cs next => exact absurd ⟨rfl, collapses_doubled cs, next⟩ (h _ _ _)
  | unclosed cs =>
    -- The quote that is not closed is special itself, so nothing stands before it.
    have hlongest := longestPlain_append (s := []) (t := '"' :: Writer.doubled cs) (by simp)
      (by simp [isSpecial])
    exact ⟨[], _, rfl, hlongest, reads_field_open cs⟩
  | @bare s t start plain next =>
    exact ⟨s, t, rfl, longestPlain_append plain next, reads_field_bare start plain next⟩

/-- A field is never rejected. Ahead of a quoted field that is closed, which can be so
in one way only, it reads up to the closing quote and gives what stands between the
quotes, each doubled quote as one. Ahead of anything else it reads and gives the
longest part without special characters. -/
theorem field_reads (v : View) (hv : v.Within) :
    (∀ e cs t, Closed v.rest e cs t →
      (∀ e' cs' t', Closed v.rest e' cs' t' → e' = e ∧ cs' = cs ∧ t' = t) ∧
        field.run v = .ok (.success (v.advance (e.length + 2)) (String.ofList cs)) ∧
        (v.advance (e.length + 2)).rest = t) ∧
      ((∀ e cs t, ¬ Closed v.rest e cs t) →
        ∃ s, LongestPlain s v.rest ∧
          field.run v = .ok (.success (v.advance s.length) (String.ofList s)) ∧
          v.rest = s ++ (v.advance s.length).rest) := by
  constructor
  · intro e cs t hclosed
    refine ⟨fun e' cs' t' => hclosed.unique, ?_⟩
    have hrun := hclosed.reads.run_eq hv (by simpa using hclosed.eq)
    simpa [Int.add_assoc] using hrun
  · intro hopen
    obtain ⟨s, t, hrest, hlongest, hread⟩ := exists_longestPlain_reads hopen
    obtain ⟨hrun, hleft⟩ := hread.run_eq hv hrest
    exact ⟨s, hlongest, hrun, hleft.symm ▸ hrest⟩

/-- The case of a quoted field with a doubled quote, in the middle of a text, and of
quotes that do not stand first. -/
theorem field_reads_doubled :
    ((View.ofString "x,\"a\"\"b\",c" 2).Within ∧
      Closed (View.ofString "x,\"a\"\"b\",c" 2).rest ['a', '"', '"', 'b'] ['a', '"', 'b']
        [',', 'c'] ∧
      field.run (.ofString "x,\"a\"\"b\",c" 2) =
        .ok (.success ((View.ofString "x,\"a\"\"b\",c" 2).advance 6) "a\"b")) ∧
      (View.ofString "a\"\"").Within ∧
      (∀ e cs t, ¬ Closed (View.ofString "a\"\"").rest e cs t) ∧
      ∃ s, LongestPlain s (View.ofString "a\"\"").rest ∧
        field.run (.ofString "a\"\"") =
          .ok (.success ((View.ofString "a\"\"").advance s.length) (String.ofList s)) := by
  have hclosed : Closed (View.ofString "x,\"a\"\"b\",c" 2).rest ['a', '"', '"', 'b']
      ['a', '"', 'b'] [',', 'c'] := ⟨by decide, collapses_doubled ['a', '"', 'b'], by decide⟩
  have hopen : ∀ e cs t, ¬ Closed (View.ofString "a\"\"").rest e cs t := by
    intro e cs t h
    have hhead := congrArg List.head? h.eq
    simp [View.ofString_zero] at hhead
  have hfirst := (field_reads (.ofString "x,\"a\"\"b\",c" 2) (by decide)).1 _ _ _ hclosed
  obtain ⟨s, hlongest, hrun, -⟩ := (field_reads (.ofString "a\"\"") (by decide)).2 hopen
  exact ⟨⟨by decide, hclosed, hfirst.2.1⟩, by decide, hopen, s, hlongest, hrun⟩

end Grammar

end Delimited
