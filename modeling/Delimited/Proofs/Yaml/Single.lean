import Delimited.Yaml.Printer
import Mathlib.Data.List.Basic

/-!
# Texts between single quotes

A text that is written between single quotes is read back. Line ends inside it are
written so that folding leaves them: a line feed that comes first among line ends
is written twice, the others once. A space where the line is folded comes back as
the line end that stands for a space. A next line is read as a line feed, and so
does not come back.

## Main definitions

* `ReadsAs`: a quoted scalar with a given text was read.
* `SingleReady`: what the reader keeps for what the writer has written last.

## Main results

* `exists_singleFrom_printSingle_cons`: one character is written and read.
* `singleFrom_printSingle`: a text between single quotes is read back.
* `exists_singleQuoted_printSingle_ne`: unless it holds a next line.
-/

namespace Delimited.Yaml

variable {c : Char} {cs rest found : List Char} {multiline : Bool} {pending : Pending}
  {before : Before} {column position : Nat}

/-! ### Neighbours -/

theorem hasNeighbours_cons (p q : Char → Bool) (c : Char) (cs : List Char) :
    hasNeighbours p q (c :: cs) = ((p c && cs.head?.any q) || hasNeighbours p q cs) := by
  cases cs <;> simp [hasNeighbours]

theorem hasNeighbours_eq_false {p q : Char → Bool} (h : ∀ c ∈ cs, p c = false) :
    hasNeighbours p q cs = false := by
  induction cs with
  | nil => rfl
  | cons c cs ih =>
    rw [List.forall_mem_cons] at h
    rw [hasNeighbours_cons, h.1, ih h.2]
    rfl

theorem isBreak_space : isBreak ' ' = false := rfl

/-- Spaces and line ends stay apart in what follows the first character. -/
theorem of_hasSpaceAtBreak_cons (h : hasSpaceAtBreak (c :: cs) = false) :
    hasSpaceAtBreak cs = false ∧ (c = ' ' → ∀ d ∈ cs.head?, isBreak d = false) ∧
      (isBreak c = true → cs.head? ≠ some ' ') := by
  simp only [hasSpaceAtBreak, hasNeighbours_cons, Bool.or_eq_false_iff, Bool.and_eq_false_iff,
    beq_eq_false_iff_ne, Option.any_eq_false] at h ⊢
  obtain ⟨⟨hspace, hothers⟩, hbreak, hothers'⟩ := h
  refine ⟨⟨hothers, hothers'⟩, fun hc d hd => ?_, fun hc hd => ?_⟩
  · exact (hspace.resolve_left (not_not_intro hc)) d hd
  · rcases hbreak with hbreak | hbreak
    · simp [hc] at hbreak
    · simpa using hbreak ' ' hd

/-! ### Line ends and margins -/

@[simp] theorem isMarker_margin_append (cs : List Char) : isMarker (margin ++ cs) = false := rfl

theorem isMarker_cons_of_ne (hdash : c ≠ '-') (hdot : c ≠ '.') : isMarker (c :: cs) = false := by
  unfold isMarker marks
  split <;> simp_all

theorem isMarker_cons_of_isBreak (h : isBreak c = true) : isMarker (c :: cs) = false := by
  refine isMarker_cons_of_ne ?_ ?_
  · rintro rfl
    cases h
  · rintro rfl
    cases h

/-- Line ends of which one is folded already, so that one more is kept. -/
def Kept : List Char → Prop
  | [] => False
  | first :: more => first ≠ '\n' ∨ more ≠ []

theorem Kept.append {ends : List Char} (h : Kept ends) (c : Char) : Kept (ends ++ [c]) := by
  cases ends with
  | nil => exact h.elim
  | cons first more => exact .inr (by simp)

theorem Kept.folded_append {ends : List Char} (h : Kept ends) (c : Char) :
    folded (ends ++ [c]) = folded ends ++ [c] := by
  cases ends with
  | nil => exact h.elim
  | cons first more =>
    by_cases hfirst : first = '\n'
    · have hmore : more ≠ [] := h.resolve_left (not_not_intro hfirst)
      simp [folded, hfirst, hmore]
    · simp [folded, hfirst]

@[simp] theorem Pending.textRev_none : Pending.none.textRev = [] := rfl

/-! ### Steps of the reader -/

/-- A quoted scalar was read: its text, and what is left. -/
def ReadsAs (result : Option (Scalar × Cursor)) (text rest : List Char) : Prop :=
  ∃ multiline column, result = some (⟨text, multiline⟩, ⟨rest, column⟩)

theorem ReadsAs.cast {result : Option (Scalar × Cursor)} {text text' : List Char}
    (h : ReadsAs result text rest) (heq : text = text') : ReadsAs result text' rest := heq ▸ h

theorem singleFrom_break (h : isBreak c = true) (hmarker : isMarker cs = false) :
    singleFrom found multiline pending position (c :: cs) =
      singleFrom found true (pending.break c) 0 cs := by
  rw [singleFrom.eq_def]
  simp [h, hmarker]

theorem singleFrom_space :
    singleFrom found multiline pending position (' ' :: cs) =
      singleFrom found multiline (pending.blank ' ') (position + 1) cs := by
  rw [singleFrom.eq_def]
  simp [isBreak_space]

/-- One line end, or two of which the first is folded. -/
theorem singleFrom_breaks (h : isBreak c = true) (hmarker : isMarker cs = false) (p : Prop)
    [Decidable p] :
    singleFrom found multiline pending position ((if p then ['\n'] else []) ++ c :: cs) =
      singleFrom found true ((if p then pending.break '\n' else pending).break c) 0 cs := by
  split
  · rw [List.cons_append, List.nil_append, singleFrom_break rfl (isMarker_cons_of_isBreak h),
      singleFrom_break h hmarker]
  · rw [List.nil_append, singleFrom_break h hmarker]

@[simp] theorem Pending.blank_break (pending : Pending) (c d : Char) :
    (pending.break c).blank d = pending.break c := by
  cases pending <;> rfl

theorem singleFrom_margin (pending : Pending) (c : Char) :
    singleFrom found multiline (pending.break c) position (margin ++ cs) =
      singleFrom found multiline (pending.break c) (position + continuation) cs := by
  simp [margin, continuation, List.replicate, singleFrom_space]

theorem singleFrom_other (hbreak : isBreak c = false) (hspace : c ≠ ' ') (htab : c ≠ '\t')
    (hquote : c ≠ '\'') :
    singleFrom found multiline pending position (c :: cs) =
      singleFrom (c :: pending.textRev ++ found) multiline .none (position + 1) cs := by
  rw [singleFrom.eq_def]
  simp [hbreak, hspace, htab, hquote]

theorem singleFrom_quote_quote :
    singleFrom found multiline pending position ('\'' :: '\'' :: cs) =
      singleFrom ('\'' :: pending.textRev ++ found) multiline .none (position + 2) cs := by
  rw [singleFrom.eq_def]
  simp [isBreak]

theorem singleFrom_quote (h : rest.head? ≠ some '\'') :
    singleFrom found multiline pending position ('\'' :: rest) =
      some (⟨(pending.textRev ++ found).reverse, multiline⟩, ⟨rest, position + 1⟩) := by
  rw [singleFrom.eq_def]
  cases rest with
  | nil => simp [isBreak]
  | cons c rest =>
    have hc : c ≠ '\'' := by simpa using h
    simp [isBreak, hc]

/-! ### Writing and reading -/

/-- What the reader keeps for what the writer has before a text. Line ends were read
so that one more of them is kept, and the space of a fold stands alone. -/
inductive SingleReady : Before → Pending → List Char → Prop where
  /-- Nothing was written. -/
  | start (cs : List Char) : SingleReady .start .none cs
  /-- Text was written. -/
  | other (cs : List Char) : SingleReady .other .none cs
  /-- Spaces were written. -/
  | spaces (found : List Char) {cs : List Char} (hbreak : ∀ d ∈ cs.head?, isBreak d = false) :
    SingleReady .space (.blanks found) cs
  /-- A space was written as a line end. -/
  | fold {cs : List Char} (hbreak : ∀ d ∈ cs.head?, isBreak d = false)
    (hspace : cs.head? ≠ some ' ') : SingleReady .space (.breaks ['\n']) cs
  /-- Line ends were written. -/
  | breaks {ends cs : List Char} (hkept : Kept ends.reverse) (hspace : cs.head? ≠ some ' ') :
    SingleReady .break (.breaks ends) cs

/-- A line end is kept: the one that folding takes is written before it. -/
theorem SingleReady.read_break (hready : SingleReady before pending (c :: cs))
    (hc : isBreak c = true) (hnext : c ≠ '\u0085') (hspace : cs.head? ≠ some ' ') :
    ∃ ends, (if before ≠ .break ∧ c = '\n' then pending.break '\n' else pending).break c =
        .breaks ends ∧
      SingleReady .break (.breaks ends) cs ∧
      (Pending.breaks ends).textRev = c :: pending.textRev := by
  have hnormal : normalBreak c = c := if_neg hnext
  -- A first line end, with text or nothing before it.
  have hfirst : ∃ ends, (if c = '\n' then Pending.none.break '\n' else .none).break c =
        .breaks ends ∧
      SingleReady .break (.breaks ends) cs ∧ (Pending.breaks ends).textRev = [c] := by
    by_cases hfeed : c = '\n'
    · subst hfeed
      exact ⟨['\n', '\n'], rfl, .breaks (.inr (by simp)) hspace, rfl⟩
    · refine ⟨[c], ?_, .breaks (.inl hfeed) hspace, by simp [Pending.textRev, folded, hfeed]⟩
      simp [if_neg hfeed, Pending.break, hnormal]
  cases hready with
  | start | other => simpa using hfirst
  | spaces _ hbreak => simp [hbreak c rfl] at hc
  | fold hbreak => simp [hbreak c rfl] at hc
  | @breaks ends _ hkept =>
    refine ⟨c :: ends, ?_, .breaks (by simpa using hkept.append c) hspace, ?_⟩
    · simp [Pending.break, hnormal]
    · simp [Pending.textRev, hkept.folded_append c]

theorem SingleReady.read_space (hready : SingleReady before pending (' ' :: cs))
    (hbreak : ∀ d ∈ cs.head?, isBreak d = false) :
    SingleReady .space (pending.blank ' ') cs ∧
      (pending.blank ' ').textRev = ' ' :: pending.textRev := by
  cases hready with
  | start | other => exact ⟨.spaces _ hbreak, rfl⟩
  | spaces found => exact ⟨.spaces _ hbreak, rfl⟩
  | fold _ hspace => exact absurd rfl hspace
  | breaks _ hspace => exact absurd rfl hspace

/-- A single space comes after text, so that nothing is pending where it is folded. -/
theorem SingleReady.pending_eq_none (hready : SingleReady before pending (' ' :: cs))
    (hspace : before ≠ .space) : pending = .none := by
  cases hready with
  | start | other => rfl
  | spaces | fold => exact absurd rfl hspace
  | breaks _ hspace => exact absurd rfl hspace

/-- Of several line ends each is written right after the other. -/
theorem isMarker_printSingle_break (h : (cs.head?.map isBreak).getD false = true) :
    isMarker (printSingle column .break cs ++ rest) = false := by
  cases cs with
  | nil => simp at h
  | cons c cs =>
    replace h : isBreak c = true := by simpa using h
    have hquote : c ≠ '\'' := by
      rintro rfl
      cases h
    have hfirst : ∃ s, printSingle column .break (c :: cs) ++ rest = c :: s := by
      simp only [printSingle, if_neg hquote, if_pos h, ne_eq, not_true_eq_false, false_and,
        if_false]
      split
      · exact ⟨_, rfl⟩
      · exact ⟨_, rfl⟩
    obtain ⟨s, hs⟩ := hfirst
    rw [hs]
    exact isMarker_cons_of_isBreak h

/-- One character of a text is written and read: what is read then is what was read
before with the character after it, unless the character is a next line. -/
theorem exists_singleFrom_printSingle_cons (htab : c ≠ '\t') (found : List Char)
    (multiline : Bool) (pending : Pending) (before : Before) (column position : Nat)
    (cs rest : List Char) : ∃ found' multiline' pending' before' column' position',
      singleFrom found multiline pending position
          (printSingle column before (c :: cs) ++ rest) =
        singleFrom found' multiline' pending' position'
          (printSingle column' before' cs ++ rest) ∧
      (SingleReady before pending (c :: cs) → hasSpaceAtBreak (c :: cs) = false →
        c ≠ '\u0085' → SingleReady before' pending' cs ∧
          pending'.textRev ++ found' = c :: (pending.textRev ++ found)) := by
  rw [printSingle]
  by_cases hquote : c = '\''
  · subst hquote
    rw [if_pos rfl, List.cons_append, List.cons_append, singleFrom_quote_quote]
    exact ⟨_, _, _, _, _, _, rfl, fun _ _ _ => ⟨.other cs, rfl⟩⟩
  rw [if_neg hquote]
  by_cases hc : isBreak c = true
  · have hready : SingleReady before pending (c :: cs) → hasSpaceAtBreak (c :: cs) = false →
        c ≠ '\u0085' → SingleReady .break
          ((if before ≠ .break ∧ c = '\n' then pending.break '\n' else pending).break c) cs ∧
          ((if before ≠ .break ∧ c = '\n' then pending.break '\n' else pending).break c).textRev ++
            found = c :: (pending.textRev ++ found) := by
      intro hready happart hnext
      obtain ⟨-, -, hspace⟩ := of_hasSpaceAtBreak_cons happart
      obtain ⟨ends, hends, hready', htext⟩ := hready.read_break hc hnext (hspace hc)
      rw [hends, htext]
      exact ⟨hready', rfl⟩
    rw [if_pos hc]
    dsimp only
    -- No line that goes on starts with a marker: a margin or a line end comes first.
    split
    · rename_i hagain
      rw [List.append_assoc, List.cons_append,
        singleFrom_breaks hc (isMarker_printSingle_break hagain)]
      exact ⟨_, _, _, _, _, _, rfl, hready⟩
    · rw [List.append_assoc, List.append_assoc, List.cons_append,
        singleFrom_breaks hc (isMarker_margin_append _), singleFrom_margin]
      exact ⟨_, _, _, _, _, _, rfl, hready⟩
  rw [if_neg hc]
  by_cases hblank : c = ' '
  · subst hblank
    rw [if_pos rfl]
    split
    · -- Where a line is folded, its end is read as the space.
      rename_i hfold
      rw [List.cons_append, List.cons_append, List.append_assoc,
        singleFrom_break rfl (isMarker_margin_append _), singleFrom_margin]
      refine ⟨_, _, _, _, _, _, rfl, fun hready happart _ => ?_⟩
      obtain ⟨-, hbreak, -⟩ := of_hasSpaceAtBreak_cons happart
      obtain rfl := hready.pending_eq_none hfold.2.1
      exact ⟨.fold (hbreak rfl) hfold.2.2.2.1, rfl⟩
    · rw [List.cons_append, singleFrom_space]
      refine ⟨_, _, _, _, _, _, rfl, fun hready happart _ => ?_⟩
      obtain ⟨-, hbreak, -⟩ := of_hasSpaceAtBreak_cons happart
      obtain ⟨hready', htext⟩ := hready.read_space (hbreak rfl)
      exact ⟨hready', by rw [htext, List.cons_append]⟩
  · rw [if_neg hblank, List.cons_append,
      singleFrom_other (by simpa using hc) hblank htab hquote]
    exact ⟨_, _, _, _, _, _, rfl, fun _ _ _ => ⟨.other cs, rfl⟩⟩

/-- A text without tabs and next lines, in which spaces and line ends stay apart, is
read back after it was written between single quotes. -/
theorem singleFrom_printSingle (hready : SingleReady before pending cs)
    (happart : hasSpaceAtBreak cs = false) (htab : '\t' ∉ cs) (hnext : '\u0085' ∉ cs)
    (hrest : rest.head? ≠ some '\'') :
    ReadsAs (singleFrom found multiline pending position (printSingle column before cs ++ rest))
      ((pending.textRev ++ found).reverse ++ cs) rest := by
  induction cs generalizing found multiline pending position column before with
  | nil =>
    refine ⟨multiline, position + 1, ?_⟩
    simp [printSingle, singleFrom_quote hrest]
  | cons c cs ih =>
    rw [List.mem_cons, not_or] at htab hnext
    obtain ⟨found', multiline', pending', before', column', position', hread, hstep⟩ :=
      exists_singleFrom_printSingle_cons (Ne.symm htab.1) found multiline pending before column
        position cs rest
    obtain ⟨hready', htext⟩ := hstep hready happart (Ne.symm hnext.1)
    rw [hread]
    refine (ih hready' (of_hasSpaceAtBreak_cons happart).1 htab.2 hnext.2).cast ?_
    rw [htext]
    simp

theorem singleQuoted_printSingle (happart : hasSpaceAtBreak cs = false) (htab : '\t' ∉ cs)
    (hnext : '\u0085' ∉ cs) (hrest : rest.head? ≠ some '\'') :
    ReadsAs (singleQuoted ⟨'\'' :: printSingle column .start cs ++ rest, position⟩) cs rest :=
  singleFrom_printSingle (.start cs) happart htab hnext hrest

/-! ### Next lines -/

theorem normalBreak_ne (c : Char) : normalBreak c ≠ '\u0085' := by
  unfold normalBreak
  split
  · decide
  · assumption

/-- The line ends and blanks that were read hold no next line. -/
def Pending.IsNormal : Pending → Prop
  | blanks found => '\u0085' ∉ found
  | breaks found => '\u0085' ∉ found
  | joined found => '\u0085' ∉ found
  | _ => True

theorem Pending.IsNormal.break (h : pending.IsNormal) (c : Char) : (pending.break c).IsNormal := by
  have hc : '\u0085' ≠ normalBreak c := (normalBreak_ne c).symm
  cases pending with
  | breaks found | joined found => exact List.not_mem_cons_of_ne_of_not_mem hc h
  | _ => exact List.not_mem_cons_of_ne_of_not_mem hc List.not_mem_nil

theorem Pending.IsNormal.blank (h : pending.IsNormal) (hc : isBreak c = false) :
    (pending.blank c).IsNormal := by
  have hc : '\u0085' ≠ c := by
    rintro rfl
    cases hc
  cases pending with
  | blanks found => exact List.not_mem_cons_of_ne_of_not_mem hc h
  | breaks found | joined found => exact h
  | _ => exact List.not_mem_cons_of_ne_of_not_mem hc List.not_mem_nil

theorem Pending.IsNormal.not_mem_textRev (h : pending.IsNormal) : '\u0085' ∉ pending.textRev := by
  cases pending with
  | blanks found | joined found => exact h
  | breaks found =>
    rw [textRev, List.mem_reverse]
    rw [IsNormal, ← List.mem_reverse] at h
    cases hends : found.reverse with
    | nil => exact List.not_mem_nil
    | cons first more =>
      rw [hends] at h
      rw [folded]
      split
      · exact h
      split
      · decide
      · exact List.not_mem_of_not_mem_cons h
  | _ => exact List.not_mem_nil

/-- No text that is read between single quotes holds a next line. -/
theorem not_mem_of_singleFrom {s : Scalar} {next : Cursor}
    (h : singleFrom found multiline pending position cs = some (s, next))
    (hfound : '\u0085' ∉ found) (hpending : pending.IsNormal) : '\u0085' ∉ s.text := by
  -- Line ends are kept in their normal form, and no other character is a next line.
  have htext := hpending.not_mem_textRev
  fun_induction singleFrom found multiline pending position cs with
  | case1 => cases h
  | case2 => cases h
  | case3 found multiline pending column c cs hc hmarker ih =>
    exact ih h hfound (hpending.break c) (hpending.break c).not_mem_textRev
  | case4 found multiline pending column c cs hc hblank ih =>
    have hpending := hpending.blank (Bool.eq_false_iff.mpr hc)
    exact ih h hfound hpending hpending.not_mem_textRev
  | case5 found multiline pending column hc hblank rest ih =>
    exact ih h (by simp [htext, hfound]) trivial List.not_mem_nil
  | case6 found multiline pending column cs hc hblank hquote =>
    simp only [Option.some.injEq, Prod.mk.injEq] at h
    obtain ⟨rfl, -⟩ := h
    simp [htext, hfound]
  | case7 found multiline pending column c cs hc hblank hquote ih =>
    have hne : '\u0085' ≠ c := by
      rintro rfl
      exact hc rfl
    exact ih h (by simp [hne, htext, hfound]) trivial List.not_mem_nil

/-- What was written between single quotes is read, though not always as it was. -/
theorem exists_readsAs_printSingle (htab : '\t' ∉ cs) (hrest : rest.head? ≠ some '\'')
    (found : List Char) (multiline : Bool) (pending : Pending) (before : Before)
    (column position : Nat) : ∃ text, ReadsAs
      (singleFrom found multiline pending position (printSingle column before cs ++ rest))
      text rest := by
  induction cs generalizing found multiline pending position column before with
  | nil =>
    rw [printSingle, List.cons_append, List.nil_append, singleFrom_quote hrest]
    exact ⟨_, multiline, position + 1, rfl⟩
  | cons c cs ih =>
    rw [List.mem_cons, not_or] at htab
    obtain ⟨found', multiline', pending', before', column', position', hread, -⟩ :=
      exists_singleFrom_printSingle_cons (Ne.symm htab.1) found multiline pending before column
        position cs rest
    rw [hread]
    exact ih htab.2 ..

/-- A text with a next line is not read back after it was written between single quotes. -/
theorem exists_singleQuoted_printSingle_ne (htab : '\t' ∉ cs) (hnext : '\u0085' ∈ cs)
    (hrest : rest.head? ≠ some '\'') :
    ∃ text, text ≠ cs ∧
      ReadsAs (singleQuoted ⟨'\'' :: printSingle column .start cs ++ rest, position⟩) text
        rest := by
  obtain ⟨text, multiline, position', hread⟩ :=
    exists_readsAs_printSingle htab hrest [] false .none .start column (position + 1)
  refine ⟨text, ?_, multiline, position', hread⟩
  rintro rfl
  exact not_mem_of_singleFrom hread List.not_mem_nil trivial hnext
end Delimited.Yaml
