import Delimited.Proofs.Yaml.Single

/-!
# Plain texts

A text that is written as it is reads back: nothing in it ends a plain scalar or
starts a comment, and a line on which it goes on starts right of the key it belongs
to. It ends where something stands that no plain scalar holds, or on a line that
starts further left.

## Main definitions

* `PlainBody`: the texts that a plain scalar can hold after its start.
* `PlainReady`: what the reader keeps for what the writer has written last.
* `EndsPlainAt`: where plain scalars end.

## Main results

* `plainFrom_printPlain`: a plain text is read back.
* `resolve_of_isText`: a plain text stands for itself.
-/

namespace Delimited.Yaml

variable {c : Char} {cs rest found : List Char} {multiline afterSpace : Bool} {gap : Gap}
  {stop : Cursor} {indent : Int} {column position : Nat}

/-- What a plain scalar can hold after its start. -/
structure PlainBody (cs : List Char) : Prop where
  /-- No line ends. -/
  breaks : ∀ c ∈ cs, isBreak c = false
  /-- No tabs. -/
  tabs : '\t' ∉ cs
  /-- No colon before a gap. -/
  colons : hasNeighbours (· == ':') (fun c => isGapOrEnd (some c)) cs = false
  /-- No colon at the end. -/
  lastColon : cs.getLast? ≠ some ':'
  /-- No hash after a gap. -/
  hashes : hasNeighbours (fun c => isGapOrEnd (some c)) (· == '#') cs = false
  /-- No space at the end. -/
  lastSpace : cs.getLast? ≠ some ' '

namespace PlainBody

theorem tail (h : PlainBody (c :: cs)) : PlainBody cs where
  breaks d hd := h.breaks d (by simp [hd])
  tabs hmem := h.tabs (by simp [hmem])
  colons := by
    have hcolons := h.colons
    rw [hasNeighbours_cons, Bool.or_eq_false_iff] at hcolons
    exact hcolons.2
  lastColon hlast := h.lastColon (by simp [List.getLast?_cons, hlast])
  hashes := by
    have hhashes := h.hashes
    rw [hasNeighbours_cons, Bool.or_eq_false_iff] at hhashes
    exact hhashes.2
  lastSpace hlast := h.lastSpace (by simp [List.getLast?_cons, hlast])

/-- A space is followed by something else than a hash. -/
theorem of_space (h : PlainBody (' ' :: cs)) : cs ≠ [] ∧ cs.head? ≠ some '#' := by
  refine ⟨?_, fun hhash => ?_⟩
  · rintro rfl
    exact h.lastSpace rfl
  · have hhashes := h.hashes
    rw [hasNeighbours_cons, hhash] at hhashes
    cases hhashes

/-- A colon is followed by something else than a gap. -/
theorem of_colon (h : PlainBody (':' :: cs)) : isGapOrEnd cs.head? = false := by
  cases cs with
  | nil => exact absurd rfl h.lastColon
  | cons d cs =>
    have hcolons := h.colons
    rw [hasNeighbours_cons, Bool.or_eq_false_iff] at hcolons
    simpa using hcolons.1

theorem isGapOrEnd_eq_false (h : PlainBody (c :: cs)) (hspace : c ≠ ' ') :
    isGapOrEnd (some c) = false := by
  have htab : c ≠ '\t' := fun heq => h.tabs (by simp [heq])
  simp [isGapOrEnd, hspace, htab, h.breaks c (by simp)]

end PlainBody

/-- What the reader keeps where the writer goes on with a plain text. -/
inductive PlainReady : Bool → Gap → List Char → Prop where
  /-- Text was written. -/
  | text (cs : List Char) : PlainReady false .none cs
  /-- Spaces were written. -/
  | spaces (n : Nat) {cs : List Char} (hne : cs ≠ []) (hhash : cs.head? ≠ some '#') :
    PlainReady true (.spaces n) cs
  /-- A space was written as a line end. -/
  | fold {cs : List Char} (hne : cs ≠ []) (hhash : cs.head? ≠ some '#')
    (hspace : cs.head? ≠ some ' ') : PlainReady true (.breaks ['\n']) cs

/-- Plain scalars right of `indent` end before the text. -/
def EndsPlainAt (indent : Int) (rest : List Char) : Prop :=
  ∀ found multiline stop position,
    plainFrom false indent found multiline stop .none position rest =
      (⟨found.reverse, multiline⟩, stop)

/-! ### Steps of the reader -/

theorem plainFrom_margin {ends : List Char} :
    plainFrom false indent found multiline stop (.breaks ends) position (margin ++ cs) =
      plainFrom false indent found multiline stop (.breaks ends) (position + continuation) cs := by
  simp [margin, continuation, List.replicate, plainFrom, isBreak]

theorem printPlain_cons_of_ne (h : c ≠ ' ') :
    printPlain column afterSpace (c :: cs) = c :: printPlain (column + 1) false cs := by
  rw [printPlain, if_neg (fun hfold => h hfold.1), beq_eq_false_iff_ne.mpr h]

/-- What follows text is written as it is. -/
theorem head?_printPlain (h : isGapOrEnd cs.head? = false) :
    (printPlain column afterSpace cs ++ rest).head? = cs.head? := by
  cases cs with
  | nil => cases h
  | cons c cs =>
    have hspace : c ≠ ' ' := by
      rintro rfl
      cases h
    simp [printPlain_cons_of_ne hspace]

theorem plainFrom_fold :
    plainFrom false indent found multiline stop .none position ('\n' :: (margin ++ cs)) =
      plainFrom false indent found multiline stop (.breaks ['\n']) continuation cs := by
  rw [plainFrom]
  simp only [isMarker_margin_append, show isBreak '\n' = true from rfl,
    show normalBreak '\n' = '\n' from rfl, if_true, Bool.false_eq_true, if_false, plainFrom_margin,
    Nat.zero_add]

theorem plainFrom_space (hready : PlainReady afterSpace gap (' ' :: cs)) :
    ∃ n, gap.text ++ [' '] = List.replicate n ' ' ∧
      ∀ found multiline stop position rest,
        plainFrom false indent found multiline stop gap position (' ' :: rest) =
          plainFrom false indent found multiline stop (.spaces n) (position + 1) rest := by
  cases hready with
  | text => exact ⟨1, rfl, fun _ _ _ _ _ => by simp [plainFrom, isBreak]⟩
  | spaces n =>
    exact ⟨n + 1, by simp [Gap.text, List.replicate_succ'], fun _ _ _ _ _ => by
      simp [plainFrom, isBreak]⟩
  | fold _ _ hspace => exact absurd rfl hspace

/-- A character that belongs to a plain scalar is added to it, after the gap. -/
theorem plainFrom_other (hready : PlainReady afterSpace gap (c :: cs))
    (hbody : PlainBody (c :: cs)) (hcross : gap.crosses = true → indent < position)
    (hspace : c ≠ ' ') (hnext : c = ':' → isGapOrEnd rest.head? = false) :
    plainFrom false indent found multiline stop gap position (c :: rest) =
      plainFrom false indent (c :: gap.text.reverse ++ found) (multiline || gap.crosses)
        ⟨rest, position + 1⟩ .none (position + 1) rest := by
  -- The character is on the line of the key, or further right than the key.
  have hinside : (gap.crosses && decide ((position : Int) ≤ indent)) = false := by
    cases hgap : gap.crosses with
    | false => rfl
    | true => simpa using hcross hgap
  have hends : endsPlain false c rest.head? = false := by
    simp only [endsPlain, hbody.isGapOrEnd_eq_false hspace]
    by_cases hcolon : c = ':'
    · simp [hnext hcolon]
    · simp [hcolon]
  have hbreak : isBreak c = false := hbody.breaks c (by simp)
  rw [plainFrom.eq_def]
  cases hready with
  | text => simp [hbreak, hspace, hinside, hends]
  | spaces _ _ hhash =>
    have hcomment : c ≠ '#' := by simpa using hhash
    simp [hbreak, hspace, hinside, hends, hcomment]
  | fold _ hhash =>
    have hcomment : c ≠ '#' := by simpa using hhash
    simp [hbreak, hspace, hinside, hends, hcomment]

/-! ### Writing and reading -/

/-- A plain text is read back, on lines that go on right of `indent`. -/
theorem plainFrom_printPlain (hindent : indent < continuation)
    (hready : PlainReady afterSpace gap cs) (hbody : PlainBody cs)
    (hcross : gap.crosses = true → indent < position)
    (hstop : cs = [] → stop.rest = rest) (htail : EndsPlainAt indent rest) :
    ∃ multiline' position', plainFrom false indent found multiline stop gap position
      (printPlain column afterSpace cs ++ rest) =
        (⟨found.reverse ++ gap.text ++ cs, multiline'⟩, ⟨rest, position'⟩) := by
  -- The cursor at which the scalar stops is the one after its last character, so it is
  -- tied to the rest only where nothing is left to write.
  induction cs generalizing found multiline gap stop position column afterSpace with
  | nil =>
    cases hready with
    | text =>
      refine ⟨multiline, stop.column, ?_⟩
      rw [printPlain, List.nil_append, htail, ← hstop rfl]
      simp [Gap.text]
    | spaces _ hne => exact absurd rfl hne
    | fold hne => exact absurd rfl hne
  | cons c cs ih =>
    rw [printPlain]
    split
    · -- A space is folded only after text, and comes back as the gap of one line end.
      rename_i hfold
      obtain ⟨rfl, hafter, hhead, -⟩ := hfold
      obtain ⟨hne, hhash⟩ := hbody.of_space
      cases hready with
      | text =>
        rw [List.cons_append, List.cons_append, List.append_assoc, plainFrom_fold]
        obtain ⟨multiline', position', hread⟩ := ih (.fold hne hhash hhead) hbody.tail
          (fun _ => hindent) (fun hnil => absurd hnil hne)
        exact ⟨multiline', position', hread.trans (by simp [Gap.text, folded])⟩
      | spaces => cases hafter
      | fold => cases hafter
    · rw [List.cons_append]
      by_cases hspace : c = ' '
      · subst hspace
        obtain ⟨n, htext, hread⟩ := plainFrom_space hready
        obtain ⟨hne, hhash⟩ := hbody.of_space
        obtain ⟨multiline', position', hread'⟩ := ih (.spaces n hne hhash) hbody.tail
          (fun hcross => Bool.noConfusion hcross) (fun hnil => absurd hnil hne)
        refine ⟨multiline', position', ?_⟩
        rw [hread, beq_self_eq_true, hread', Gap.text, ← htext]
        simp
      · have hnext : c = ':' → isGapOrEnd
            (printPlain (column + 1) (c == ' ') cs ++ rest).head? = false := by
          rintro rfl
          rw [head?_printPlain hbody.of_colon]
          exact hbody.of_colon
        have hstop' : cs = [] →
            (Cursor.mk (printPlain (column + 1) false cs ++ rest) (position + 1)).rest = rest := by
          rintro rfl
          rfl
        rw [plainFrom_other hready hbody hcross hspace hnext, beq_eq_false_iff_ne.mpr hspace]
        obtain ⟨multiline', position', hread⟩ := ih (.text cs) hbody.tail
          (fun hcross => Bool.noConfusion hcross) hstop'
        exact ⟨multiline', position', hread.trans (by simp [Gap.text])⟩

theorem exists_plain_printPlain (hindent : indent < continuation) (hbody : PlainBody cs)
    (hne : cs ≠ []) (htail : EndsPlainAt indent rest) :
    ∃ multiline position', plain false indent ⟨printPlain column false cs ++ rest, position⟩ =
      (⟨cs, multiline⟩, ⟨rest, position'⟩) :=
  plainFrom_printPlain hindent (.text cs) hbody (fun hcross => Bool.noConfusion hcross)
    (fun hnil => absurd hnil hne) htail

/-! ### What plain texts stand for -/

theorem eq_of_resolve_eq_text {s : String} (h : Plain.resolve cs = some (.text s)) :
    s = String.ofList cs := by
  -- The other values come first, each with a test of its own.
  simp only [Plain.resolve] at h
  split at h
  · cases h
  split at h
  · cases h
  split at h
  · cases h
  split at h
  · cases h
  split at h
  · cases h
  split at h
  · cases h
  split at h
  · cases h
  · cases h
    rfl

/-- A plain text that stands for a text stands for itself. -/
theorem resolve_of_isText (h : Plain.isText cs = true) :
    Plain.resolve cs = some (.text (String.ofList cs)) := by
  unfold Plain.isText at h
  split at h
  · rename_i s hs
    rw [hs, eq_of_resolve_eq_text hs]
  · cases h

theorem isText_of_isPlain (h : isPlain cs = true) : Plain.isText cs = true := by
  simp only [isPlain, Bool.and_eq_true] at h
  exact h.1.1.1.1.1

/-- A text that is written as it is can be read as a plain scalar. -/
theorem plainBody_of_isPlain (h : isPlain cs = true) (hescape : cs.any needsEscape = false) :
    PlainBody cs := by
  simp only [isPlain, hasIndicator, Bool.and_eq_true, Bool.not_eq_true', Bool.or_eq_false_iff,
    bne_iff_ne, beq_eq_false_iff_ne] at h
  obtain ⟨⟨⟨⟨⟨-, -⟩, ⟨hcolons, hlast⟩, hhashes⟩, hbreaks⟩, -⟩, hspace⟩ := h
  refine ⟨?_, fun htab => ?_, hcolons, hlast, hhashes, hspace⟩
  · simpa using hbreaks
  · have hneeds := List.any_eq_false.mp hescape '\t' htab
    exact hneeds rfl

end Delimited.Yaml
