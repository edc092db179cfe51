import Delimited.Proofs.Yaml.Scalar

/-!
# Mappings by indentation

A mapping is read entry by entry. A key is a word and a colon; its value is a scalar
on the same line, or a mapping that starts further right on the next line. After a
value the next line decides: an entry in the same column goes on with the mapping,
and anything further left, or nothing at all, ends it.

## Main definitions

* `IsWord`, `IsKey`: the words that keys are.
* `LineStart`: what a line starts with, after its spaces.
* `ReadsValue`, `ReadsMapping`: what is read after a key, and entry by entry.

## Main results

* `readsValue_scalar`, `ReadsMapping.readsValue`: scalars and mappings as values.
* `IsKey.readsMapping_last`, `IsKey.readsMapping_cons`: the entries of a mapping.
-/

namespace Delimited.Yaml

variable {c : Char} {cs word rest : List Char} {indent : Int} {column position position' fuel : Nat}
  {next : Cursor} {v : Value}

/-! ### Words -/

/-- Letters and underscores, at least one. -/
structure IsWord (word : List Char) : Prop where
  /-- There are some. -/
  ne_nil : word ≠ []
  /-- There are no others. -/
  letters : ∀ c ∈ word, (c.isAlpha || c == '_') = true

namespace IsWord

theorem ne_of_mem (h : IsWord word) {d : Char} (hd : (d.isAlpha || d == '_') = false) : d ∉ word :=
  fun hmem => by simp [h.letters d hmem] at hd

theorem isGapOrEnd_eq_false (h : IsWord word) (hc : c ∈ word) : isGapOrEnd (some c) = false := by
  have hne (d : Char) (hd : (d.isAlpha || d == '_') = false) : c ≠ d :=
    fun heq => h.ne_of_mem hd (heq ▸ hc)
  simp [isGapOrEnd, isBreak, hne ' ' rfl, hne '\t' rfl, hne '\n' rfl, hne '\u0085' rfl,
    hne '\u2028' rfl, hne '\u2029' rfl]

theorem plainBody (h : IsWord word) : PlainBody word where
  breaks c hc := by
    have hgap := h.isGapOrEnd_eq_false hc
    simp only [isGapOrEnd, Bool.or_eq_false_iff] at hgap
    exact hgap.2
  tabs := h.ne_of_mem rfl
  colons := hasNeighbours_eq_false fun c hc => by
    simpa using fun heq : c = ':' => h.ne_of_mem rfl (heq ▸ hc)
  lastColon hlast := h.ne_of_mem rfl (List.mem_of_getLast? hlast)
  hashes := hasNeighbours_eq_false fun _ => h.isGapOrEnd_eq_false
  lastSpace hlast := h.ne_of_mem rfl (List.mem_of_getLast? hlast)

theorem isAllowed (h : IsWord word) : ∀ c ∈ word, isAllowed c = true := by
  intro c hc
  have hletter : ((decide ('A' ≤ c ∧ c ≤ 'Z') || (decide ('a' ≤ c) && decide (c ≤ 'z'))) ||
      c == '_') = true := h.letters c hc
  simp only [Bool.or_eq_true, Bool.and_eq_true, decide_eq_true_eq, beq_iff_eq] at hletter
  rcases hletter with (hupper | hlower) | rfl
  · exact isAllowed_of_between hupper (by decide) (by decide)
  · exact isAllowed_of_between hlower (by decide) (by decide)
  · rfl

end IsWord

/-- A plain text without spaces ends on the line where it starts. -/
theorem plainFrom_of_no_space {found : List Char} {multiline : Bool} {stop : Cursor}
    (hbody : PlainBody cs) (hspace : ' ' ∉ cs) (hends : EndsPlainAt indent rest)
    (hstop : cs = [] → stop = ⟨rest, position⟩) :
    plainFrom false indent found multiline stop .none position (cs ++ rest) =
      (⟨found.reverse ++ cs, multiline⟩, ⟨rest, position + cs.length⟩) := by
  induction cs generalizing found stop position with
  | nil => rw [List.nil_append, hends, hstop rfl]; simp
  | cons c cs ih =>
    rw [List.mem_cons, not_or] at hspace
    have hnext : c = ':' → isGapOrEnd (cs ++ rest).head? = false := by
      rintro rfl
      have hcolon := hbody.of_colon
      cases cs with
      | nil => cases hcolon
      | cons d cs => exact hcolon
    have hstop' : cs = [] → (⟨cs ++ rest, position + 1⟩ : Cursor) = ⟨rest, position + 1⟩ := by
      rintro rfl
      rfl
    rw [List.cons_append, plainFrom_other (.text _) hbody (fun hcross => Bool.noConfusion hcross)
      (Ne.symm hspace.1) hnext, Gap.crosses, Bool.or_false, ih hbody.tail hspace.2 hstop']
    · simp [Gap.text, Nat.add_assoc, Nat.add_comm 1]
    · simp

/-- A word starts a scalar, and a plain one. -/
theorem IsWord.exists_cons (h : IsWord word) :
    ∃ c cs, word = c :: cs ∧ c ∉ specialStarts ∧ (∀ rest, StartsScalar c rest) ∧
      ∀ next, startsPlain false c next = true := by
  obtain ⟨c, cs, rfl⟩ := List.exists_cons_of_ne_nil h.ne_nil
  have hgap := h.isGapOrEnd_eq_false (List.mem_cons_self (a := c))
  have hne {d : Char} (hd : (d.isAlpha || d == '_') = false) : c ≠ d :=
    fun heq => h.ne_of_mem hd (heq ▸ List.mem_cons_self)
  have hspecial : specialStarts.any (fun d => d.isAlpha || d == '_') = false := by decide
  have hstart : c ∉ specialStarts := fun hmem =>
    List.any_eq_false.mp hspecial c hmem (h.letters c List.mem_cons_self)
  refine ⟨c, cs, rfl, hstart,
    fun rest => ⟨hgap, fun hmem => hstart (marks_subset_specialStarts hmem),
      fun hdash => absurd hdash (hne rfl)⟩,
    fun next => startsPlain_of_not_mem hgap hstart ?_⟩
  rintro (hc | hc | hc)
  all_goals exact absurd hc (hne rfl)

/-- A word is read as the value that it stands for. -/
theorem scalar_word (hword : IsWord word) (hends : EndsPlainAt indent rest)
    (hvalue : Plain.resolve word = some v) :
    scalar false indent ⟨word ++ rest, position⟩ =
      some (v, false, ⟨rest, position + word.length⟩) := by
  have hread : plain false indent ⟨word ++ rest, position⟩ =
      (⟨word, false⟩, ⟨rest, position + word.length⟩) :=
    plainFrom_of_no_space hword.plainBody (hword.ne_of_mem rfl) hends
      fun hnil => absurd hnil hword.ne_nil
  obtain ⟨c, cs, rfl, hstart, -, hplain⟩ := hword.exists_cons
  exact scalar_plain hstart (hplain _) hread hvalue

/-! ### Keys -/

theorem endsPlainAt_colon (h : isGapOrEnd rest.head? = true) :
    EndsPlainAt indent (':' :: rest) := by
  intro found multiline stop position
  rw [plainFrom]
  simp [isBreak, endsPlain, h]

/-- A word and a colon are a key. -/
theorem key?_word (hword : IsWord word) (hvalue : Plain.resolve word = some v)
    (hgap : isGapOrEnd rest.head? = true) :
    key? indent ⟨word ++ ':' :: rest, position⟩ = some (v, ⟨rest, position + word.length + 1⟩) := by
  rw [key?, scalar_word hword (endsPlainAt_colon hgap) hvalue]
  simp [afterColon?, Cursor.skipSpaces, Cursor.forward, hgap]

/-! ### Lines -/

/-- What a line starts with after its spaces, which is no comment, or that there are no
more lines. -/
inductive LineStart : List Char → Cursor → Prop where
  /-- There are no more lines. -/
  | done : LineStart [] ⟨[], 0⟩
  /-- Some spaces, and something else. -/
  | line (n : Nat) {c : Char} (cs : List Char) (hgap : isGapOrEnd (some c) = false)
    (hhash : c ≠ '#') : LineStart (List.replicate n ' ' ++ c :: cs) ⟨c :: cs, n⟩

theorem skipFrom_spaces (hgap : isGapOrEnd (some c) = false) (hhash : c ≠ '#') (crossed : Bool)
    (n : Nat) :
    Cursor.skipFrom false crossed position (List.replicate n ' ' ++ c :: cs) =
      (crossed, ⟨c :: cs, position + n⟩) := by
  induction n generalizing position with
  | zero =>
    simp only [isGapOrEnd, Bool.or_eq_false_iff, beq_eq_false_iff_ne] at hgap
    simp [Cursor.skipFrom, hgap, hhash]
  | succ n ih =>
    rw [List.replicate_succ, List.cons_append, Cursor.skipFrom]
    simp [isBreak, ih, Nat.add_assoc, Nat.add_comm 1]

theorem LineStart.skipFrom (h : LineStart rest next) :
    Cursor.skipFrom false true 0 rest = (true, next) := by
  cases h with
  | done => rfl
  | line n cs hgap hhash => rw [skipFrom_spaces hgap hhash, Nat.zero_add]

/-- After a line end reading goes on where the next line starts. -/
theorem LineStart.skip (h : LineStart rest next) :
    Cursor.skip ⟨'\n' :: rest, position⟩ = (true, next) :=
  h.skipFrom

/-- A comment ends with its line. -/
theorem skipFrom_comment {crossed : Bool} (h : ∀ c ∈ cs, isBreak c = false) :
    Cursor.skipFrom false crossed position ('#' :: (cs ++ '\n' :: rest)) =
      Cursor.skipFrom false true 0 rest := by
  -- Inside a comment nothing but the end of its line has a meaning.
  have hinside (position : Nat) : Cursor.skipFrom true crossed position (cs ++ '\n' :: rest) =
      Cursor.skipFrom false true 0 rest := by
    induction cs generalizing position with
    | nil => rfl
    | cons c cs ih =>
      rw [List.forall_mem_cons] at h
      rw [List.cons_append, Cursor.skipFrom]
      simpa [h.1] using ih h.2 (position + 1)
  exact hinside (position + 1)

theorem plainFrom_spaces {found ends : List Char} {multiline : Bool} {stop : Cursor}
    (hgap : isGapOrEnd (some c) = false) (n : Nat)
    (hcolumn : ((position + n : Nat) : Int) ≤ indent) :
    plainFrom false indent found multiline stop (.breaks ends) position
      (List.replicate n ' ' ++ c :: cs) = (⟨found.reverse, multiline⟩, stop) := by
  induction n generalizing position with
  | zero =>
    simp only [isGapOrEnd, Bool.or_eq_false_iff, beq_eq_false_iff_ne] at hgap
    have hleft : (position : Int) ≤ indent := by simpa using hcolumn
    simp [plainFrom, hgap, Gap.crosses, hleft]
  | succ n ih =>
    rw [List.replicate_succ, List.cons_append, plainFrom]
    have hleft : ((position + 1 + n : Nat) : Int) ≤ indent := by omega
    simp [isBreak, ih hleft]

/-- A plain scalar does not go on with a line that starts further left. -/
theorem LineStart.endsPlainAt (h : LineStart rest next) (hcolumn : (next.column : Int) ≤ indent) :
    EndsPlainAt indent ('\n' :: rest) := by
  intro found multiline stop position
  rw [plainFrom]
  cases h with
  | done => simp [isBreak, isMarker, marks, plainFrom]
  | line n cs hgap =>
    simp only [show isBreak '\n' = true from rfl, if_true]
    split
    · rfl
    · exact plainFrom_spaces hgap n (by simpa using hcolumn)

/-! ### Values -/

/-- What starts a scalar is a mapping if it is a key at the start of a line, and else
that scalar. -/
theorem blockNode_of_startsScalar {fresh : Bool} (h : StartsScalar c cs) :
    blockNode (fuel + 1) indent fresh ⟨c :: cs, position⟩ =
      if fresh && (key? indent ⟨c :: cs, position⟩).isSome then
        blockMapping fuel position [] ⟨c :: cs, position⟩
      else (scalar false indent ⟨c :: cs, position⟩).map
        fun (v, _, next) => settle v false next := by
  have hmark := h.mark
  simp only [List.mem_cons, List.not_mem_nil, or_false, not_or] at hmark
  have hdash : isDash ⟨c :: cs, position⟩ = false := by
    unfold isDash
    split
    · rename_i heq
      cases heq
      exact h.dash rfl
    · rfl
  have hblock : isBlockMark ⟨c :: cs, position⟩ = false := by simp [isBlockMark, hmark]
  rw [blockNode]
  simp [hdash, hblock, hmark]

/-- The value after a key in a column is read with so much fuel, up to the next line. -/
def ReadsValue (column : Nat) (start : Cursor) (v : Value) (next : Cursor) (needed : Nat) : Prop :=
  ∀ fuel, needed ≤ fuel → blockValue fuel column start = some (v, true, next)

/-- A scalar after a key ends with its line. -/
theorem readsValue_scalar {multiline : Bool} (hstart : StartsScalar c cs)
    (hscalar : scalar false column ⟨c :: cs, position + 1⟩ =
      some (v, multiline, ⟨'\n' :: rest, position'⟩))
    (hline : LineStart rest next) :
    ReadsValue column ⟨' ' :: c :: cs, position⟩ v next 2 := by
  intro fuel hfuel
  obtain ⟨fuel, rfl⟩ := Nat.exists_eq_add_of_le' hfuel
  have hskip : Cursor.skip ⟨' ' :: c :: cs, position⟩ = (false, ⟨c :: cs, position + 1⟩) :=
    skipFrom_spaces hstart.gap (fun hhash => hstart.mark (by simp [hhash])) false 1
  rw [blockValue, hskip]
  simp [Cursor.atEnd, Cursor.atMarker, blockNode_of_startsScalar hstart, hscalar, settle,
    hline.skip]

/-! ### Mappings -/

variable {start after last : Cursor} {key : String} {entries : List (String × Value)}
  {needed needed' : Nat}

/-- A mapping with some entries starts here, and is read with so much fuel. -/
structure ReadsMapping (start : Cursor) (entries : List (String × Value)) (next : Cursor)
    (needed : Nat) : Prop where
  /-- It starts with a key. -/
  key : ∃ c cs, start.rest = c :: cs ∧ StartsScalar c cs ∧
    ∀ indent, (key? indent start).isSome = true
  /-- The document does not end before it. -/
  atEnd : start.atEnd = false
  /-- Its entries are read. -/
  read : ∀ fuel found, needed ≤ fuel →
    blockMapping fuel start.column found start = some (.map (found ++ entries), true, next)

theorem ReadsMapping.lineStart (h : ReadsMapping start entries next needed) :
    LineStart (List.replicate start.column ' ' ++ start.rest) start := by
  obtain ⟨c, cs, hrest, hstart, -⟩ := h.key
  obtain ⟨_, column⟩ := start
  obtain rfl := hrest
  exact .line column cs hstart.gap fun hhash => hstart.mark (by simp [hhash])

/-- A mapping after a key starts on the next line, further right. -/
theorem ReadsMapping.readsValue (h : ReadsMapping start entries next needed)
    (hcolumn : column < start.column) :
    ReadsValue column ⟨'\n' :: (List.replicate start.column ' ' ++ start.rest), position⟩
      (.map entries) next (needed + 2) := by
  intro fuel hfuel
  obtain ⟨fuel, rfl⟩ := Nat.exists_eq_add_of_le' (Nat.le_trans (Nat.le_add_left 2 needed) hfuel)
  have hread := h.read fuel [] (by omega)
  obtain ⟨c, cs, hrest, hstart, hkey⟩ := h.key
  rw [blockValue, h.lineStart.skip]
  obtain ⟨_, column'⟩ := start
  obtain rfl := hrest
  simp [h.atEnd, isInside, hcolumn, blockNode_of_startsScalar hstart, hkey, hread]

/-- A key is a word that stands for itself. -/
structure IsKey (key : String) : Prop where
  /-- It is a word. -/
  word : IsWord key.toList
  /-- It stands for itself. -/
  text : Plain.resolve key.toList = some (.text key)

theorem isKey_iff : IsKey key ↔ key.toList ≠ [] ∧
    (key.toList.all fun c => c.isAlpha || c == '_') = true ∧ Plain.isText key.toList = true := by
  rw [List.all_eq_true]
  constructor
  · rintro ⟨⟨hne, hletters⟩, htext⟩
    exact ⟨hne, hletters, by simp [Plain.isText, htext]⟩
  · rintro ⟨hne, hletters, htext⟩
    exact ⟨⟨hne, hletters⟩, by rw [resolve_of_isText htext, String.ofList_toList]⟩

instance (key : String) : Decidable (IsKey key) := decidable_of_iff' _ isKey_iff

namespace IsKey

theorem key? (h : IsKey key) (hgap : isGapOrEnd rest.head? = true) :
    Yaml.key? indent ⟨key.toList ++ ':' :: rest, column⟩ =
      some (.text key, ⟨rest, column + key.length + 1⟩) := by
  rw [key?_word h.word h.text hgap, String.length_toList]

theorem exists_startsScalar (h : IsKey key) (hgap : isGapOrEnd rest.head? = true) :
    ∃ c cs, key.toList ++ ':' :: rest = c :: cs ∧ StartsScalar c cs ∧
      ∀ indent, (Yaml.key? indent ⟨key.toList ++ ':' :: rest, column⟩).isSome = true := by
  obtain ⟨c, cs, hword, -, hstart, -⟩ := h.word.exists_cons
  refine ⟨c, cs ++ ':' :: rest, by rw [hword]; rfl, hstart _, fun indent => ?_⟩
  rw [h.key? hgap]
  rfl

theorem atEnd_eq_false (h : IsKey key) :
    Cursor.atEnd ⟨key.toList ++ ':' :: rest, column⟩ = false := by
  have hmarker : isMarker (key.toList ++ ':' :: rest) = false := by
    obtain ⟨c, cs, hword, -⟩ := h.word.exists_cons
    have hletter := h.word.letters c (by simp [hword])
    rw [hword, List.cons_append]
    refine isMarker_cons_of_ne ?_ ?_
    · rintro rfl
      cases hletter
    · rintro rfl
      cases hletter
  simp [Cursor.atEnd, Cursor.atMarker, hmarker]

/-- A mapping has one entry if the line after it starts further left. -/
theorem readsMapping_last (h : IsKey key) (hgap : isGapOrEnd rest.head? = true)
    (hvalue : ReadsValue column ⟨rest, column + key.length + 1⟩ v next needed)
    (hend : next.atEnd = true ∨ next.column < column) :
    ReadsMapping ⟨key.toList ++ ':' :: rest, column⟩ [(key, v)] next (needed + 1) where
  key := h.exists_startsScalar hgap
  atEnd := h.atEnd_eq_false
  read fuel found hfuel := by
    -- One step of fuel goes to the entry, the rest to its value.
    obtain ⟨fuel, rfl⟩ := Nat.exists_eq_add_of_le' (Nat.le_trans (Nat.le_add_left 1 needed) hfuel)
    rw [blockMapping]
    simp [h.key? hgap, hvalue fuel (by omega), entry, hend]

/-- A mapping has one entry more if the line after the entry starts in its column. -/
theorem readsMapping_cons (h : IsKey key) (hgap : isGapOrEnd rest.head? = true)
    (hvalue : ReadsValue column ⟨rest, column + key.length + 1⟩ v next needed)
    (hothers : ReadsMapping next entries last needed') (hcolumn : next.column = column) :
    ReadsMapping ⟨key.toList ++ ':' :: rest, column⟩ ((key, v) :: entries) last
      (max needed needed' + 1) where
  key := h.exists_startsScalar hgap
  atEnd := h.atEnd_eq_false
  read fuel found hfuel := by
    obtain ⟨fuel, rfl⟩ := Nat.exists_eq_add_of_le' (Nat.le_trans (Nat.le_add_left 1 _) hfuel)
    -- The other entries are read by the same loop, behind the ones found so far.
    have hread := hothers.read fuel (found ++ [(key, v)]) (by omega)
    rw [hcolumn] at hread
    rw [blockMapping]
    simpa [h.key? hgap, hvalue fuel (by omega), entry, hothers.atEnd, hcolumn] using hread

end IsKey

theorem ReadsMapping.mono (h : ReadsMapping start entries next needed) (hle : needed ≤ needed') :
    ReadsMapping start entries next needed' :=
  ⟨h.key, h.atEnd, fun fuel found hfuel => h.read fuel found (hle.trans hfuel)⟩

/-! ### Files -/

/-- A file that holds a mapping from its first column on, and nothing after it, stands
for that mapping. -/
theorem ReadsMapping.document {text : List Char} {crossed : Bool}
    (h : ReadsMapping start entries ⟨[], 0⟩ needed) (hcolumn : start.column = 0)
    (hallowed : ∀ c ∈ text, isAllowed c = true) (hmark : text.head? ≠ some '\uFEFF')
    (hskip : Cursor.skip ⟨text, 0⟩ = (crossed, start)) (hfuel : needed ≤ 4 * text.length + 7) :
    Yaml.document text = some (.map entries) := by
  -- A file is read with fuel for its length, of which a mapping leaves enough.
  have hread := h.read (4 * text.length + 7) [] hfuel
  obtain ⟨c, cs, hrest, hstart, hkey⟩ := h.key
  have hend := h.atEnd
  obtain ⟨_, column⟩ := start
  obtain rfl := hcolumn
  obtain rfl := hrest
  have hmarker : isMarker (c :: cs) = false := by
    simpa [Cursor.atEnd, Cursor.atMarker] using hend
  have hdash : marks '-' (c :: cs) = false := (Bool.or_eq_false_iff.mp hmarker).1
  have hnode : blockNode (4 * text.length + 8) (-1) true ⟨c :: cs, 0⟩ =
      some (.map entries, true, ⟨[], 0⟩) := by
    rw [blockNode_of_startsScalar hstart, hkey]
    simpa using hread
  have hall : (!text.all isAllowed) = false := by simpa using hallowed
  rw [document]
  simp [hmark, hall, hskip, hdash, Cursor.atMarker, hmarker, hnode, isFinished]

end Delimited.Yaml
