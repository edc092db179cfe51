import Delimited.Proofs.Yaml.Double
import Delimited.Proofs.Yaml.Plain
import Delimited.Yaml.Reader

/-!
# Scalars

Whatever its style, a text that was written as a scalar is read back, with one
exception: a next line comes back only between double quotes, since between single
quotes it is taken for a line feed. What was written holds only characters that a
settings file can hold, and never starts like anything but a scalar.

## Main definitions

* `ComesBack`: the texts without next lines, and those between double quotes.
* `StartsScalar`: what starts a scalar and nothing else.

## Main results

* `exists_scalar_printScalar`: a text is read back in its style, exactly if it comes back.
* `isAllowed_of_mem_printScalar`: a written text can stand in a settings file.
-/

namespace Delimited.Yaml

variable {c : Char} {cs rest : List Char} {indent : Int} {column position : Nat}

/-! ### Styles -/

theorem styleOf_eq_double_iff :
    styleOf cs = .double ↔ (cs.any needsEscape || hasSpaceAtBreak cs) = true := by
  unfold styleOf
  split
  · rename_i heither
    exact iff_of_true rfl heither
  · rename_i hneither
    refine iff_of_false ?_ hneither
    split <;> decide

/-- A next line comes back only between double quotes. -/
def ComesBack (cs : List Char) : Prop := '\u0085' ∈ cs → styleOf cs = .double

instance (cs : List Char) : Decidable (ComesBack cs) :=
  decidable_of_iff ('\u0085' ∈ cs → (cs.any needsEscape || hasSpaceAtBreak cs) = true)
    (imp_congr_right fun _ => styleOf_eq_double_iff.symm)

theorem of_styleOf_ne_double (h : styleOf cs ≠ .double) :
    cs.any needsEscape = false ∧ hasSpaceAtBreak cs = false := by
  rwa [Ne, styleOf_eq_double_iff, Bool.not_eq_true, Bool.or_eq_false_iff] at h

theorem isPlain_of_styleOf (h : styleOf cs = .plain) : isPlain cs = true := by
  unfold styleOf at h
  split at h
  · cases h
  · split at h
    · assumption
    · cases h

/-! ### Starts of scalars -/

/-- What starts a scalar, and neither a list, a mapping, a block of lines nor a
comment. -/
structure StartsScalar (c : Char) (rest : List Char) : Prop where
  /-- It is no gap. -/
  gap : isGapOrEnd (some c) = false
  /-- It has no other meaning. -/
  mark : c ∉ ['#', '[', '\x7b', '|', '>']
  /-- It is no item of a list. -/
  dash : c = '-' → isGapOrEnd rest.head? = false

theorem startsScalar_single (rest : List Char) : StartsScalar '\'' rest :=
  ⟨rfl, by decide, fun h => absurd h (by decide)⟩

theorem startsScalar_double (rest : List Char) : StartsScalar '"' rest :=
  ⟨rfl, by decide, fun h => absurd h (by decide)⟩

/-- The characters that start no plain text. -/
def specialStarts : List Char := "#,[]\x7b\x7d&*!|>'\"%@`".toList

theorem marks_subset_specialStarts : ['#', '[', '\x7b', '|', '>'] ⊆ specialStarts := by decide

theorem of_startsOtherwise_eq_false (h : startsOtherwise (c :: cs) = false) :
    c ∉ specialStarts ∧ (c = '?' ∨ c = ':' ∨ c = '-' → isGapOrEnd cs.head? = false) := by
  simp only [startsOtherwise, Bool.or_eq_false_iff, Bool.and_eq_false_iff,
    String.contains_char_eq, decide_eq_false_iff_not, beq_eq_false_iff_ne] at h
  obtain ⟨-, hstart, hindicator⟩ := h
  refine ⟨hstart, fun hc => hindicator.resolve_left ?_⟩
  rintro ⟨⟨hquestion, hcolon⟩, hdash⟩
  rcases hc with rfl | rfl | rfl
  · exact hquestion rfl
  · exact hcolon rfl
  · exact hdash rfl

theorem startsPlain_of_not_mem {next : Option Char} (hgap : isGapOrEnd (some c) = false)
    (hstart : c ∉ specialStarts) (hnext : c = '?' ∨ c = ':' ∨ c = '-' → isGapOrEnd next = false) :
    startsPlain false c next = true := by
  have hall : "?:,[]\x7b\x7d#&*!|>'\"%@`".toList ⊆ '?' :: ':' :: specialStarts := by decide
  unfold startsPlain
  split
  · rename_i hc
    have hc : c = '?' ∨ c = ':' ∨ c = '-' := by
      simp only [Bool.or_eq_true, Bool.and_eq_true, beq_iff_eq] at hc
      rcases hc with hdash | ⟨-, hquestion | hcolon⟩
      · exact .inr (.inr hdash)
      · exact .inl hquestion
      · exact .inr (.inl hcolon)
    simp [hnext hc]
  · rename_i hc
    simp only [Bool.or_eq_true, Bool.and_eq_true, beq_iff_eq, not_or, not_and, Bool.not_false,
      true_implies] at hc
    have hcontains : c ∉ "?:,[]\x7b\x7d#&*!|>'\"%@`".toList := by
      intro hmem
      rcases List.mem_cons.mp (hall hmem) with hquestion | hmem
      · exact hc.2.1 hquestion
      rcases List.mem_cons.mp hmem with hcolon | hspecial
      · exact hc.2.2 hcolon
      · exact hstart hspecial
    rw [String.contains_char_eq, decide_eq_false hcontains, hgap]
    rfl

/-- A text that is written as it is starts like a plain scalar. -/
theorem exists_cons_of_isPlain (h : isPlain cs = true) (hescape : cs.any needsEscape = false) :
    ∃ c s, cs = c :: s ∧ isGapOrEnd (some c) = false ∧ c ∉ specialStarts ∧
      (c = '?' ∨ c = ':' ∨ c = '-' → isGapOrEnd s.head? = false) := by
  have hbody := plainBody_of_isPlain h hescape
  simp only [isPlain, Bool.and_eq_true, Bool.not_eq_true', bne_iff_ne] at h
  obtain ⟨⟨⟨⟨⟨-, hstarts⟩, -⟩, -⟩, hspace⟩, -⟩ := h
  cases cs with
  | nil => cases hstarts
  | cons c s =>
    obtain ⟨hstart, hnext⟩ := of_startsOtherwise_eq_false hstarts
    exact ⟨c, s, rfl, hbody.isGapOrEnd_eq_false (by simpa using hspace), hstart, hnext⟩

/-- A written text starts a scalar. -/
theorem exists_startsScalar_printScalar (column : Nat) (cs rest : List Char) :
    ∃ c s, printScalar column cs ++ rest = c :: s ∧ StartsScalar c s := by
  unfold printScalar
  split
  · rename_i hstyle
    obtain ⟨hescape, -⟩ := of_styleOf_ne_double (hstyle.trans_ne (by decide))
    obtain ⟨c, s, rfl, hgap, hstart, hnext⟩ :=
      exists_cons_of_isPlain (isPlain_of_styleOf hstyle) hescape
    have hspace : c ≠ ' ' := by
      rintro rfl
      cases hgap
    refine ⟨c, printPlain (column + 1) false s ++ rest, by simp [printPlain_cons_of_ne hspace],
      hgap, ?_, ?_⟩
    · exact fun hmem => hstart (marks_subset_specialStarts hmem)
    · intro hdash
      have hfollows := hnext (.inr (.inr hdash))
      rwa [head?_printPlain hfollows]
  · exact ⟨_, _, rfl, startsScalar_single _⟩
  · exact ⟨_, _, rfl, startsScalar_double _⟩

/-! ### Reading -/

theorem scalar_plain {text : List Char} {multiline : Bool} {next : Cursor} {v : Value}
    (hstart : c ∉ specialStarts) (hplain : startsPlain false c cs.head? = true)
    (hread : plain false indent ⟨c :: cs, position⟩ = (⟨text, multiline⟩, next))
    (hvalue : Plain.resolve text = some v) :
    scalar false indent ⟨c :: cs, position⟩ = some (v, multiline, next) := by
  have hsingle : c ≠ '\'' := by
    rintro rfl
    exact hstart (by decide)
  have hdouble : c ≠ '"' := by
    rintro rfl
    exact hstart (by decide)
  simp [scalar, hsingle, hdouble, hplain, hread, hvalue]

theorem scalar_single {text : List Char}
    (h : ReadsAs (singleQuoted ⟨'\'' :: cs, position⟩) text rest) :
    ∃ multiline position', scalar false indent ⟨'\'' :: cs, position⟩ =
      some (.text (String.ofList text), multiline, ⟨rest, position'⟩) := by
  obtain ⟨multiline, position', h⟩ := h
  exact ⟨multiline, position', by simp [scalar, h]⟩

theorem scalar_double {text : List Char}
    (h : ReadsAs (doubleQuoted ⟨'"' :: cs, position⟩) text rest) :
    ∃ multiline position', scalar false indent ⟨'"' :: cs, position⟩ =
      some (.text (String.ofList text), multiline, ⟨rest, position'⟩) := by
  obtain ⟨multiline, position', h⟩ := h
  exact ⟨multiline, position', by simp [scalar, h]⟩

/-- A text is read back in its style. -/
theorem scalar_printScalar (hcs : ComesBack cs) (hindent : indent < continuation)
    (hends : EndsPlainAt indent rest) (hquote : rest.head? ≠ some '\'') :
    ∃ multiline position', scalar false indent ⟨printScalar column cs ++ rest, position⟩ =
      some (.text (String.ofList cs), multiline, ⟨rest, position'⟩) := by
  unfold printScalar
  split
  · rename_i hstyle
    obtain ⟨hescape, -⟩ := of_styleOf_ne_double (hstyle.trans_ne (by decide))
    have hplain := isPlain_of_styleOf hstyle
    obtain ⟨c, s, rfl, hgap, hstart, hnext⟩ := exists_cons_of_isPlain hplain hescape
    have hspace : c ≠ ' ' := by
      rintro rfl
      cases hgap
    obtain ⟨multiline, position', hread⟩ := exists_plain_printPlain hindent
      (plainBody_of_isPlain hplain hescape) (List.cons_ne_nil c s) hends
    have hvalue := resolve_of_isText (isText_of_isPlain hplain)
    refine ⟨multiline, position', ?_⟩
    rw [printPlain_cons_of_ne hspace, List.cons_append] at hread ⊢
    refine scalar_plain hstart (startsPlain_of_not_mem hgap hstart fun hc => ?_) hread hvalue
    rw [head?_printPlain (hnext hc)]
    exact hnext hc
  · rename_i hstyle
    obtain ⟨hescape, happart⟩ := of_styleOf_ne_double (hstyle.trans_ne (by decide))
    have htab : '\t' ∉ cs := fun hmem => List.any_eq_false.mp hescape '\t' hmem rfl
    have hnext : '\u0085' ∉ cs := fun hmem => by simp [hcs hmem] at hstyle
    exact scalar_single (singleQuoted_printSingle happart htab hnext hquote)
  · exact scalar_double doubleQuoted_printDouble

/-- A text that does not come back is written between single quotes. -/
theorem styleOf_of_not_comesBack (h : ¬ ComesBack cs) :
    '\u0085' ∈ cs ∧ styleOf cs = .single := by
  obtain ⟨hnext, hdouble⟩ := Classical.not_imp.mp h
  cases hstyle : styleOf cs with
  | double => exact absurd hstyle hdouble
  | single => exact ⟨hnext, rfl⟩
  | plain =>
    have hbreak : cs.any isBreak = true := List.any_eq_true.mpr ⟨'\u0085', hnext, rfl⟩
    have hplain := isPlain_of_styleOf hstyle
    simp [isPlain, hbreak] at hplain

/-- A written text is read as some text, and as the same one exactly if it comes back. -/
theorem exists_scalar_printScalar (cs : List Char) (column position : Nat)
    (hindent : indent < continuation) (hends : EndsPlainAt indent rest)
    (hquote : rest.head? ≠ some '\'') :
    ∃ text multiline position', (text = cs ↔ ComesBack cs) ∧
      scalar false indent ⟨printScalar column cs ++ rest, position⟩ =
        some (.text (String.ofList text), multiline, ⟨rest, position'⟩) := by
  by_cases hcs : ComesBack cs
  · obtain ⟨multiline, position', hread⟩ := scalar_printScalar hcs hindent hends hquote
    exact ⟨cs, multiline, position', iff_of_true rfl hcs, hread⟩
  · obtain ⟨hnext, hstyle⟩ := styleOf_of_not_comesBack hcs
    obtain ⟨hescape, -⟩ := of_styleOf_ne_double (hstyle.trans_ne (by decide))
    have htab : '\t' ∉ cs := fun hmem => List.any_eq_false.mp hescape '\t' hmem rfl
    obtain ⟨text, htext, hread⟩ := exists_singleQuoted_printSingle_ne htab hnext hquote
    obtain ⟨multiline, position', hscalar⟩ := scalar_single hread
    refine ⟨text, multiline, position', iff_of_false htext hcs, ?_⟩
    rw [printScalar, hstyle]
    exact hscalar

/-! ### Characters of settings files -/

theorem isAllowed_of_needsEscape_eq_false (h : needsEscape c = false) : isAllowed c = true := by
  simp only [needsEscape, isAllowed, Bool.not_eq_false', Bool.or_eq_true, Bool.and_eq_true,
    beq_iff_eq, decide_eq_true_eq, bne_iff_ne] at h ⊢
  rcases h with (hfeed | hascii) | ⟨hother, -⟩
  · exact .inl (.inr hfeed)
  · exact .inr (.inl hascii)
  · right
    omega

theorem isAllowed_of_between {low high : Char} (h : low ≤ c ∧ c ≤ high) (hlow : 0x20 ≤ low.toNat)
    (hhigh : high.toNat ≤ 0x7E) : isAllowed c = true := by
  have hlower : low.toNat ≤ c.toNat := h.1
  have hupper : c.toNat ≤ high.toNat := h.2
  simp only [isAllowed, Bool.or_eq_true, decide_eq_true_eq]
  exact .inr (.inl ⟨hlow.trans hlower, hupper.trans hhigh⟩)

theorem isAllowed_of_hexValue? (h : (hexValue? c).isSome = true) : isAllowed c = true := by
  unfold hexValue? at h
  split at h
  · exact isAllowed_of_between ‹_› (by decide) (by decide)
  split at h
  · exact isAllowed_of_between ‹_› (by decide) (by decide)
  split at h
  · exact isAllowed_of_between ‹_› (by decide) (by decide)
  · cases h

theorem isAllowed_of_foldlM_hexStep {digits : List Char} {value n : Nat}
    (h : digits.foldlM hexStep value = some n) : ∀ d ∈ digits, isAllowed d = true := by
  induction digits generalizing value with
  | nil => simp
  | cons d digits ih =>
    rw [List.foldlM_cons, hexStep] at h
    cases hd : hexValue? d with
    | none => simp [hd] at h
    | some digit =>
      have hrest : digits.foldlM hexStep (16 * value + digit) = some n := by simpa [hd] using h
      exact List.forall_mem_cons.mpr ⟨isAllowed_of_hexValue? (by simp [hd]), ih hrest⟩

theorem isAllowed_of_mem_margin : ∀ d ∈ margin, isAllowed d = true :=
  List.all_eq_true.mp (by decide)

theorem isAllowed_of_mem_ite (p : Prop) [Decidable p] (hc : isAllowed c = true) :
    ∀ d ∈ (if p then [c] else []), isAllowed d = true := by
  split
  · exact List.forall_mem_singleton.mpr hc
  · simp

theorem isAllowed_of_mem_printPlain {afterSpace : Bool} (h : ∀ d ∈ cs, isAllowed d = true) :
    ∀ d ∈ printPlain column afterSpace cs, isAllowed d = true := by
  induction cs generalizing column afterSpace with
  | nil => simp [printPlain]
  | cons c cs ih =>
    rw [List.forall_mem_cons] at h
    rw [printPlain]
    split
    · rw [List.cons_append, List.forall_mem_cons, List.forall_mem_append]
      exact ⟨rfl, isAllowed_of_mem_margin, ih h.2⟩
    · exact List.forall_mem_cons.mpr ⟨h.1, ih h.2⟩

theorem isAllowed_of_mem_printSingle {before : Before} (h : ∀ d ∈ cs, isAllowed d = true) :
    ∀ d ∈ printSingle column before cs, isAllowed d = true := by
  induction cs generalizing column before with
  | nil => simpa [printSingle] using (by decide : isAllowed '\'' = true)
  | cons c cs ih =>
    rw [List.forall_mem_cons] at h
    have hextra : ∀ d ∈ (if before ≠ .break ∧ c = '\n' then ['\n'] else []), isAllowed d = true :=
      isAllowed_of_mem_ite _ rfl
    rw [printSingle]
    split
    · exact List.forall_mem_cons.mpr ⟨rfl, List.forall_mem_cons.mpr ⟨rfl, ih h.2⟩⟩
    split
    · dsimp only
      split
      · rw [List.forall_mem_append, List.forall_mem_cons]
        exact ⟨hextra, h.1, ih h.2⟩
      · rw [List.append_assoc, List.forall_mem_append, List.cons_append, List.forall_mem_cons,
          List.forall_mem_append]
        exact ⟨hextra, h.1, isAllowed_of_mem_margin, ih h.2⟩
    split
    · split
      · rw [List.cons_append, List.forall_mem_cons, List.forall_mem_append]
        exact ⟨rfl, isAllowed_of_mem_margin, ih h.2⟩
      · exact List.forall_mem_cons.mpr ⟨rfl, ih h.2⟩
    · exact List.forall_mem_cons.mpr ⟨h.1, ih h.2⟩

theorem isAllowed_of_mem_letters : ∀ p ∈ letters, isAllowed p.2 = true := by decide

theorem isAllowed_of_mem_escape {text : List Char} (h : escape? c = some text) :
    ∀ d ∈ text, isAllowed d = true := by
  have hcode (mark : Char) (hmark : isAllowed mark = true) (k : Nat) :
      ∀ d ∈ '\\' :: mark :: capitalHex k c.toNat, isAllowed d = true :=
    List.forall_mem_cons.mpr ⟨rfl, List.forall_mem_cons.mpr ⟨hmark,
      isAllowed_of_foldlM_hexStep (foldlM_hexStep_capitalHex k c.toNat)⟩⟩
  unfold escape? at h
  split at h
  · rename_i letter hletter
    cases h
    obtain ⟨before, after, hletters, -⟩ := List.lookup_eq_some_iff.mp hletter
    have hallowed := isAllowed_of_mem_letters (c, letter) (by rw [hletters]; simp)
    simpa using ⟨(rfl : isAllowed '\\' = true), hallowed⟩
  · dsimp only at h
    split at h
    · cases h
    split at h
    · cases h
      exact hcode 'x' rfl 2
    split at h
    · cases h
      exact hcode 'u' rfl 4
    · cases h
      exact hcode 'U' rfl 8

theorem isAllowed_of_escape?_eq_none (h : escape? c = none) : isAllowed c = true := by
  unfold escape? at h
  split at h
  · cases h
  · dsimp only at h
    split at h
    · rename_i hshown
      simp only [isAllowed, Bool.or_eq_true, decide_eq_true_eq]
      right
      omega
    split at h
    · cases h
    split at h
    · cases h
    · cases h

theorem isAllowed_of_mem_printDouble {first afterEscape : Bool} :
    ∀ d ∈ printDouble column first afterEscape cs, isAllowed d = true := by
  induction cs generalizing column first afterEscape with
  | nil => simpa [printDouble] using (by decide : isAllowed '"' = true)
  | cons c cs ih =>
    have hlead (p : Prop) [Decidable p] : ∀ d ∈ (if p then ['\\'] else []), isAllowed d = true :=
      isAllowed_of_mem_ite p rfl
    rw [printDouble]
    cases hescape : escape? c with
    | some text =>
      have htext := isAllowed_of_mem_escape hescape
      dsimp only
      split
      · simp only [List.forall_mem_append, List.forall_mem_cons]
        exact ⟨⟨⟨htext, rfl, rfl, isAllowed_of_mem_margin⟩, hlead _⟩, ih⟩
      · exact List.forall_mem_append.mpr ⟨htext, ih⟩
    | none =>
      have hc := isAllowed_of_escape?_eq_none hescape
      dsimp only
      split
      · simp only [List.cons_append, List.forall_mem_append, List.forall_mem_cons]
        exact ⟨rfl, rfl, ⟨isAllowed_of_mem_margin, hlead _⟩, hc, ih⟩
      · exact List.forall_mem_cons.mpr ⟨hc, ih⟩

/-- A written text can stand in a settings file. -/
theorem isAllowed_of_mem_printScalar : ∀ d ∈ printScalar column cs, isAllowed d = true := by
  have hshown (h : styleOf cs ≠ .double) : ∀ d ∈ cs, isAllowed d = true := fun d hd =>
    isAllowed_of_needsEscape_eq_false
      (Bool.eq_false_iff.mpr (List.any_eq_false.mp (of_styleOf_ne_double h).1 d hd))
  unfold printScalar
  split
  · rename_i hstyle
    exact isAllowed_of_mem_printPlain (hshown (by simp [hstyle]))
  · rename_i hstyle
    exact List.forall_mem_cons.mpr
      ⟨rfl, isAllowed_of_mem_printSingle (hshown (by simp [hstyle]))⟩
  · exact List.forall_mem_cons.mpr ⟨rfl, isAllowed_of_mem_printDouble⟩

end Delimited.Yaml
