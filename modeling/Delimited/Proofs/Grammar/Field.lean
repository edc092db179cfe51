import Delimited.Proofs.Grammar.Encoding
import Delimited.Proofs.Reading
import Mathlib.Data.List.TakeWhile

/-!
# Reading a field

What stands after a quote is either closed, by the first quote that is not one
of two, or goes on to the end of the text. With that, what a field reads is
known of every text: the quoted form when it is closed, nothing when it is not,
and the characters up to the next special one when there is no quote.

## Main definitions

* `Grammar.FieldShape`: the shapes a text may have where a field is read.

## Main results

* `Grammar.fieldShape`: every text has one of these shapes.
* `Grammar.reads_field_quoted`, `Grammar.reads_field_open`, `Grammar.reads_field_bare`:
  what a field reads in each case.
* `Grammar.exists_reads_field`: a field is never rejected, and reads an encoding.
* `Grammar.FieldEnc.reads`: an encoding is read where a comma, a line break or
  nothing follows it.
-/

namespace Delimited.Grammar

open Delimited.Parser

variable {s t l : List Char} {v : String} {c : Char}

/-! ### Special characters and doubled quotes -/

theorem isSpecial_eq_true_iff : isSpecial c = true ↔ c ∈ [',', '"', '\r', '\n'] := by
  simp [isSpecial, or_assoc]

theorem isSpecial_eq_false_iff : isSpecial c = false ↔ c ∉ [',', '"', '\r', '\n'] := by
  rw [← isSpecial_eq_true_iff, Bool.not_eq_true]

@[simp] theorem doubled_nil : Writer.doubled [] = [] := rfl

@[simp] theorem doubled_quote (cs : List Char) :
    Writer.doubled ('"' :: cs) = '"' :: '"' :: Writer.doubled cs := rfl

theorem doubled_cons (h : c ≠ '"') (cs : List Char) :
    Writer.doubled (c :: cs) = c :: Writer.doubled cs := by
  simp [Writer.doubled, h]

/-- A text after a quote is closed by a quote that no other follows, or holds
doubled quotes only, up to its end. -/
theorem exists_closed_or_open : ∀ l : List Char,
    (∃ cs t, l = Writer.doubled cs ++ '"' :: t ∧ '"' ∉ t.head?) ∨ ∃ cs, l = Writer.doubled cs
  | [] => .inr ⟨[], rfl⟩
  | [c] => by
    -- A last quote closes, having nothing behind it to be doubled by.
    by_cases hc : c = '"'
    · exact .inl ⟨[], [], by simp [hc], by simp⟩
    · exact .inr ⟨[c], by simp [doubled_cons hc]⟩
  | c :: d :: l => by
    -- A doubled quote takes both characters, anything else only the first.
    by_cases hc : c = '"'
    · subst hc
      by_cases hd : d = '"'
      · subst hd
        rcases exists_closed_or_open l with ⟨cs, t, rfl, ht⟩ | ⟨cs, rfl⟩
        · exact .inl ⟨'"' :: cs, t, rfl, ht⟩
        · exact .inr ⟨'"' :: cs, rfl⟩
      · exact .inl ⟨[], d :: l, rfl, by simpa using hd⟩
    · rcases exists_closed_or_open (d :: l) with ⟨cs, t, heq, ht⟩ | ⟨cs, heq⟩
      · exact .inl ⟨c :: cs, t, by simp [doubled_cons hc, heq], ht⟩
      · exact .inr ⟨c :: cs, by simp [doubled_cons hc, heq]⟩

/-- The shapes a text may have where a field is read. -/
inductive FieldShape : List Char → Prop where
  /-- A quoted field that is closed. -/
  | closed (cs : List Char) {t : List Char} (next : '"' ∉ t.head?) :
      FieldShape ('"' :: Writer.doubled cs ++ '"' :: t)
  /-- A quoted field that is not closed. -/
  | unclosed (cs : List Char) : FieldShape ('"' :: Writer.doubled cs)
  /-- No quote, and the characters up to the next special one. -/
  | bare {s t : List Char} (start : '"' ∉ (s ++ t).head?) (plain : ∀ c ∈ s, isSpecial c = false)
      (next : ∀ c ∈ t.head?, isSpecial c = true) : FieldShape (s ++ t)

theorem fieldShape (l : List Char) : FieldShape l := by
  by_cases hstart : '"' ∈ l.head?
  · obtain ⟨l, rfl⟩ := List.head?_eq_some_iff.mp hstart
    rcases exists_closed_or_open l with ⟨cs, t, rfl, ht⟩ | ⟨cs, rfl⟩
    · exact .closed cs ht
    · exact .unclosed cs
  · -- Without a quote in front, the text is cut at its first special character.
    have hsplit : l.takeWhile (!isSpecial ·) ++ l.dropWhile (!isSpecial ·) = l :=
      List.takeWhile_append_dropWhile
    rw [← hsplit] at hstart ⊢
    refine .bare hstart (fun c hc => ?_) (fun c hc => ?_)
    · simpa using List.mem_takeWhile_imp hc
    · have hstop := List.head?_dropWhile_not (!isSpecial ·) l
      rw [Option.mem_def.mp hc] at hstop
      simpa using hstop

/-! ### Between quotes -/

theorem reads_quotedChar (h : c ≠ '"') (t : List Char) : quotedChar.run.Reads [c] c t :=
  ((reads_anyChar c t).filter (by simpa using h)).orElse

private theorem quotedChar_eq (h : '"' ∈ l.head? ∨ l = []) (before : List Char) :
    quotedChar.run (.between before l) = (dquote.left dquote).run (.between before l) := by
  cases l with
  | nil => exact anyChar_rejects_nil.filter.orElse_eq rfl before
  | cons c l =>
    obtain rfl : c = '"' := by simpa using h
    exact ((reads_anyChar '"' l).filter_rejects (by decide)).orElse_eq rfl before

theorem reads_quotedChar_doubled (t : List Char) :
    quotedChar.run.Reads ['"', '"'] '"' t := by
  intro before
  rw [quotedChar_eq (by simp)]
  exact ((reads_char '"' ('"' :: t)).pair (reads_char '"' t)).map Prod.fst before

/-- A single quote is no character between quotes, and neither is the end. -/
theorem quotedChar_rejects (h : l = [] ∨ ∃ t, l = '"' :: t ∧ '"' ∉ t.head?) :
    ∃ c : Code, c.isHard = false ∧ quotedChar.run.Rejects [] c l := by
  rcases h with rfl | ⟨t, rfl, ht⟩
  · refine ⟨.endOfInput, rfl, fun before => ?_⟩
    rw [List.nil_append, quotedChar_eq (by simp)]
    exact (char_rejects_nil '"').pair.map Prod.fst before
  · -- The first quote is read, and the rejection of the second undoes that.
    cases t with
    | nil =>
      refine ⟨.endOfInput, rfl, fun before => ?_⟩
      rw [List.nil_append, quotedChar_eq (by simp)]
      exact ((reads_char '"' []).pair_rejects (char_rejects_nil '"')).map Prod.fst before
    | cons d t =>
      have hd : d ≠ '"' := by simpa [eq_comm] using ht
      refine ⟨.char "\"", rfl, fun before => ?_⟩
      rw [List.nil_append, quotedChar_eq (by simp)]
      exact ((reads_char '"' (d :: t)).pair_rejects (char_rejects_cons hd)).map Prod.fst before

/-- Between quotes the doubled form of a text is read as the text. -/
theorem reads_many_quotedChar (cs : List Char)
    (h : l = [] ∨ ∃ t, l = '"' :: t ∧ '"' ∉ t.head?) :
    quotedChar.many.run.Reads (Writer.doubled cs) cs l := by
  -- Each character of the field is one turn, whether it takes one or two in the text.
  induction cs with
  | nil =>
    obtain ⟨c, hc, hrejects⟩ := quotedChar_rejects h
    exact hrejects.many_nil hc
  | cons c cs ih =>
    by_cases hc : c = '"'
    · subst hc
      exact (reads_quotedChar_doubled _).many_cons (by simp) ih
    · rw [doubled_cons hc]
      exact (reads_quotedChar hc _).many_cons (by simp) ih

/-! ### Quoted fields -/

/-- A closed quoted field is read up to its closing quote. -/
theorem reads_escaped (cs : List Char) (ht : '"' ∉ t.head?) :
    escaped.run.Reads ('"' :: Writer.doubled cs ++ ['"']) (String.ofList cs) t := by
  have hbody := reads_many_quotedChar cs (.inr ⟨t, rfl, ht⟩)
  have hclosed := (hbody.pair (reads_char '"' t)).map Prod.fst
  exact (((reads_char '"' _).pair hclosed).map Prod.snd).map String.ofList

theorem escaped_rejects_open (cs : List Char) :
    escaped.run.Rejects [] .endOfInput ('"' :: Writer.doubled cs) := by
  have hbody := reads_many_quotedChar cs (.inl rfl)
  have hopen := (hbody.pair_rejects (char_rejects_nil '"')).map Prod.fst
  rw [List.nil_append, List.append_nil] at hopen
  exact (((reads_char '"' _).pair_rejects hopen).map Prod.snd).map String.ofList

/-- Where no quote stands, no quoted field does. What is reported tells the end
of the text from other characters. -/
theorem escaped_rejects (h : '"' ∉ l.head?) :
    escaped.run.Rejects [] (if l = [] then .endOfInput else .char "\"") l := by
  cases l with
  | nil => exact ((char_rejects_nil '"').pair.map Prod.snd).map String.ofList
  | cons c l =>
    have hc : c ≠ '"' := by simpa [eq_comm] using h
    exact ((char_rejects_cons hc).pair.map Prod.snd).map String.ofList

/-! ### Bare fields -/

/-- Outside quotes the characters up to a special one are read. -/
theorem reads_nonEscaped (hs : ∀ c ∈ s, isSpecial c = false)
    (ht : ∀ c ∈ t.head?, isSpecial c = true) :
    nonEscaped.run.Reads s (String.ofList s) t := by
  refine Step.Reads.map String.ofList ?_
  -- The repetition is followed over `s`, and ends with the special character behind it.
  induction s with
  | nil =>
    cases t with
    | nil => exact anyChar_rejects_nil.filter.many_nil rfl
    | cons c t =>
      have hc : (!isSpecial c) = false := by simp [ht c rfl]
      exact ((reads_anyChar c t).filter_rejects hc).many_nil rfl
  | cons c s ih =>
    have hc : (!isSpecial c) = true := by simp [hs c (by simp)]
    have hrest := ih fun d hd => hs d (List.mem_cons_of_mem c hd)
    exact ((reads_anyChar c (s ++ t)).filter hc).many_cons (by simp) hrest

/-! ### Fields -/

theorem reads_field_quoted (v : String) (ht : '"' ∉ t.head?) :
    field.run.Reads ('"' :: Writer.doubled v.toList ++ ['"']) v t := by
  have hread := reads_escaped v.toList ht
  rw [String.ofList_toList] at hread
  exact hread.orElse

private theorem field_eq {c : Code} (h : escaped.run.Rejects [] c l) (hc : c.isHard = false)
    (before : List Char) :
    field.run (.between before l) = nonEscaped.run (.between before l) :=
  h.orElse_eq hc before

/-- A quoted field that is not closed is read as an empty one. -/
theorem reads_field_open (cs : List Char) :
    field.run.Reads [] "" ('"' :: Writer.doubled cs) := by
  intro before
  -- The quote itself is special, so nothing is read outside quotes either.
  have hempty : nonEscaped.run.Reads [] "" ('"' :: Writer.doubled cs) :=
    reads_nonEscaped (by simp) (by simp [isSpecial])
  rw [List.nil_append, field_eq (escaped_rejects_open cs) rfl]
  exact hempty before

theorem reads_field_bare (hstart : '"' ∉ (s ++ t).head?) (hs : ∀ c ∈ s, isSpecial c = false)
    (ht : ∀ c ∈ t.head?, isSpecial c = true) : field.run.Reads s (String.ofList s) t := by
  intro before
  have hsoft : (if s ++ t = [] then Code.endOfInput else .char "\"").isHard = false := by
    split <;> rfl
  rw [field_eq (escaped_rejects hstart) hsoft]
  exact reads_nonEscaped hs ht before

/-- A field is never rejected, and what it reads encodes what it gives. -/
theorem exists_reads_field (l : List Char) :
    ∃ s v t, l = s ++ t ∧ FieldEnc s v ∧ field.run.Reads s v t := by
  cases fieldShape l with
  | @closed cs t next =>
    refine ⟨'"' :: Writer.doubled cs ++ ['"'], String.ofList cs, t, by simp, ?_, ?_⟩
    · simpa using FieldEnc.quoted (String.ofList cs)
    · simpa using reads_field_quoted (String.ofList cs) next
  | unclosed cs =>
    have hbare : FieldEnc "".toList "" := .bare (by simp)
    exact ⟨[], "", _, rfl, hbare, reads_field_open cs⟩
  | @bare s t start plain next =>
    refine ⟨s, String.ofList s, t, rfl, ?_, reads_field_bare start plain next⟩
    have hbare := FieldEnc.bare (v := String.ofList s)
    rw [String.toList_ofList] at hbare
    exact hbare fun c hc => isSpecial_eq_false_iff.mp (plain c hc)

/-- An encoding of a field is read where a comma, a line break or nothing follows. -/
theorem FieldEnc.reads (h : FieldEnc s v) (ht : ∀ c ∈ t.head?, c ∈ [',', '\r', '\n']) :
    field.run.Reads s v t := by
  have hquote : '"' ∉ t.head? := fun hc => by simpa using ht _ hc
  cases h with
  | quoted => exact reads_field_quoted v hquote
  | bare hv =>
    have hplain : ∀ c ∈ v.toList, isSpecial c = false := fun c hc =>
      isSpecial_eq_false_iff.mpr (hv c hc)
    have hspecial : ∀ c ∈ t.head?, isSpecial c = true := by
      intro c hc
      have hmem := ht c hc
      rw [isSpecial_eq_true_iff]
      simp only [List.mem_cons, List.not_mem_nil, or_false] at hmem ⊢
      tauto
    -- The first character is that of the field or, for an empty field, what follows.
    have hstart : '"' ∉ (v.toList ++ t).head? := by
      cases hl : v.toList with
      | nil => simpa using hquote
      | cons c cs =>
        intro hc
        obtain rfl : c = '"' := by simpa using hc
        exact hv '"' (by simp [hl]) (by simp)
    simpa using reads_field_bare hstart hplain hspecial

end Delimited.Grammar
