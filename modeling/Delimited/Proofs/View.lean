import Delimited.View
import Mathlib.Data.List.Basic

/-!
# Views between two texts

A view whose offset lies in its text stands between what was read and what is
left. Written that way, every question to the view is a question to the list of
characters that are left, and the arithmetic of offsets disappears.

## Main definitions

* `View.Within`: the offset lies in the text, both ends included.
* `View.between`: the view with one text before it and one after it.

## Main results

* `View.between_before_rest`: every view within its text is such a view.
* `View.peek_between`, `View.nonempty_between`, `View.startsWith_between`,
  `View.advance_between`: the questions to it and its moves.
-/

namespace Delimited.View

/-- The offset lies in the text, both ends included. -/
def Within (v : View) : Prop := 0 ≤ v.offset ∧ v.offset ≤ v.text.size

instance (v : View) : Decidable v.Within := inferInstanceAs (Decidable (_ ∧ _))

/-- The view with `before` behind it and `rest` ahead of it. -/
def between (before rest : List Char) : View := ⟨(before ++ rest).toArray, before.length⟩

variable {v : View} {before rest s t : List Char} {c : Char}

@[simp] theorem text_between : (between before rest).text = (before ++ rest).toArray := rfl

@[simp] theorem offset_between : (between before rest).offset = before.length := rfl

@[simp] theorem size_between : (between before rest).size = rest.length := by
  simp only [size, text_between, offset_between, List.size_toArray, List.length_append]
  omega

theorem within_between (before rest : List Char) : (between before rest).Within := by
  simp only [Within, offset_between, text_between, List.size_toArray, List.length_append]
  omega

@[simp] theorem start_between : (between before rest).start = before.length := by
  have h : ¬ (before.length : Int) < 0 := by omega
  simp [start, cut, h]

@[simp] theorem before_between : (between before rest).before = before := by
  simp [View.before]

@[simp] theorem rest_between : (between before rest).rest = rest := by
  simp [View.rest]

theorem start_eq_of_within (h : v.Within) : (v.start : Int) = v.offset := by
  obtain ⟨hlo, hhi⟩ := h
  simp only [start, cut]
  split <;> omega

/-- A view within its text stands between what precedes its offset and the rest. -/
theorem between_before_rest (h : v.Within) : between v.before v.rest = v := by
  have hstart := start_eq_of_within h
  have hlen : v.before.length = v.start := by
    have hhi := h.2
    simp only [View.before, List.length_take, Array.length_toList]
    omega
  cases v with
  | mk text offset =>
    simp only [between, mk.injEq, hlen, hstart, and_true]
    simp [View.before, View.rest]

theorem between_injective (h : between before rest = between s t) : before = s ∧ rest = t :=
  ⟨by simpa using congrArg View.before h, by simpa using congrArg View.rest h⟩

theorem ofString_zero (s : String) : ofString s = between [] s.toList := rfl

theorem ofString_length (s : String) : ofString s s.length = between s.toList [] := by
  simp [ofString, between, String.length_toList]

/-! ### Questions and moves -/

@[simp] theorem length_between : (between before rest).length = .ok rest.length := by
  simp [length]

@[simp] theorem nonempty_between_nil : (between before []).nonempty = .ok false := by
  simp [nonempty, Except.map]

theorem nonempty_between (h : rest ≠ []) : (between before rest).nonempty = .ok true := by
  simp [nonempty, Except.map, h]

@[simp] theorem peek_between : (between before rest).peek = .ok rest.head? := by
  have h : ¬ (before.length : Int) < 0 := by omega
  simp [peek, h, List.head?_eq_getElem?, List.getElem?_append_right]

/-- Moving over `s` puts it behind the view. -/
theorem advance_between (before s t : List Char) :
    (between before (s ++ t)).advance s.length = between (before ++ s) t := by
  simp only [advance, between, mk.injEq, List.append_assoc, true_and, List.size_toArray,
    List.length_append]
  omega

@[simp] theorem advance_between_cons :
    (between before (c :: t)).advance 1 = between (before ++ [c]) t :=
  advance_between before [c] t

theorem standsAt_between (cs before rest : List Char) :
    standsAt (before ++ rest).toArray before.length cs = cs.isPrefixOf rest := by
  induction cs generalizing before rest with
  | nil => simp [standsAt]
  | cons c cs ih =>
    cases rest with
    | nil => simp [standsAt]
    | cons d rest =>
      -- The induction moves the first character of the rest behind the view.
      have hstep := ih (before ++ [d]) rest
      simp only [List.append_assoc, List.singleton_append, List.length_append,
        List.length_singleton] at hstep
      simp only [standsAt, hstep, List.isPrefixOf_cons_cons]
      simp [Bool.beq_comm]

/-- A text begins at the view when it begins the rest. -/
theorem startsWith_between (cs : List Char) :
    (between before rest).startsWith cs = cs.isPrefixOf rest := by
  have hhi := (within_between before rest).2
  simp only [startsWith, hhi, decide_true, Bool.true_and, start_between]
  exact standsAt_between cs before rest

/-! ### Lines and columns -/

theorem lastLine_lf (cs : List Char) : lastLine (cs ++ ['\n']) = [] := by
  simp [lastLine]

theorem lastLine_append (cs : List Char) (h : c ≠ '\n') :
    lastLine (cs ++ [c]) = lastLine cs ++ [c] := by
  simp [lastLine, h]

theorem length_lastLine_le (cs : List Char) : (lastLine cs).length ≤ cs.length := by
  have h := (List.takeWhile_sublist (l := cs.reverse) (· != '\n')).length_le
  simpa [lastLine] using h

/-- The line is one more than the line feeds behind the view, and the column one
more than the characters behind it on its line. -/
theorem location_between :
    (between before rest).location =
      ((before.count '\n' : Int) + 1, ((lastLine before).length : Int) + 1) := by
  have h := length_lastLine_le before
  simp only [location, before_between, offset_between, Prod.mk.injEq, true_and]
  omega

end Delimited.View
