import Delimited.Path
import Mathlib.Data.List.Basic

/-!
# Paths as texts

The text of a path is read as that path, so a path can be handed on as a text.
A name that holds no slash, as the name of a table plus an ending, is one step
below the path it is joined to.

## Main definitions

* `Path.IsName`: the texts that are one name of a path.
* `Path.WellFormed`: the paths that texts are read as.

## Main results

* `Path.wellFormed_ofString`: a text is read as a well-formed path.
* `Path.ofString_toString`: the text of a well-formed path is read as that path.
* `Path.join_eq`: joining a name adds it at the end.
* `Path.isName_stem`: a stem is a name, unless it is a dot.
-/

namespace Delimited.Path

/-- A text that is one name of a path. -/
def IsName (s : String) : Prop := s ≠ "" ∧ s ≠ "." ∧ '/' ∉ s.toList

/-- A path as texts are read: with a root that is kept, and with names only. -/
structure WellFormed (p : Path) : Prop where
  /-- The root is one of the three. -/
  root_mem : p.root ∈ ["", "/", "//"]
  /-- The parts are names. -/
  isName : ∀ s ∈ p.parts, IsName s

variable {p : Path} {s : String}

/-! ### Splitting at slashes -/

theorem splitSlash_eq_splitOn (cs : List Char) : splitSlash cs = cs.splitOn '/' := by
  induction cs with
  | nil => rfl
  | cons c cs ih =>
    rw [splitSlash, ih, List.splitOn_cons_eq_if_modifyHead]
    cases hparts : cs.splitOn '/' with
    | nil => exact absurd hparts (List.splitOn_ne_nil '/' cs)
    | cons part parts => simp

theorem slash_notMem_of_mem_splitSlash {cs part : List Char} (h : part ∈ splitSlash cs) :
    '/' ∉ part := by
  induction cs generalizing part with
  | nil =>
    obtain rfl : part = [] := by simpa [splitSlash] using h
    simp
  | cons c cs ih =>
    rw [splitSlash] at h
    split at h
    · rcases List.mem_cons.mp h with rfl | h
      · simp
      · exact ih h
    · rename_i hc
      cases hparts : splitSlash cs with
      | nil =>
        obtain rfl : part = [c] := by simpa [hparts] using h
        simpa using Ne.symm hc
      | cons first others =>
        rw [hparts] at h
        rcases List.mem_cons.mp h with rfl | h
        · have hfirst : '/' ∉ first := ih (by simp [hparts])
          simpa [hfirst] using Ne.symm hc
        · exact ih (by simp [hparts, h])

/-! ### Reading paths -/

/-- The names among the parts of a text between slashes. -/
def namesOf (parts : List (List Char)) : List String :=
  (parts.map String.ofList).filter fun s => s ≠ "" && s ≠ "."

theorem ofString_eq (t : String) :
    ofString t = ⟨rootOf (t.toList.takeWhile (· == '/')).length, namesOf (splitSlash t.toList)⟩ :=
  rfl

theorem isName_of_mem_namesOf {cs : List Char} (h : s ∈ namesOf (splitSlash cs)) : IsName s := by
  simp only [namesOf, List.mem_filter, List.mem_map, Bool.and_eq_true, decide_eq_true_eq] at h
  obtain ⟨⟨part, hpart, rfl⟩, hempty, hdot⟩ := h
  exact ⟨hempty, hdot, by simpa using slash_notMem_of_mem_splitSlash hpart⟩

@[simp] theorem namesOf_nil_cons (parts : List (List Char)) :
    namesOf ([] :: parts) = namesOf parts := by
  simp [namesOf]

theorem namesOf_map_toList {names : List String} (h : ∀ s ∈ names, IsName s) :
    namesOf (names.map String.toList) = names := by
  have hmap : (names.map String.toList).map String.ofList = names := by simp [Function.comp_def]
  rw [namesOf, hmap, List.filter_eq_self]
  intro s hs
  simpa using ⟨(h s hs).1, (h s hs).2.1⟩

theorem rootOf_mem (n : Nat) : rootOf n ∈ ["", "/", "//"] := by
  unfold rootOf
  split <;> simp

/-- A text is read as a well-formed path. -/
theorem wellFormed_ofString (t : String) : (ofString t).WellFormed :=
  ⟨rootOf_mem _, fun _ => isName_of_mem_namesOf⟩

/-! ### The text of a path -/

/-- The names of a path with slashes between them. -/
def body (names : List String) : List Char := ['/'].intercalate (names.map String.toList)

theorem toList_toString (h : ¬ (p.root = "" ∧ p.parts = [])) :
    (toString p).toList = p.root.toList ++ body p.parts := by
  change (Path.toString p).toList = _
  rw [Path.toString, if_neg h, String.toList_append, String.toList_intercalate]
  rfl

theorem head?_body_ne {names : List String} (h : ∀ s ∈ names, IsName s) :
    (body names).head? ≠ some '/' := by
  cases names with
  | nil => simp [body]
  | cons s names =>
    obtain ⟨hempty, -, hslash⟩ := h s (by simp)
    cases hs : s.toList with
    | nil => exact absurd (by simpa using hs) hempty
    | cons c cs =>
      have hc : c ≠ '/' := by
        rintro rfl
        simp [hs] at hslash
      cases names <;> simpa [body, hs] using hc

theorem takeWhile_slash_body {names : List String} (h : ∀ s ∈ names, IsName s) :
    (body names).takeWhile (· == '/') = [] := by
  have hhead := head?_body_ne h
  cases hbody : body names with
  | nil => rfl
  | cons c cs =>
    rw [hbody, List.head?_cons, ne_eq, Option.some.injEq] at hhead
    simp [hhead]

theorem namesOf_splitSlash_body {names : List String} (h : ∀ s ∈ names, IsName s) :
    namesOf (splitSlash (body names)) = names := by
  cases names with
  | nil => rfl
  | cons s names =>
    have hslash : ∀ part ∈ (s :: names).map String.toList, '/' ∉ part := by
      simp only [List.mem_map]
      rintro _ ⟨t, ht, rfl⟩
      exact (h t ht).2.2
    rw [splitSlash_eq_splitOn, body, List.splitOn_intercalate '/' hslash (by simp),
      namesOf_map_toList h]

/-- The text of a well-formed path is read as that path. -/
theorem ofString_toString (h : p.WellFormed) : ofString (toString p) = p := by
  obtain ⟨hroot, hnames⟩ := h
  by_cases hdot : p.root = "" ∧ p.parts = []
  · -- The working directory is written as a dot.
    obtain ⟨root, parts⟩ := p
    obtain ⟨rfl, rfl⟩ := hdot
    rfl
  · rw [ofString_eq, toList_toString hdot]
    obtain ⟨root, parts⟩ := p
    simp only [List.mem_cons, List.not_mem_nil, or_false] at hroot
    -- The slashes of a root leave empty parts, which are no names.
    rcases hroot with rfl | rfl | rfl
    · simp [takeWhile_slash_body hnames, namesOf_splitSlash_body hnames, rootOf]
    · simp [takeWhile_slash_body hnames, namesOf_splitSlash_body hnames, rootOf, splitSlash]
    · simp [takeWhile_slash_body hnames, namesOf_splitSlash_body hnames, rootOf, splitSlash]

/-! ### Below a path -/

theorem ofString_of_isName (h : IsName s) : ofString s = ⟨"", [s]⟩ := by
  have hbody : body [s] = s.toList := by simp [body]
  have hnames : ∀ t ∈ [s], IsName t := by simpa using h
  have hroot := takeWhile_slash_body hnames
  have hparts := namesOf_splitSlash_body hnames
  rw [hbody] at hroot hparts
  rw [ofString_eq, hroot, hparts]
  rfl

/-- Joining a name adds it at the end. -/
theorem join_eq (h : IsName s) : p.join s = { p with parts := p.parts ++ [s] } := by
  simp [join, ofString_of_isName h]

theorem WellFormed.join (hp : p.WellFormed) (h : IsName s) : (p.join s).WellFormed := by
  rw [join_eq h]
  refine ⟨hp.root_mem, fun t ht => ?_⟩
  rcases List.mem_append.mp ht with ht | ht
  · exact hp.isName t ht
  · rw [List.mem_singleton.mp ht]
    exact h

/-! ### Stems -/

/-- A stem is the name, or a part of it that is not empty. -/
theorem stemOf_eq (s : String) :
    stemOf s = s ∨ ∃ cs : List Char, stemOf s = String.ofList cs ∧ cs ≠ [] ∧ cs ⊆ s.toList := by
  simp only [stemOf]
  split
  · rename_i rest hrest
    split_ifs with hends
    · exact .inl rfl
    · rw [not_or] at hends
      refine .inr ⟨rest.reverse, rfl, by simpa using hends.2, fun c hc => ?_⟩
      have hdrop : c ∈ s.toList.reverse.drop _ :=
        hrest ▸ List.mem_cons_of_mem _ (List.mem_reverse.mp hc)
      exact List.mem_reverse.mp (List.mem_of_mem_drop hdrop)
  · exact .inl rfl

/-- The stem of a path with names is a name, unless it is a dot. -/
theorem isName_stem (hp : p.WellFormed) (hparts : p.parts ≠ []) (hdot : p.stem ≠ ".") :
    IsName p.stem := by
  have hname : IsName p.name := by
    rw [name, List.getLastD_eq_getLast?, List.getLast?_eq_some_getLast hparts, Option.getD_some]
    exact hp.isName _ (List.getLast_mem hparts)
  obtain ⟨hempty, -, hslash⟩ := hname
  rw [stem] at hdot ⊢
  rcases stemOf_eq p.name with heq | ⟨cs, heq, hcs, hsub⟩
  · rw [heq] at hdot ⊢
    exact ⟨hempty, hdot, hslash⟩
  · refine ⟨?_, hdot, ?_⟩
    · rw [heq]
      simpa using hcs
    · rw [heq, String.toList_ofList]
      exact fun hmem => hslash (hsub hmem)

end Delimited.Path
