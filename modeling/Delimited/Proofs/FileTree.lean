import Delimited.FileTree.Basic
import Mathlib.Data.List.Basic
import Mathlib.Tactic.Core

/-!
# Reading what was stored

Storing a file changes what stands at one location and nothing else. It never
replaces a directory, so paths that led somewhere before still lead there, and
what was stored is read back until something is stored at the same location.

## Main definitions

* `FileTree.KeepsDirs t u`: every directory of `t` is one of `u`.
* `FileTree.HasFile`: a file stands at a location.

## Main results

* `FileTree.get?_put_self`, `FileTree.get?_put_of_ne`: what one entry changes.
* `FileTree.put_put`, `FileTree.put_eq_self_put`: what is put again.
* `FileTree.put_comm`: the order in which two entries are put.
* `FileTree.KeepsDirs.locate`: paths lead to where they led.
* `FileTree.store_eq_ok_iff`: when a file is stored, and what becomes of the tree.
* `FileTree.stat?_of_store`, `FileTree.stat?_of_store_sibling`: what was stored
  stands at its path, also after its neighbour was stored.
* `FileTree.read_of_stat?`: and is read back.
-/

namespace Delimited.FileTree

variable {t u : FileTree} {l m : Location} {e : Entry} {p q : Path}

/-! ### What one entry changes -/

theorem lookup_map_replace (entries : List (Location × Entry)) (l m : Location) (e : Entry) :
    (entries.map fun x => if x.1 = l then (l, e) else x).lookup m =
      if m = l ∧ entries.any (fun x => x.1 == l) then some e else entries.lookup m := by
  induction entries with
  | nil => simp
  | cons x entries ih =>
    obtain ⟨n, f⟩ := x
    simp only [List.map_cons, List.any_cons]
    by_cases hn : n = l
    · subst hn
      by_cases hm : m = n
      · simp [hm]
      · have hbeq : (m == n) = false := by simpa using hm
        simp only [if_true, List.lookup_cons, hbeq, ih, hm, false_and, if_false]
    · by_cases hm : m = n
      · subst hm
        simp [hn]
      · have hbeq : (m == n) = false := by simpa using hm
        have hne : (n == l) = false := by simpa using hn
        simp only [hn, if_false, List.lookup_cons, hbeq, ih, hne, Bool.false_or]

theorem lookup_append_singleton {entries : List (Location × Entry)} (m : Location) (e : Entry)
    (h : ¬ entries.any (fun x => x.1 == l) = true) :
    (entries ++ [(l, e)]).lookup m = if m = l then some e else entries.lookup m := by
  induction entries with
  | nil => by_cases hm : m = l <;> simp [hm, List.lookup_cons, beq_eq_false_iff_ne.mpr]
  | cons x entries ih =>
    obtain ⟨n, f⟩ := x
    rw [List.any_cons, Bool.or_eq_true, not_or] at h
    rw [List.cons_append, List.lookup_cons, ih h.2, List.lookup_cons]
    by_cases hm : m = l
    · subst hm
      have hne : (m == n) = false := by simpa using Ne.symm (by simpa using h.1)
      simp [hne]
    · simp [hm]

/-- An entry stands where it was put, and nowhere else. -/
theorem get?_put (hl : l ≠ []) : (t.put l e).get? m = if m = l then some e else t.get? m := by
  by_cases hm : m = []
  · subst hm
    rw [if_neg (Ne.symm hl)]
    rfl
  · rw [get?, if_neg hm, get?, if_neg hm, put]
    split
    · rename_i hany
      simp only [lookup_map_replace, hany, and_true]
    · rename_i hany
      exact lookup_append_singleton m e hany

theorem get?_put_self (hl : l ≠ []) : (t.put l e).get? l = some e := by
  rw [get?_put hl, if_pos rfl]

theorem get?_put_of_ne (hl : l ≠ []) (h : m ≠ l) : (t.put l e).get? m = t.get? m := by
  rw [get?_put hl, if_neg h]

/-! ### Putting an entry again -/

theorem put_eq_self_iff :
    t.put l e = t ↔ (t.entries.any fun x => x.1 == l) = true ∧
      ∀ x ∈ t.entries, x.1 = l → x = (l, e) := by
  obtain ⟨entries⟩ := t
  rw [put]
  split
  · rename_i hany
    have hself : entries.map (fun x => if x.1 = l then (l, e) else x) = entries ↔
        ∀ x ∈ entries, (if x.1 = l then (l, e) else x) = x := by
      conv_lhs => rhs; rw [← List.map_id entries]
      exact List.map_inj_left
    rw [FileTree.mk.injEq, hself, and_iff_right hany]
    refine forall₂_congr fun x _ => ?_
    by_cases hx : x.1 = l <;> simp [hx, eq_comm]
  · rename_i hany
    simp [hany]

theorem any_map_replace (entries : List (Location × Entry)) (l m : Location) (e : Entry) :
    ((entries.map fun x => if x.1 = l then (l, e) else x).any fun x => x.1 == m) =
      entries.any fun x => x.1 == m := by
  rw [List.any_map]
  refine congrArg (List.any entries) (funext fun x => ?_)
  by_cases hx : x.1 = l <;> simp [hx]

theorem any_put (t : FileTree) (l : Location) (e : Entry) :
    ((t.put l e).entries.any fun x => x.1 == l) = true := by
  rw [put]
  split
  · rename_i hany
    rw [any_map_replace, hany]
  · simp

/-- Of two entries at a location the second stays. -/
theorem put_put (t : FileTree) (l : Location) (e f : Entry) :
    (t.put l e).put l f = t.put l f := by
  rw [put, if_pos (any_put t l e), put, put]
  split
  · simp only [List.map_map, FileTree.mk.injEq]
    refine List.map_congr_left fun x _ => ?_
    by_cases hx : x.1 = l <;> simp [hx]
  · rename_i hany
    have hnone : ∀ x ∈ t.entries, (if x.1 = l then (l, f) else x) = x := by
      intro x hx
      have hxl : x.1 ≠ l := fun heq => hany (List.any_eq_true.mpr ⟨x, hx, by simp [heq]⟩)
      rw [if_neg hxl]
    simp [List.map_congr_left hnone]

/-- An entry that is there need not be put there, also after one was put elsewhere. -/
theorem put_eq_self_put {f : Entry} (h : t.put l e = t) (hne : l ≠ m) :
    (t.put m f).put l e = t.put m f := by
  obtain ⟨hany, hall⟩ := put_eq_self_iff.mp h
  obtain ⟨x, hx, hl⟩ := List.any_eq_true.mp hany
  have hxl : x.1 = l := by simpa using hl
  rw [put_eq_self_iff, put]
  split
  · rw [List.any_map, List.any_eq_true]
    refine ⟨⟨x, hx, by simp [hxl, hne]⟩, fun y hy hyl => ?_⟩
    obtain ⟨z, hz, rfl⟩ := List.mem_map.mp hy
    split_ifs at hyl ⊢
    · exact absurd hyl.symm hne
    · exact hall z hz hyl
  · rw [List.any_append, hany, Bool.true_or]
    refine ⟨rfl, fun y hy hyl => ?_⟩
    rcases List.mem_append.mp hy with hy | hy
    · exact hall y hy hyl
    · obtain rfl := List.mem_singleton.mp hy
      exact absurd hyl.symm hne

/-- Where something stands already, an entry takes its place, so two entries can be put in
any order. -/
theorem put_comm {f : Entry} (hroot : l ≠ []) (hl : t.get? l ≠ none) (hne : l ≠ m) :
    (t.put l e).put m f = (t.put m f).put l e := by
  have hany : (t.entries.any fun x => x.1 == l) = true := by
    rw [get?, if_neg hroot] at hl
    by_contra hnone
    refine hl (List.lookup_eq_none_iff.mpr fun x hx => ?_)
    simp only [List.any_eq_true, not_exists, not_and, beq_iff_eq] at hnone
    simpa using Ne.symm (hnone x hx)
  simp only [put, hany, if_true, any_map_replace]
  split
  · -- Both are there, and are replaced.
    simp only [any_map_replace, hany, if_true, List.map_map, FileTree.mk.injEq]
    refine List.map_congr_left fun x _ => ?_
    by_cases hx : x.1 = l
    · simp [hx, hne]
    · by_cases hx' : x.1 = m <;> simp [hx, hx', Ne.symm hne]
  · simp [List.any_append, hany, Ne.symm hne]

/-! ### Where paths lead -/

/-- Every directory of one tree is a directory of another. -/
def KeepsDirs (t u : FileTree) : Prop :=
  ∀ l, t.get? l = some .directory → u.get? l = some .directory

theorem KeepsDirs.walk (h : KeepsDirs t u) {here : Location} {names : List String}
    (hwalk : t.walk here names = .ok l) : u.walk here names = .ok l := by
  induction names generalizing here with
  | nil => exact hwalk
  | cons name names ih =>
    -- A walk that arrives has met directories only.
    rw [FileTree.walk] at hwalk ⊢
    split at hwalk
    · rename_i hdir
      rw [h _ hdir]
      exact ih hwalk
    · cases hwalk
    · cases hwalk

/-- Paths lead to where they led, as long as directories stay. -/
theorem KeepsDirs.locate (h : KeepsDirs t u) (hlocate : t.locate p = .ok l) :
    u.locate p = .ok l := by
  rw [FileTree.locate] at hlocate ⊢
  cases hwalk : t.walk [] p.parts with
  | error cause => simp [hwalk, Except.mapError] at hlocate
  | ok m =>
    rw [hwalk] at hlocate
    rw [h.walk hwalk]
    exact hlocate

theorem walk_append (t : FileTree) (here : Location) (names names' : List String) :
    t.walk here (names ++ names') = (t.walk here names).bind fun l => t.walk l names' := by
  induction names generalizing here with
  | nil => rfl
  | cons name names ih =>
    rw [List.cons_append, walk, walk]
    split
    · exact ih _
    · rfl
    · rfl

/-- A name below a path leads to a location below that of the path. -/
theorem exists_locate_of_join {name : String} (hname : name ≠ "..")
    (hlocate : t.locate { p with parts := p.parts ++ [name] } = .ok l) :
    ∃ m, t.walk [] p.parts = .ok m ∧ l = m ++ [name] := by
  rw [locate, walk_append] at hlocate
  cases hwalk : t.walk [] p.parts with
  | error cause => simp [hwalk, Except.mapError, Except.bind] at hlocate
  | ok m =>
    refine ⟨m, rfl, ?_⟩
    simp only [hwalk, Except.bind, walk, hname, if_false] at hlocate
    split at hlocate
    · simpa [Except.mapError] using hlocate.symm
    · simp [Except.mapError] at hlocate
    · simp [Except.mapError] at hlocate

/-- The path of no names leads to where it starts, which is a directory. -/
theorem eq_nil_of_locate {p : Path} (hparts : p.parts = []) (h : t.locate p = .ok l) :
    l = [] := by
  rw [locate, hparts] at h
  simpa [walk, Except.mapError, eq_comm] using h

/-- A name alone leads to itself. -/
theorem locate_name (t : FileTree) {root name : String} (hname : name ≠ "..") :
    t.locate ⟨root, [name]⟩ = .ok [name] := by
  simp [locate, walk, get?, hname, Except.mapError]

/-- A name in a directory leads to a location in it. -/
theorem locate_below {root name : String} {names : List String}
    (hlocate : t.locate ⟨root, names⟩ = .ok l) (hdir : t.get? l = some .directory)
    (hname : name ≠ "..") : t.locate ⟨root, names ++ [name]⟩ = .ok (l ++ [name]) := by
  rw [locate, walk_append]
  rw [locate] at hlocate
  cases hwalk : t.walk [] names with
  | error cause => simp [hwalk, Except.mapError] at hlocate
  | ok m =>
    obtain rfl : m = l := by simpa [hwalk, Except.mapError] using hlocate
    simp [Except.bind, walk, hdir, hname, Except.mapError]

/-! ### Storing files -/

theorem store_eq_ok_iff :
    t.store p e = .ok u ↔
      ∃ l, t.locate p = .ok l ∧ t.get? l ≠ some .directory ∧ u = t.put l e := by
  rw [store]
  cases hlocate : t.locate p with
  | error cause => simp [bind, Except.bind]
  | ok l =>
    simp only [bind, Except.bind, Except.ok.injEq, exists_eq_left']
    split
    · simp [*]
    · rename_i hdir
      simp only [Except.ok.injEq, ne_eq]
      exact ⟨fun h => ⟨hdir, h.symm⟩, fun h => h.2.symm⟩

theorem ne_nil_of_get?_ne (h : t.get? l ≠ some .directory) : l ≠ [] := by
  rintro rfl
  exact h rfl

theorem keepsDirs_put (h : t.get? l ≠ some .directory) : KeepsDirs t (t.put l e) := by
  intro m hm
  have hne : m ≠ l := by
    rintro rfl
    exact h hm
  rw [get?_put_of_ne (ne_nil_of_get?_ne h) hne, hm]

theorem keepsDirs_of_store (h : t.store p e = .ok u) : KeepsDirs t u := by
  obtain ⟨l, -, hdir, rfl⟩ := store_eq_ok_iff.mp h
  exact keepsDirs_put hdir

/-! ### Files -/

/-- A file stands at a location. -/
def HasFile (t : FileTree) (l : Location) : Prop := ∃ e, t.get? l = some e ∧ e ≠ .directory

theorem HasFile.get?_ne (h : t.HasFile l) : t.get? l ≠ some .directory := by
  obtain ⟨e, he, hdir⟩ := h
  simpa [he] using hdir

theorem HasFile.get?_ne_none (h : t.HasFile l) : t.get? l ≠ none := by
  obtain ⟨e, he, -⟩ := h
  simp [he]

theorem hasFile_put_self (hl : l ≠ []) (he : e ≠ .directory) : (t.put l e).HasFile l :=
  ⟨e, get?_put_self hl, he⟩

/-- A file stays, or is replaced by another one. -/
theorem HasFile.put (h : t.HasFile l) (hm : m ≠ []) (he : e ≠ .directory) :
    (t.put m e).HasFile l := by
  by_cases hl : l = m
  · subst hl
    exact hasFile_put_self hm he
  · obtain ⟨f, hf, hdir⟩ := h
    exact ⟨f, (get?_put_of_ne hm hl).trans hf, hdir⟩

/-! ### What stands at a path -/

theorem stat?_eq_some_iff : t.stat? p = some e ↔ ∃ l, t.locate p = .ok l ∧ t.get? l = some e := by
  rw [stat?]
  cases t.locate p <;> simp

/-- What stands at a path of one name. -/
theorem stat?_eq_get? (t : FileTree) (name : String) (hparts : p.parts = [name])
    (hname : name ≠ "..") : t.stat? p = t.get? [name] := by
  obtain ⟨root, parts⟩ := p
  obtain rfl : parts = [name] := hparts
  rw [stat?, locate_name t hname]

/-- What was stored stands at its path. -/
theorem stat?_of_store (h : t.store p e = .ok u) : u.stat? p = some e := by
  obtain ⟨l, hlocate, hdir, rfl⟩ := store_eq_ok_iff.mp h
  rw [stat?_eq_some_iff]
  exact ⟨l, (keepsDirs_put hdir).locate hlocate, get?_put_self (ne_nil_of_get?_ne hdir)⟩

/-- What stands at a path stays there when something is stored under another name
in the same directory. -/
theorem stat?_of_store_sibling {name name' : String} {f : Entry} (hne : name ≠ name')
    (hname : name ≠ "..") (hname' : name' ≠ "..")
    (hstat : t.stat? { p with parts := p.parts ++ [name] } = some f)
    (hstore : t.store { p with parts := p.parts ++ [name'] } e = .ok u) :
    u.stat? { p with parts := p.parts ++ [name] } = some f := by
  obtain ⟨l, hl, hf⟩ := stat?_eq_some_iff.mp hstat
  obtain ⟨l', hl', hdir, rfl⟩ := store_eq_ok_iff.mp hstore
  obtain ⟨m, hm, rfl⟩ := exists_locate_of_join hname hl
  obtain ⟨m', hm', rfl⟩ := exists_locate_of_join hname' hl'
  obtain rfl : m = m' := by simpa [hm] using hm'
  have hother : m ++ [name] ≠ m ++ [name'] := by simpa using hne
  rw [stat?_eq_some_iff]
  refine ⟨m ++ [name], (keepsDirs_put hdir).locate hl, ?_⟩
  rw [get?_put_of_ne (ne_nil_of_get?_ne hdir) hother, hf]

theorem has_of_stat? (h : t.stat? p = some e) : t.has p = true := by
  rw [has, h]
  rfl

/-- A file of bytes is read as its bytes. -/
theorem read_of_stat? {bytes : List UInt8} (h : t.stat? p = some (.file bytes)) :
    t.read p = .ok bytes := by
  obtain ⟨l, hlocate, hfile⟩ := stat?_eq_some_iff.mp h
  simp [read, hlocate, hfile, bind, Except.bind, Entry.bytes?]

end Delimited.FileTree
