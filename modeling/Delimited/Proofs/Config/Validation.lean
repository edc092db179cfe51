import Delimited.Config.File
import Mathlib.Tactic.Core

/-!
# Settings that were checked

Settings are the result of a check exactly when every key was checked on its own,
so what was accepted names a table, a format and a line break. Settings as a value
with all its keys are accepted again, and are the same settings.

## Main definitions

* `Config.Valid`: settings that name a table, a format and a line break.
* `Config.toValue`: settings as a value with all its keys.

## Main results

* `Config.valid_of_ofValue`: settings that a value holds are valid.
* `Config.ofValue_toValue`: valid settings are held by their value.
* `Config.initial_text`: the settings of a first run.
-/

namespace Delimited

namespace Checked

variable {α β γ : Type} {x : Checked α} {y : Checked β} {a : α} {b : β} {f : α × β → γ} {g : γ}

@[simp] theorem both_eq_ok_iff {p : α × β} : both x y = .ok p ↔ x = .ok p.1 ∧ y = .ok p.2 := by
  obtain ⟨a, b⟩ := p
  cases x <;> cases y <;> simp [both]

@[simp] theorem under_eq_ok_iff {key : String} : under key x = .ok a ↔ x = .ok a := by
  cases x <;> simp [under, Except.mapError]

@[simp] theorem map_eq_ok_iff {f : α → γ} : Except.map f x = .ok g ↔ ∃ a, x = .ok a ∧ f a = g := by
  cases x <;> simp [Except.map]

end Checked

namespace Config

variable {α : Type} {c : Config} {v : Value} {s t : String}

/-- Settings that name a table, a format and a line break. -/
structure Valid (c : Config) : Prop where
  /-- The name of the table is not refused. -/
  tableName : tableNameProblem? c.table.tableName = none
  /-- The format is one of the two. -/
  format : c.output.format = .csv ∨ c.output.format = .parquet
  /-- The terminator is one of the two. -/
  terminator : ∃ b, c.output.terminator = .known b

/-! ### One key -/

theorem key_eq_ok_iff {name : String} {check : Value → Checked α} {absent : Checked α}
    {entries : List (String × Value)} {a : α} :
    key name check absent entries = .ok a ↔
      (∃ v, Value.lookup name entries = some v ∧ check v = .ok a) ∨
        Value.lookup name entries = none ∧ absent = .ok a := by
  rw [key, Checked.under_eq_ok_iff]
  cases Value.lookup name entries <;> simp

theorem checkTableName_eq_ok_iff :
    checkTableName v = .ok s ↔ v = .text s ∧ tableNameProblem? s = none := by
  unfold checkTableName checkText
  cases v with
  | text t =>
    simp only
    split
    · rename_i hproblem
      simp only [issue, reduceCtorEq, Value.text.injEq, false_iff, not_and]
      rintro rfl
      simp [hproblem]
    · rename_i hproblem
      simp only [Except.ok.injEq, Value.text.injEq]
      exact ⟨fun h => ⟨h, h ▸ hproblem⟩, fun h => h.1⟩
  | _ => simp [issue]

theorem checkChoice_eq_ok_iff {first second : String} :
    checkChoice first second v = .ok s ↔ v = .text s ∧ (s = first ∨ s = second) := by
  unfold checkChoice
  cases v with
  | text t =>
    simp only [Value.text.injEq]
    split
    · rename_i hchoice
      simp only [Except.ok.injEq]
      exact ⟨fun h => ⟨h, h ▸ hchoice⟩, fun h => h.1⟩
    · rename_i hchoice
      simp only [issue, reduceCtorEq, false_iff, not_and]
      rintro rfl
      exact hchoice
  | _ => simp [issue]

theorem checkMap_eq_ok_iff {model : String} {check : List (String × Value) → Checked α} {a : α} :
    checkMap model check v = .ok a ↔ ∃ entries, v = .map entries ∧ check entries = .ok a := by
  cases v <;> simp [checkMap, issue]

/-! ### Settings that were accepted -/

variable {entries : List (String × Value)}

theorem Layout.tableNameProblem?_eq_none {layout : Layout}
    (h : Layout.ofEntries entries = .ok layout) : tableNameProblem? layout.tableName = none := by
  simp only [Layout.ofEntries, Checked.map_eq_ok_iff, Checked.both_eq_ok_iff] at h
  obtain ⟨⟨tableName, header, inferNumbers⟩, ⟨hname, -⟩, rfl⟩ := h
  rcases key_eq_ok_iff.mp hname with ⟨v, -, hcheck⟩ | ⟨-, habsent⟩
  · exact (checkTableName_eq_ok_iff.mp hcheck).2
  · obtain rfl := Except.ok.inj habsent
    exact (by decide : tableNameProblem? "default" = none)

theorem key_choice_eq_ok {name first second absent : String}
    (h : key name (checkChoice first second) (.ok absent) entries = .ok s)
    (habsent : absent = first ∨ absent = second) : s = first ∨ s = second := by
  rcases key_eq_ok_iff.mp h with ⟨v, -, hcheck⟩ | ⟨-, hnone⟩
  · exact (checkChoice_eq_ok_iff.mp hcheck).2
  · obtain rfl := Except.ok.inj hnone
    exact habsent

theorem Output.named_of_ofEntries {output : Output} (h : Output.ofEntries entries = .ok output) :
    (output.format = .csv ∨ output.format = .parquet) ∧ ∃ b, output.terminator = .known b := by
  simp only [Output.ofEntries, Checked.map_eq_ok_iff, Checked.both_eq_ok_iff] at h
  obtain ⟨⟨dir, format, writeMeta, terminator, encoding⟩, ⟨-, hformat, -, hterminator, -⟩, rfl⟩ := h
  constructor
  · rcases key_choice_eq_ok hformat (.inr rfl) with rfl | rfl
    · exact .inl rfl
    · exact .inr rfl
  · rcases key_choice_eq_ok hterminator (.inl rfl) with rfl | rfl
    · exact ⟨.crlf, rfl⟩
    · exact ⟨.lf, rfl⟩

/-- Settings that a value holds name a table, a format and a line break. -/
theorem valid_of_ofValue (h : ofValue v = .ok c) : c.Valid := by
  obtain ⟨entries, -, h⟩ := checkMap_eq_ok_iff.mp h
  simp only [ofEntries, Checked.map_eq_ok_iff, Checked.both_eq_ok_iff] at h
  obtain ⟨⟨source, table, output⟩, ⟨-, htable, houtput⟩, rfl⟩ := h
  have hname : tableNameProblem? table.tableName = none := by
    rcases key_eq_ok_iff.mp htable with ⟨v, -, hcheck⟩ | ⟨-, habsent⟩
    · obtain ⟨_, -, hlayout⟩ := checkMap_eq_ok_iff.mp hcheck
      exact Layout.tableNameProblem?_eq_none hlayout
    · obtain rfl := Except.ok.inj habsent
      decide
  have hnamed : (output.format = .csv ∨ output.format = .parquet) ∧
      ∃ b, output.terminator = .known b := by
    rcases key_eq_ok_iff.mp houtput with ⟨v, -, hcheck⟩ | ⟨-, habsent⟩
    · obtain ⟨_, -, hoption⟩ := checkMap_eq_ok_iff.mp hcheck
      exact Output.named_of_ofEntries hoption
    · obtain rfl := Except.ok.inj habsent
      exact ⟨.inr rfl, .crlf, rfl⟩
  exact ⟨hname, hnamed.1, hnamed.2⟩

/-! ### Settings as a value -/

/-- A value of the settings as any value. -/
def Item.toValue : Item → Value
  | text s => .text s
  | flag b => .bool b

/-- Settings as a value with all its keys. -/
def toValue (c : Config) : Value :=
  .map (c.sections.map fun (name, items) =>
    (name, .map (items.map fun (key, item) => (key, item.toValue))))

theorem Source.ofEntries_items (source : Source) :
    Source.ofEntries [("input_path", .text source.inputPath), ("encoding", .text source.encoding)] =
      .ok source := by
  simp [Source.ofEntries, key, Value.lookup, checkText, Checked.under, Checked.both, Except.map,
    Except.mapError]

theorem Layout.ofEntries_items {layout : Layout}
    (h : tableNameProblem? layout.tableName = none) :
    Layout.ofEntries [("table_name", .text layout.tableName), ("header", .bool layout.header),
      ("infer_numbers", .bool layout.inferNumbers)] = .ok layout := by
  have hname : checkTableName (.text layout.tableName) = .ok layout.tableName :=
    checkTableName_eq_ok_iff.mpr ⟨rfl, h⟩
  simp [Layout.ofEntries, key, Value.lookup, hname, checkBool, Checked.under, Checked.both,
    Except.map, Except.mapError]

theorem Output.ofEntries_items {output : Output}
    (hformat : output.format = .csv ∨ output.format = .parquet)
    (hterminator : ∃ b, output.terminator = .known b) :
    Output.ofEntries [("output_dir", .text output.dir), ("output_format", .text output.format.name),
      ("write_meta", .bool output.writeMeta),
      ("csv_line_terminator", .text output.terminator.name),
      ("csv_encoding", .text output.encoding)] = .ok output := by
  have hname : checkChoice "csv" "parquet" (.text output.format.name) = .ok output.format.name ∧
      Format.ofName output.format.name = output.format := by
    rcases hformat with h | h <;> rw [h] <;> exact ⟨rfl, rfl⟩
  have hbreak : checkChoice "crlf" "lf" (.text output.terminator.name) =
      .ok output.terminator.name ∧
        Terminator.ofName output.terminator.name = output.terminator := by
    obtain ⟨b, hb⟩ := hterminator
    cases b <;> rw [hb] <;> exact ⟨rfl, rfl⟩
  simp [Output.ofEntries, key, Value.lookup, hname, hbreak, checkText, checkBool, Checked.under,
    Checked.both, Except.map, Except.mapError]

/-- Valid settings are held by their value. -/
theorem ofValue_toValue (h : c.Valid) : ofValue c.toValue = .ok c := by
  have hsource := Source.ofEntries_items c.source
  have hlayout := Layout.ofEntries_items h.tableName
  have houtput := Output.ofEntries_items h.format h.terminator
  simp [ofValue, toValue, sections, Item.toValue, checkMap, ofEntries, key, Value.lookup, hsource,
    hlayout, houtput, Checked.under, Checked.both, Except.map, Except.mapError]

/-! ### Values with all keys

What a check finds under a key that is there is the value of that key. -/

theorem Source.texts_of_ofEntries {source : Source} {inputPath encoding : Value}
    (h : Source.ofEntries [("input_path", inputPath), ("encoding", encoding)] = .ok source) :
    checkText inputPath = .ok source.inputPath ∧ checkText encoding = .ok source.encoding := by
  simp only [Source.ofEntries, Checked.map_eq_ok_iff, Checked.both_eq_ok_iff] at h
  obtain ⟨⟨_, _⟩, h, rfl⟩ := h
  simpa [key, Value.lookup] using h

theorem Layout.texts_of_ofEntries {layout : Layout} {tableName header inferNumbers : Value}
    (h : Layout.ofEntries [("table_name", tableName), ("header", header),
      ("infer_numbers", inferNumbers)] = .ok layout) :
    checkText tableName = .ok layout.tableName := by
  simp only [Layout.ofEntries, Checked.map_eq_ok_iff, Checked.both_eq_ok_iff] at h
  obtain ⟨⟨name, _, _⟩, ⟨hname, -⟩, rfl⟩ := h
  have hcheck : checkTableName tableName = .ok name := by simpa [key, Value.lookup] using hname
  rw [(checkTableName_eq_ok_iff.mp hcheck).1]
  rfl

theorem Output.texts_of_ofEntries {output : Output}
    {dir format writeMeta terminator encoding : Value}
    (h : Output.ofEntries [("output_dir", dir), ("output_format", format),
      ("write_meta", writeMeta), ("csv_line_terminator", terminator),
      ("csv_encoding", encoding)] = .ok output) :
    checkText dir = .ok output.dir ∧ checkText encoding = .ok output.encoding := by
  simp only [Output.ofEntries, Checked.map_eq_ok_iff, Checked.both_eq_ok_iff] at h
  obtain ⟨⟨_, _, _, _, _⟩, ⟨hdir, -, -, -, hencoding⟩, rfl⟩ := h
  simpa [key, Value.lookup] using And.intro hdir hencoding

theorem sections_of_ofValue {source table output : List (String × Value)}
    (h : ofValue (.map [("source", .map source), ("table", .map table),
      ("output", .map output)]) = .ok c) :
    Source.ofEntries source = .ok c.source ∧ Layout.ofEntries table = .ok c.table ∧
      Output.ofEntries output = .ok c.output := by
  simp only [ofValue, checkMap, ofEntries, Checked.map_eq_ok_iff, Checked.both_eq_ok_iff] at h
  obtain ⟨⟨_, _, _⟩, h, rfl⟩ := h
  simpa [key, Value.lookup, checkMap] using h

/-! ### Settings of a first run -/

theorem checkTableName_text (s : String) :
    checkTableName (.text s) =
      match tableNameProblem? s with
      | none => .ok s
      | some reason => issue (.refused reason) := by
  simp only [checkTableName, checkText]
  cases h : tableNameProblem? s <;> simp only

theorem Layout.ofEntries_name (s : String) :
    Layout.ofEntries [("table_name", .text s), ("header", .bool true)] =
      match tableNameProblem? s with
      | none => .ok { tableName := s }
      | some reason => .error [⟨["table_name"], .refused reason⟩] := by
  have hname : Value.lookup "table_name" [("table_name", .text s), ("header", .bool true)] =
      some (.text s) := by simp [Value.lookup]
  have hheader : Value.lookup "header" [("table_name", .text s), ("header", .bool true)] =
      some (.bool true) := by simp [Value.lookup]
  have hnumbers : Value.lookup "infer_numbers" [("table_name", .text s), ("header", .bool true)] =
      none := by simp [Value.lookup]
  simp only [Layout.ofEntries, key, hname, hheader, hnumbers, Option.map_some, Option.map_none,
    Option.getD_some, Option.getD_none, checkTableName_text]
  cases tableNameProblem? s <;> rfl

/-- The name of the table of a file: its stem, if that is a name of a table. -/
@[irreducible] def tableNameOf (path : String) : String :=
  match tableNameProblem? (Path.ofString path).stem with
  | none => (Path.ofString path).stem
  | some _ => "default"

theorem tableNameProblem?_tableNameOf (path : String) :
    tableNameProblem? (tableNameOf path) = none := by
  unfold tableNameOf
  split
  · assumption
  · decide

/-- The settings of a first run with names in the first record. -/
theorem initial_text (path dir : String) :
    initial path (.text dir) (.bool true) = .ok
      { source := { inputPath := path }
        table := { tableName := tableNameOf path }
        output := { dir } } := by
  have houtput : Output.ofEntries [("output_dir", .text dir)] = .ok { dir } := rfl
  unfold initial tableNameOf
  -- The stem is left as it is from here on.
  generalize (Path.ofString path).stem = s
  simp only [houtput, Layout.ofEntries_name]
  cases tableNameProblem? s <;> rfl

end Config

end Delimited
