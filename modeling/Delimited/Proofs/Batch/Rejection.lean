import Delimited.Proofs.Batch.Effect
import Mathlib.Data.List.Induction

/-!
# Rejected files in a batch

A file that cannot be decoded or is no document is rejected by its first run, before
anything was written. The batch counts it and goes on with the files as they were, so
a batch with the file does what the batch without it does, and exits with one. The exit
code says no more and no less than this: it is one exactly when some file was rejected,
by its first run or by its conversion.

## Main definitions

* `Batch.Unprepared`: a file that its first run rejects.
* `Batch.Rejected`: a file that its first run or its conversion rejects.

## Main results

* `Batch.effect_convertFile_of_unprepared`: a file without settings that is rejected
  changes nothing.
* `Batch.effect_convertFiles_insert`: a batch with such a file has one failure more.
* `Batch.ne_zero_iff_of_gives_convertFiles`: which failures are counted.
* `batch_with_rejected`: batches with rejected files, and their exit codes.
-/

namespace Delimited

variable {env : Environment} {asText : Bool} {f : String} {t u : FileTree} {w w' : World} {n : Nat}

namespace Batch

/-! ### Files that are rejected -/

/-- The file is there without settings, and the first run that would make them rejects
it. -/
structure Unprepared (env : Environment) (f : String) (w : World) : Prop where
  /-- The file is there. -/
  has : w.files.has (.ofString f) = true
  /-- It has no settings. -/
  unsettled : w.files.has (.ofString (settingsPath f)) = false
  /-- It is rejected. -/
  fails : ∃ e w', (firstRun env (request f)).Fails w e w' ∧ (ownFailure? e).isSome = true

/-- The file is there, and its first run or its conversion rejects it. -/
inductive Rejected (env : Environment) (asText : Bool) (f : String) (w : World) : Prop
  /-- The first run rejects it. -/
  | unprepared (h : Unprepared env f w) : Rejected env asText f w
  /-- The conversion rejects it after the first run. -/
  | prepared {w₁ w' : World} {e : Failure} (has : w.files.has (.ofString f) = true)
      (unsettled : w.files.has (.ofString (settingsPath f)) = false)
      (prepares : (prepare env asText f (outputDir f) (settingsPath f)).Gives w () w₁)
      (fails : (convert env (settingsPath f)).Fails w₁ e w')
      (own : (ownFailure? e).isSome = true) : Rejected env asText f w
  /-- The conversion rejects it, by settings that were there. -/
  | settled {w' : World} {e : Failure} (has : w.files.has (.ofString f) = true)
      (settled : w.files.has (.ofString (settingsPath f)) = true)
      (fails : (convert env (settingsPath f)).Fails w e w')
      (own : (ownFailure? e).isSome = true) : Rejected env asText f w

theorem isOfInput_of_ownFailure? {e : Failure} (h : (ownFailure? e).isSome = true) :
    e.isOfInput = true := by
  cases e with
  | rejected source cause => rfl
  | undecodable path encoding cause => rfl
  | _ => cases h

/-- A file is rejected when its conversion fails with a failure of its own: the settings
that are written in between never fail like this. -/
theorem rejected_iff :
    Rejected env asText f w ↔ w.files.has (.ofString f) = true ∧
      ∃ e w', (conversion env asText f).Fails w e w' ∧ (ownFailure? e).isSome = true := by
  have hfails (e : Failure) (w' : World) : (conversion env asText f).Fails w e w' ↔
      (if !w.files.has (.ofString (settingsPath f)) then
        prepare env asText f (outputDir f) (settingsPath f) >>= fun _ =>
          convert env (settingsPath f)
      else convert env (settingsPath f)).Fails w e w' := by
    rw [conversion, convertOne, Job.fails_files_bind_iff]
  constructor
  · intro h
    cases h with
    | unprepared h =>
      obtain ⟨e, w', hfirst, hown⟩ := h.fails
      refine ⟨h.has, e, w', (hfails e w').mpr ?_, hown⟩
      rw [h.unsettled]
      exact Job.fails_bind_iff.mpr (.inl (Job.fails_bind_iff.mpr (.inl hfirst)))
    | @prepared w₁ w' e has unsettled prepares fails own =>
      refine ⟨has, e, w', (hfails e w').mpr ?_, own⟩
      rw [unsettled]
      exact Job.fails_bind_iff.mpr (.inr ⟨(), w₁, prepares, fails⟩)
    | @settled w' e has settled fails own =>
      refine ⟨has, e, w', (hfails e w').mpr ?_, own⟩
      rw [settled]
      exact fails
  · rintro ⟨hhas, e, w', h, hown⟩
    rw [hfails] at h
    cases hsettings : w.files.has (.ofString (settingsPath f)) with
    | true =>
      rw [hsettings] at h
      exact .settled hhas hsettings h hown
    | false =>
      rw [hsettings] at h
      rcases Job.fails_bind_iff.mp h with h | ⟨_, w₁, hprepare, h⟩
      · rcases Job.fails_bind_iff.mp h with h | ⟨c, w₁, -, h⟩
        · exact .unprepared ⟨hhas, hsettings, e, w', h, hown⟩
        · -- Settings are not refused for a reason that has to do with the file.
          have hother : e.isOfInput = false := by
            split at h
            · exact failsOnly_save _ _ w₁ e w' h
            · exact absurd h Job.not_fails_pure
          rw [isOfInput_of_ownFailure? hown] at hother
          cases hother
      · exact .prepared hhas hsettings hprepare h hown

/-- A file without settings that is rejected is counted, and nothing changes. -/
theorem effect_convertFile_of_unprepared (h : Unprepared env f w) (asText : Bool) :
    (convertFile env asText f).effect w.files = (.ok true, w.files) := by
  obtain ⟨e, w', hfirst, hown⟩ := h.fails
  have hleft : w'.files = w.files := by
    apply leavesUnless_firstRun env (request f) w e w' hfirst
    simp [isOfInput_of_ownFailure? hown]
  have hprepare : (prepare env asText f (outputDir f) (settingsPath f)).Fails w e w' :=
    Job.fails_bind_iff.mpr (.inl hfirst)
  have hconversion : (conversion env asText f).Fails w e w' := by
    rw [conversion, convertOne, Job.fails_files_bind_iff, h.unsettled]
    exact Job.fails_bind_iff.mpr (.inl hprepare)
  have heffect := (ignoresLog_conversion env asText f).effect_of_fails hconversion
  rw [effect_convertFile, heffect, hleft]
  simp [hown]

/-! ### Batches with a rejected file -/

/-- A batch with a file that is rejected when it is reached has one failure more than
the batch without it, and comes to the same otherwise. -/
theorem effect_convertFiles_insert {before after : List String}
    (h : ∀ m w₁, (convertFiles env asText n before).Gives w m w₁ → Unprepared env f w₁) :
    (convertFiles env asText n (before ++ f :: after)).effect w.files =
      (((convertFiles env asText n (before ++ after)).effect w.files).1.map (1 + ·),
        ((convertFiles env asText n (before ++ after)).effect w.files).2) := by
  -- Both batches are the same up to the file, and start from the same files after it.
  have hlater (files : List String) (m : Nat) := ignoresLog_convertFiles env asText m files
  rw [convertFiles_append, convertFiles_append, Job.effect_bind (hlater _),
    Job.effect_bind (hlater _), (hlater before n).effect_eq w]
  cases hbefore : (convertFiles env asText n before).outcome w with
  | mk result w₁ =>
    cases result with
    | error e => rfl
    | ok m =>
      have hunprepared := h m w₁ hbefore
      change (convertFiles env asText m (f :: after)).effect w₁.files = _
      rw [effect_convertFiles_cons, if_pos hunprepared.has,
        effect_convertFile_of_unprepared hunprepared]
      change (convertFiles env asText (m + 1) after).effect w₁.files =
        (((convertFiles env asText m after).effect w₁.files).1.map (1 + ·), _)
      rw [Nat.add_comm, convertFiles_add, Job.effect_map]

/-! ### The number of failures -/

/-- A file that was converted failed exactly when its conversion did, for a reason of its
own. -/
theorem eq_true_iff_of_gives_convertFile {failed : Bool}
    (h : (convertFile env asText f).Gives w failed w') :
    failed = true ↔
      ∃ e w₁, (conversion env asText f).Fails w e w₁ ∧ (ownFailure? e).isSome = true := by
  have heffect := (ignoresLog_convertFile env asText f).effect_eq w
  rw [h, effect_convertFile, (ignoresLog_conversion env asText f).effect_eq w] at heffect
  unfold Job.Fails
  cases hconversion : (conversion env asText f).outcome w with
  | mk result w₁ =>
    rw [hconversion] at heffect
    cases result with
    | ok paths =>
      -- The settings are loaded once more, to tell what was written.
      simp only [Prod.mk.injEq] at heffect
      generalize ((Config.load (settingsPath f)).effect w₁.files).1 = loaded at heffect
      cases loaded with
      | ok c =>
        obtain rfl : false = failed := Except.ok.inj heffect.1
        simp
      | error e => cases heffect.1
    | error e =>
      simp only [Prod.mk.injEq] at heffect
      have hresult := heffect.1
      split at hresult
      · rename_i hown
        obtain rfl : true = failed := Except.ok.inj hresult
        simp [hown]
      · cases hresult

/-- One file more is one failure more if it is rejected, and none otherwise. -/
theorem eq_of_gives_convertFiles_singleton {m : Nat}
    (h : (convertFiles env asText n [f]).Gives w m w') :
    (Rejected env asText f w ∧ m = n + 1) ∨ (¬ Rejected env asText f w ∧ m = n) := by
  rw [rejected_iff]
  simp only [convertFiles, Job.gives_bind_iff, Job.gives_files_iff] at h
  obtain ⟨_, _, ⟨rfl, rfl⟩, h⟩ := h
  cases hhas : w.files.has (.ofString f) with
  | false =>
    simp only [hhas, Bool.false_eq_true, if_false, Job.gives_bind_iff, Job.gives_pure_iff] at h
    obtain ⟨_, _, -, rfl, -⟩ := h
    exact .inr ⟨by simp, rfl⟩
  | true =>
    simp only [hhas, if_true, Job.gives_bind_iff, Job.gives_pure_iff] at h
    obtain ⟨failed, w₁, hfile, rfl, -⟩ := h
    rw [← eq_true_iff_of_gives_convertFile hfile]
    cases failed <;> simp

/-- The failures that are counted are the files that are rejected when they are
reached. -/
theorem ne_zero_iff_of_gives_convertFiles {files : List String} {m : Nat}
    (h : (convertFiles env asText 0 files).Gives w m w') :
    m ≠ 0 ↔ ∃ before f, before ++ [f] <+: files ∧
      ∃ n w₁, (convertFiles env asText 0 before).Gives w n w₁ ∧ Rejected env asText f w₁ := by
  -- The last file is taken off, as it is the one that is reached after all others.
  induction files using List.reverseRecOn generalizing m w' with
  | nil =>
    obtain ⟨rfl, -⟩ := Job.gives_pure_iff.mp h
    simp
  | append_singleton files g ih =>
    rw [convertFiles_append] at h
    obtain ⟨n, w₁, hfiles, hlast⟩ := Job.gives_bind_iff.mp h
    have hcount : m ≠ 0 ↔ n ≠ 0 ∨ Rejected env asText g w₁ := by
      rcases eq_of_gives_convertFiles_singleton hlast with ⟨hrejected, rfl⟩ | ⟨hnot, rfl⟩
      · simp [hrejected]
      · simp [hnot]
    rw [hcount, ih hfiles]
    constructor
    · rintro (⟨before, f, hinitial, hreached⟩ | hrejected)
      · exact ⟨before, f, hinitial.trans (List.prefix_append _ _), hreached⟩
      · exact ⟨files, g, List.prefix_rfl, n, w₁, hfiles, hrejected⟩
    · rintro ⟨before, f, hinitial, hreached⟩
      rcases List.prefix_concat_iff.mp hinitial with heq | hinitial
      · obtain ⟨rfl, rfl⟩ : before = files ∧ f = g := by simpa using heq
        obtain ⟨n', w₂, hbefore, hrejected⟩ := hreached
        rw [Job.Gives, hfiles] at hbefore
        cases hbefore
        exact .inr hrejected
      · exact .inl ⟨before, f, hinitial, hreached⟩

end Batch

/-! ### Exit codes -/

theorem filter_insert {before after : List String} (hf : Batch.isFile f = true) :
    (before ++ f :: after).filter Batch.isFile =
      before.filter Batch.isFile ++ f :: after.filter Batch.isFile := by
  simp [hf]

theorem contains_insert {before after : List String} (hf : Batch.isFile f = true) :
    (before ++ f :: after).contains Batch.textFlag = (before ++ after).contains Batch.textFlag := by
  have hne : Batch.textFlag ≠ f := by
    rintro rfl
    exact absurd hf (by decide)
  simp [hne]

/-- A batch with a file that is rejected when it is reached comes to what the batch
without it comes to, and exits with one. -/
theorem effect_batch_insert {before after : List String} (hf : Batch.isFile f = true)
    (h : ∀ m w₁, (Batch.convertFiles env ((before ++ after).contains Batch.textFlag) 0
      (before.filter Batch.isFile)).Gives w m w₁ → Batch.Unprepared env f w₁) :
    (batch env (before ++ f :: after)).effect w.files =
      (((batch env (before ++ after)).effect w.files).1.map fun _ => 1,
        ((batch env (before ++ after)).effect w.files).2) := by
  have hsome : (before ++ f :: after).filter Batch.isFile ≠ [] := by simp [hf]
  rw [effect_batch hsome, contains_insert hf, filter_insert hf,
    Batch.effect_convertFiles_insert h, ← List.filter_append]
  by_cases hnone : (before ++ after).filter Batch.isFile = []
  · -- The file is the only one.
    rw [batch_eq_of_nil hnone, hnone]
    rfl
  · rw [effect_batch hnone]
    generalize (Batch.convertFiles _ _ _ _).effect w.files = result
    obtain ⟨result, u⟩ := result
    cases result with
    | error e => rfl
    | ok m => simp [Except.map, exitCode, Nat.add_comm 1]

/-- A rejected file does not disturb a batch. If a file without settings is there when it
is reached, and its first run rejects it, then the batch with it leaves the files that
the batch without it leaves, and exits with one if the other exits at all. And a batch
of some files that exits does so with one if a file was rejected when it was reached, by
its first run or by its conversion, and with zero otherwise. -/
theorem batch_with_rejected (env : Environment) (w : World) :
    (∀ before f after, Batch.isFile f = true →
      (∀ n w₁, (Batch.convertFiles env ((before ++ after).contains Batch.textFlag) 0
        (before.filter Batch.isFile)).Gives w n w₁ → Batch.Unprepared env f w₁) →
      ((batch env (before ++ f :: after)).outcome w).2.files =
        ((batch env (before ++ after)).outcome w).2.files ∧
      ∀ code w', (batch env (before ++ after)).Gives w code w' →
        ∃ w'', (batch env (before ++ f :: after)).Gives w 1 w'') ∧
    ∀ arguments code w', arguments.filter Batch.isFile ≠ [] →
      (batch env arguments).Gives w code w' →
      (code = 0 ∨ code = 1) ∧
      (code = 1 ↔ ∃ before f, before ++ [f] <+: arguments.filter Batch.isFile ∧
        ∃ n w₁, (Batch.convertFiles env (arguments.contains Batch.textFlag) 0 before).Gives w n w₁ ∧
          Batch.Rejected env (arguments.contains Batch.textFlag) f w₁) := by
  refine ⟨fun before f after hf h => ?_, fun arguments code w' hsome h => ?_⟩
  · have heffect := effect_batch_insert hf h
    rw [(ignoresLog_batch env _).effect_eq w, (ignoresLog_batch env _).effect_eq w] at heffect
    refine ⟨congrArg Prod.snd heffect, fun code w' hwithout => ?_⟩
    rw [hwithout] at heffect
    exact ⟨_, Job.gives_of_outcome (congrArg Prod.fst heffect)⟩
  · rw [batch_eq_of_ne_nil hsome] at h
    obtain ⟨failures, w₁, hfiles, h⟩ := Job.gives_bind_iff.mp h
    obtain ⟨_, w₂, -, h⟩ := Job.gives_bind_iff.mp h
    obtain ⟨rfl, -⟩ := Job.gives_pure_iff.mp h
    rw [← Batch.ne_zero_iff_of_gives_convertFiles hfiles]
    unfold exitCode
    split <;> simp [*]

/-- A file with a quote that is not closed, next to a file with a number. -/
def openQuoteFiles : FileTree :=
  ⟨[(["a.csv"], .file [0x22]), (["b.csv"], .file [0x6E, 0x0A, 0x31])]⟩

/-- A file that is not there is left out, one with an open quote is rejected, and a
third one is converted as if the second had not been named. -/
theorem batch_with_rejected_openQuote :
    ((batch (.plain "") ["c.csv", "a.csv", "b.csv"]).outcome { files := openQuoteFiles }).2.files =
      ((batch (.plain "") ["c.csv", "b.csv"]).outcome { files := openQuoteFiles }).2.files ∧
    (∃ w', (batch (.plain "") ["c.csv"]).Gives { files := openQuoteFiles } 0 w') ∧
    (∃ w', (batch (.plain "") ["c.csv", "a.csv"]).Gives { files := openQuoteFiles } 1 w') ∧
    ∃ before f, before ++ [f] <+: ["c.csv", "a.csv"] ∧ ∃ n w₁,
      (Batch.convertFiles (.plain "") false 0 before).Gives { files := openQuoteFiles } n w₁ ∧
        Batch.Rejected (.plain "") false f w₁ := by
  let w : World := { files := openQuoteFiles }
  let first := Batch.convertFiles (.plain "") false 0 ["c.csv"]
  have hunprepared (n : Nat) (w₁ : World) (h : first.Gives w n w₁) :
      Batch.Unprepared (.plain "") "a.csv" w₁ := by
    obtain rfl : (first.outcome w).2 = w₁ := congrArg Prod.snd h
    have hfails := Job.fails_of_outcome (x := firstRun (.plain "") (Batch.request "a.csv"))
      (w := (first.outcome w).2)
      (e := .rejected (some "a.csv")
        ⟨⟨#['"'], 0⟩, .failure (.invalidInput "comma or a line break")⟩) (by decide +kernel)
    exact ⟨by decide +kernel, by decide +kernel, _, _, hfails, rfl⟩
  obtain ⟨hinsert, hexit⟩ := batch_with_rejected (.plain "") w
  have hwithout := Job.gives_of_outcome (x := batch (.plain "") ["c.csv"]) (w := w) (a := 0)
    (by decide +kernel)
  obtain ⟨w', hwith⟩ := (hinsert ["c.csv"] "a.csv" [] (by decide) hunprepared).2 0 _ hwithout
  refine ⟨(hinsert ["c.csv"] "a.csv" ["b.csv"] (by decide) hunprepared).1, ⟨_, hwithout⟩,
    ⟨w', hwith⟩, ?_⟩
  exact (hexit ["c.csv", "a.csv"] 1 w' (by decide) hwith).2.mp rfl

end Delimited
