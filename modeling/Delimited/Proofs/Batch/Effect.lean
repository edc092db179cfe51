import Delimited.Conversion.Batch
import Delimited.Proofs.Conversion.Confinement

/-!
# What a batch does to the files

A batch converts its files one after another and carries two things on: the files as
they are, and the number of failures. The log is written to and never read, so a batch
is a sequence of effects on files. The number is only added to: a batch that starts
with some failures ends with as many more.

## Main definitions

* `Batch.stem`, `Batch.outputDir`, `Batch.settingsPath`, `Batch.request`: what is
  derived from the name of a file.
* `Batch.conversion`: the settings of a file are made if there are none, and followed.

## Main results

* `Batch.effect_convertFile`: what converting one file comes to.
* `Batch.convertFiles_append`: some files, and then others.
* `Batch.convertFiles_add`: failures are added up.
-/

namespace Delimited

variable {env : Environment} {asText : Bool} {f : String} {t u : FileTree} {n : Nat}

/-! ### Jobs that do not look at the log -/

theorem ignoresLog_save (c : Config) (path : String) : (c.save path).IgnoresLog :=
  (Job.ignoresLog_ensureDirs _).bind fun _ => (Job.ignoresLog_change _).bind fun _ =>
    (Job.isQuery_info _ _).ignoresLog

theorem ignoresLog_firstRun (env : Environment) (r : FirstRun) : (firstRun env r).IgnoresLog := by
  refine (Job.isQuery_info _ _).ignoresLog.bind fun _ =>
    (Job.isQuery_ofExcept _ _).ignoresLog.bind fun c => ?_
  refine (isQuery_parseFile _ _).ignoresLog.bind fun d => (ignoresLog_save c _).bind fun _ => ?_
  split
  · refine (Job.isQuery_info _ _).ignoresLog.bind fun _ => Job.IgnoresLog.bind ?_ fun _ =>
      (Job.isQuery_pure _).ignoresLog
    exact (ignoresLog_runPipeline env c d).bind fun _ => (Job.isQuery_pure _).ignoresLog
  · exact (Job.isQuery_pure _).ignoresLog

namespace Batch

/-! ### Converting one file -/

/-- What the settings and the output of a file are named after. It is irreducible, as
comparing two runs would otherwise compute paths. -/
@[irreducible] def stem (f : String) : String := (Path.ofString f).stem

/-- The directory of the output of a file. -/
def outputDir (f : String) : String := toString (outputRoot.join (stem f))

/-- Where the settings of a file are kept. -/
def settingsPath (f : String) : String := toString (outputRoot.join (stem f ++ ".yaml"))

/-- The first run that makes the settings of a file. -/
def request (f : String) : FirstRun :=
  { inputPath := f
    outputDir := .text (outputDir f)
    configPath := settingsPath f
    runNow := false }

/-- The conversion of a file, with its failures. -/
def conversion (env : Environment) (asText : Bool) (f : String) : Job (List String) :=
  convertOne env asText f (outputDir f) (settingsPath f)

theorem ignoresLog_prepare (env : Environment) (asText : Bool)
    (inputPath outputDir configPath : String) :
    (prepare env asText inputPath outputDir configPath).IgnoresLog := by
  refine (ignoresLog_firstRun env _).bind fun c => ?_
  split
  · exact ignoresLog_save _ _
  · exact (Job.isQuery_pure _).ignoresLog

theorem ignoresLog_conversion (env : Environment) (asText : Bool) (f : String) :
    (conversion env asText f).IgnoresLog := by
  refine Job.isQuery_files.ignoresLog.bind fun files => ?_
  split
  · exact (ignoresLog_prepare _ _ _ _ _).bind fun _ => ignoresLog_convert _ _
  · exact ignoresLog_convert _ _

/-- A failure that concerns one file only is reported. -/
def settle (failure : Failure) : Job (Option (List String)) :=
  match ownFailure? failure with
  | none => throw failure
  | some message => do
    Job.report .error component ("FAIL  " ++ message)
    pure none

/-- What was written is told. -/
def tell (format : String) (paths : List String) : Job Unit := do
  for path in paths do
    Job.info component ("  wrote " ++ path ++ " (" ++ format ++ ")")

/-- Tells whether a file failed, after what was written has been told. -/
def announce (f : String) (written : Option (List String)) : Job Bool :=
  match written with
  | none => return true
  | some paths => do
    let c ← Config.load (settingsPath f)
    tell c.output.format.name paths
    return false

/-- The heading of a file. -/
def heading (f : String) : Job Unit := do
  Job.info component rule
  Job.info component ("Processing: " ++ f)
  Job.info component ("  output_dir  : " ++ outputDir f)
  Job.info component ("  config_path : " ++ settingsPath f)
  Job.info component rule

theorem convertFile_eq (env : Environment) (asText : Bool) (f : String) :
    convertFile env asText f = heading f >>= fun _ =>
      tryCatch (conversion env asText f >>= fun paths => pure (some paths)) settle >>=
        announce f := by
  simp only [convertFile, heading, bind_assoc, conversion, outputDir, settingsPath, stem]
  refine bind_congr fun _ => bind_congr fun _ => bind_congr fun _ => bind_congr fun _ =>
    bind_congr fun _ => bind_congr fun written => ?_
  cases written with
  | none => rfl
  | some paths =>
    simp only [announce, tell, settingsPath, stem, bind_assoc, pure_bind]

theorem ignoresLog_settle (failure : Failure) : (settle failure).IgnoresLog := by
  unfold settle
  split
  · exact (Job.isQuery_throw _).ignoresLog
  · exact ((Job.isQuery_report _ _ _).bind fun _ => Job.isQuery_pure _).ignoresLog

theorem tell_cons (format path : String) (paths : List String) :
    tell format (path :: paths) =
      Job.info component ("  wrote " ++ path ++ " (" ++ format ++ ")") >>= fun _ =>
        tell format paths := by
  simp [tell]

theorem isQuery_tell (format : String) (paths : List String) : (tell format paths).IsQuery := by
  induction paths with
  | nil => exact Job.isQuery_pure _
  | cons path paths ih =>
    rw [tell_cons]
    exact (Job.isQuery_info _ _).bind fun _ => ih

theorem effect_tell (format : String) (paths : List String) (t : FileTree) :
    (tell format paths).effect t = (.ok (), t) := by
  induction paths with
  | nil => rfl
  | cons path paths ih =>
    rw [tell_cons, Job.info, Job.effect_report_bind (isQuery_tell format paths).ignoresLog, ih]

theorem isQuery_announce (f : String) (written : Option (List String)) :
    (announce f written).IsQuery := by
  cases written with
  | none => exact Job.isQuery_pure _
  | some paths =>
    exact (Config.isQuery_load _).bind fun c => (isQuery_tell _ paths).bind fun _ =>
      Job.isQuery_pure _

theorem effect_announce (f : String) (paths : List String) (t : FileTree) :
    (announce f (some paths)).effect t =
      (((Config.load (settingsPath f)).effect t).1.map fun _ => false, t) := by
  have hpure (b : Bool) : (pure b : Job Bool).IgnoresLog := (Job.isQuery_pure b).ignoresLog
  have hlater (c : Config) : (tell c.output.format.name paths >>= fun _ => pure false).IgnoresLog :=
    (isQuery_tell _ paths).ignoresLog.bind fun _ => hpure false
  rw [announce, Job.effect_bind hlater, (Config.isQuery_load _).effect_eq]
  cases ((Config.load (settingsPath f)).effect t).1 with
  | ok c =>
    change (tell c.output.format.name paths >>= fun _ => pure false).effect t = _
    rw [Job.effect_bind fun _ => hpure false, effect_tell]
    rfl
  | error e => rfl

theorem ignoresLog_convertFile (env : Environment) (asText : Bool) (f : String) :
    (convertFile env asText f).IgnoresLog := by
  have hheading : (heading f).IsQuery :=
    (Job.isQuery_info _ _).bind fun _ => (Job.isQuery_info _ _).bind fun _ =>
      (Job.isQuery_info _ _).bind fun _ => (Job.isQuery_info _ _).bind fun _ => Job.isQuery_info _ _
  rw [convertFile_eq]
  refine hheading.ignoresLog.bind fun _ => Job.IgnoresLog.bind ?_ fun written =>
    (isQuery_announce f written).ignoresLog
  exact ((ignoresLog_conversion env asText f).bind fun _ =>
    (Job.isQuery_pure _).ignoresLog).tryCatch ignoresLog_settle

theorem ignoresLog_convertFiles (env : Environment) (asText : Bool) (n : Nat)
    (files : List String) : (convertFiles env asText n files).IgnoresLog := by
  induction files generalizing n with
  | nil => exact (Job.isQuery_pure _).ignoresLog
  | cons f files ih =>
    refine Job.isQuery_files.ignoresLog.bind fun t => ?_
    split
    · exact (ignoresLog_convertFile env asText f).bind fun failed => ih _
    · exact (Job.isQuery_report _ _ _).ignoresLog.bind fun _ => ih n

/-- Converting a file comes to a failure of its own, which is counted, to another one,
which ends the batch, or to output. -/
theorem effect_convertFile (env : Environment) (asText : Bool) (f : String) (t : FileTree) :
    (convertFile env asText f).effect t =
      match (conversion env asText f).effect t with
      | (.ok _, u) => (((Config.load (settingsPath f)).effect u).1.map fun _ => false, u)
      | (.error e, u) => (if (ownFailure? e).isSome then .ok true else .error e, u) := by
  -- No part looks at the log, so the heading can be dropped and the parts follow one
  -- another on the files.
  have hlater := fun written => (isQuery_announce f written).ignoresLog
  have htry := ((ignoresLog_conversion env asText f).bind fun paths =>
    (Job.isQuery_pure (some paths)).ignoresLog).tryCatch ignoresLog_settle
  rw [convertFile_eq, Job.effect_bind fun _ => htry.bind hlater]
  change (_ >>= _ : Job Bool).effect t = _
  rw [Job.effect_bind hlater, Job.effect_tryCatch ignoresLog_settle,
    Job.effect_bind fun _ => (Job.isQuery_pure _).ignoresLog]
  obtain ⟨result, u⟩ := (conversion env asText f).effect t
  cases result with
  | ok paths => exact effect_announce f paths u
  | error e =>
    simp only [settle]
    cases ownFailure? e <;> rfl

/-! ### Converting several files -/

/-- Files that are not there are left out. -/
theorem effect_convertFiles_cons (env : Environment) (asText : Bool) (n : Nat) (f : String)
    (files : List String) (t : FileTree) :
    (convertFiles env asText n (f :: files)).effect t =
      if t.has (.ofString f) then
        match (convertFile env asText f).effect t with
        | (.ok failed, u) => (convertFiles env asText (if failed then n + 1 else n) files).effect u
        | (.error e, u) => (.error e, u)
      else (convertFiles env asText n files).effect t := by
  rw [convertFiles, Job.effect_files_bind]
  split
  · rw [Job.effect_bind fun failed => ignoresLog_convertFiles env asText _ files]
    obtain ⟨result, u⟩ := (convertFile env asText f).effect t
    cases result <;> rfl
  · rw [Job.effect_report_bind (ignoresLog_convertFiles env asText n files)]

/-- Some files are converted, and then others. -/
theorem convertFiles_append (env : Environment) (asText : Bool) (n : Nat)
    (files others : List String) :
    convertFiles env asText n (files ++ others) =
      convertFiles env asText n files >>= fun m => convertFiles env asText m others := by
  induction files generalizing n with
  | nil => simp [convertFiles]
  | cons f files ih =>
    simp only [List.cons_append, convertFiles, bind_assoc, ih]
    refine bind_congr fun t => ?_
    split <;> simp

/-- A batch that starts with more failures ends with as many more. -/
theorem convertFiles_add (env : Environment) (asText : Bool) (k n : Nat) (files : List String) :
    convertFiles env asText (k + n) files = (k + ·) <$> convertFiles env asText n files := by
  induction files generalizing n with
  | nil => simp [convertFiles]
  | cons f files ih =>
    simp only [convertFiles, map_bind]
    refine bind_congr fun t => ?_
    split
    · simp only [map_bind]
      refine bind_congr fun failed => ?_
      cases failed with
      | true => exact ih (n + 1)
      | false => exact ih n
    · simp only [map_bind]
      exact bind_congr fun _ => ih n

end Batch

/-! ### Batches -/

/-- The exit code for a number of failures. -/
def exitCode (failures : Nat) : Nat := if failures = 0 then 0 else 1

theorem batch_eq_of_nil {arguments : List String} (h : arguments.filter Batch.isFile = []) :
    batch env arguments = Job.report .error Batch.component
      "Usage: run_convert.py [--csv] FILE [FILE ...]" >>= fun _ => pure 2 := by
  simp [batch, h]

theorem batch_eq_of_ne_nil {arguments : List String} (h : arguments.filter Batch.isFile ≠ []) :
    batch env arguments =
      Batch.convertFiles env (arguments.contains Batch.textFlag) 0
        (arguments.filter Batch.isFile) >>= fun failures =>
      Job.info Batch.component s!"All files processed ({failures} failed)." >>= fun _ =>
        pure (exitCode failures) := by
  have hnonempty : (arguments.filter Batch.isFile).isEmpty = false := by simpa using h
  simp only [batch, hnonempty, Bool.false_eq_true, if_false, exitCode]

theorem ignoresLog_batch (env : Environment) (arguments : List String) :
    (batch env arguments).IgnoresLog := by
  by_cases h : arguments.filter Batch.isFile = []
  · rw [batch_eq_of_nil h]
    exact ((Job.isQuery_report _ _ _).bind fun _ => Job.isQuery_pure _).ignoresLog
  · rw [batch_eq_of_ne_nil h]
    exact (Batch.ignoresLog_convertFiles _ _ _ _).bind fun _ =>
      ((Job.isQuery_info _ _).bind fun _ => Job.isQuery_pure _).ignoresLog

/-- A batch of some files converts them, and exits with the code for its failures. -/
theorem effect_batch {arguments : List String} (h : arguments.filter Batch.isFile ≠ [])
    (t : FileTree) :
    (batch env arguments).effect t =
      (((Batch.convertFiles env (arguments.contains Batch.textFlag) 0
          (arguments.filter Batch.isFile)).effect t).1.map exitCode,
        ((Batch.convertFiles env (arguments.contains Batch.textFlag) 0
          (arguments.filter Batch.isFile)).effect t).2) := by
  rw [batch_eq_of_ne_nil h, Job.effect_bind fun failures =>
    ((Job.isQuery_info _ _).bind fun _ => Job.isQuery_pure _).ignoresLog]
  generalize (Batch.convertFiles _ _ _ _).effect t = result
  obtain ⟨result, u⟩ := result
  cases result <;> rfl

end Delimited
