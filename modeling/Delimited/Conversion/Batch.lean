import Delimited.Conversion.Workflow

/-!
# Converting several files

Every file has its own settings file and its own directory of output, both named
after it. A file that cannot be decoded or parsed is reported and the others are
still converted; a file that is not there is left out.

## Main definitions

* `Batch.convertFile`: converts one file.
* `batch`: converts the files among some arguments, and gives the exit code.
-/

namespace Delimited

namespace Batch

/-- The part of the program that converts several files. -/
def component : String := "run_convert"

/-- The directory of all output. -/
def outputRoot : Path := .ofString "outputs"

/-- The argument that asks for delimited text. -/
def textFlag : String := "--csv"

/-- Whether an argument names a file. -/
def isFile (argument : String) : Bool := !("--".toList.isPrefixOf argument.toList)

/-- The line above and below the heading of a file. -/
def rule : String := String.ofList (List.replicate 70 '=')

/-- Writes the settings of a file that has none yet. -/
def prepare (env : Environment) (asText : Bool) (inputPath outputDir configPath : String) :
    Job Unit := do
  let c ← firstRun env
    { inputPath, outputDir := .text outputDir, configPath, runNow := false }
  if asText then Config.save { c with output := { c.output with format := .csv } } configPath

/-- The message of a failure that concerns one file only. -/
def ownFailure? : Failure → Option String
  | .rejected source e => some (Failure.rejected source e).message
  | .undecodable p encoding e => some (Failure.undecodable p encoding e).message
  | _ => none

/-- Converts a file, after its settings have been written if there were none. -/
def convertOne (env : Environment) (asText : Bool) (inputPath outputDir configPath : String) :
    Job (List String) := do
  if !(← Job.files).has (.ofString configPath) then
    prepare env asText inputPath outputDir configPath
  convert env configPath

/-- Converts a file that is there, and tells whether it failed. -/
def convertFile (env : Environment) (asText : Bool) (inputPath : String) : Job Bool := do
  let name := (Path.ofString inputPath).stem
  let outputDir := toString (outputRoot.join name)
  let configPath := toString (outputRoot.join (name ++ ".yaml"))
  Job.info component rule
  Job.info component ("Processing: " ++ inputPath)
  Job.info component ("  output_dir  : " ++ outputDir)
  Job.info component ("  config_path : " ++ configPath)
  Job.info component rule
  let written ← try
      pure (some (← convertOne env asText inputPath outputDir configPath))
    catch failure =>
      match ownFailure? failure with
      | none => throw failure
      | some message =>
        Job.report .error component ("FAIL  " ++ message)
        pure none
  match written with
  | none => return true
  | some paths =>
    let format := (← Config.load configPath).output.format.name
    for path in paths do
      Job.info component ("  wrote " ++ path ++ " (" ++ format ++ ")")
    return false

/-- Converts files one after another, and counts those that failed. -/
def convertFiles (env : Environment) (asText : Bool) (failures : Nat) : List String → Job Nat
  | [] => return failures
  | inputPath :: files => do
    if (← Job.files).has (.ofString inputPath) then
      let failed ← convertFile env asText inputPath
      convertFiles env asText (if failed then failures + 1 else failures) files
    else
      Job.report .warning component ("SKIP  " ++ inputPath ++ "  (file not found)")
      convertFiles env asText failures files

end Batch

/-- Converts the files among some arguments. The exit code is two if there are
none, one if some failed, and zero otherwise. -/
def batch (env : Environment) (arguments : List String) : Job Nat := do
  let files := arguments.filter Batch.isFile
  if files.isEmpty then
    Job.report .error Batch.component "Usage: run_convert.py [--csv] FILE [FILE ...]"
    return 2
  let failures ← Batch.convertFiles env (arguments.contains Batch.textFlag) 0 files
  Job.info Batch.component s!"All files processed ({failures} failed)."
  return if failures = 0 then 0 else 1

end Delimited
