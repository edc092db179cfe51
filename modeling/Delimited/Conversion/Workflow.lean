import Delimited.Config.File
import Delimited.Conversion.Description
import Delimited.Conversion.Environment
import Delimited.Conversion.Export
import Delimited.Conversion.Source

/-!
# Conversions

A first run reads a source, makes settings for it and keeps them in a file; later
runs follow the settings file.

## Main definitions

* `runPipeline`: from records to output files.
* `FirstRun`, `firstRun`: the first run.
* `convert`: a later run.
-/

namespace Delimited

/-- Makes the table of a document, describes it on demand, and writes the output
files. Gives their paths. -/
def runPipeline (env : Environment) (c : Config) (document : Document) : Job (List String) := do
  let t ← transform env.numbers c document
  let description ←
    if c.output.writeMeta then
      pure (some (← describe env.now c t document.length))
    else pure none
  let written ← exportTable env.tables c.table.tableName t.table description c.output
  Job.info "csv_combinators._pipeline" s!"Pipeline complete: wrote {written.length} files"
  return written

/-- The part of the program that runs conversions. -/
def workflowComponent : String := "csv_combinators"

/-- Where settings are kept when no other file is named. -/
def defaultConfigPath : String := "csvconfig.yaml"

/-- What a first run is asked to do. -/
structure FirstRun where
  /-- The source. -/
  inputPath : String
  /-- The directory of the output, which settings hold as a text. -/
  outputDir : Value := .text "outputs/"
  /-- Where the settings are kept. -/
  configPath : String := defaultConfigPath
  /-- Whether the first record names the columns. -/
  header : Value := .bool true
  /-- Whether the conversion is run at once. -/
  runNow : Bool := true

/-- A value inside a message: texts stand without quotes. -/
def plainText : Value → String
  | .text s => s
  | v => v.shown

/-- Makes settings for a source and keeps them in a file, after the source has
been read, and runs the conversion on demand. -/
def firstRun (env : Environment) (r : FirstRun) : Job Config := do
  Job.info workflowComponent
    ("init() -- input_path=" ++ r.inputPath ++ ", output_dir=" ++ plainText r.outputDir)
  let c ← Job.ofExcept .invalidConfig (Config.initial r.inputPath r.outputDir r.header)
  let document ← parseFile r.inputPath c.source.encoding
  c.save r.configPath
  if r.runNow then
    Job.info workflowComponent "run_immediately=True -- running pipeline"
    discard (runPipeline env c document)
  return c

/-- Converts the source of a settings file. Gives the paths of the output files. -/
def convert (env : Environment) (configPath : String) : Job (List String) := do
  Job.info workflowComponent ("convert() -- config_path=" ++ configPath)
  let c ← Config.load configPath
  let document ← parseFile c.source.inputPath c.source.encoding
  runPipeline env c document

end Delimited
