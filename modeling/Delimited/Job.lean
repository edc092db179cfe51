import Delimited.Failure

/-!
# Jobs

A job works on a file tree, keeps a log, and may fail. What it has done to the
tree and written to the log up to a failure stays.

## Main definitions

* `LogEntry`: a message with its level and the part of the program it is from.
* `World`: a file tree and the log so far.
* `Job`: a computation on a world.
-/

namespace Delimited

/-- How serious a message is. -/
inductive Level where
  /-- Progress. -/
  | info
  /-- Something was left out. -/
  | warning
  /-- Something went wrong. -/
  | error
  deriving DecidableEq, Repr

/-- The name of a level. -/
def Level.name : Level → String
  | info => "INFO"
  | warning => "WARNING"
  | error => "ERROR"

/-- A message of the log. -/
structure LogEntry where
  /-- How serious it is. -/
  level : Level
  /-- The part of the program it is from. -/
  component : String
  /-- What it says. -/
  message : String
  deriving DecidableEq, Repr

/-- What jobs work on. -/
structure World where
  /-- The files. -/
  files : FileTree := {}
  /-- The messages so far, in order. -/
  log : List LogEntry := []
  deriving DecidableEq, Repr

/-- A computation on a world that may fail. -/
abbrev Job := ExceptT Failure (StateM World)

namespace Job

variable {α : Type}

/-- Writes a message to the log. -/
def report (level : Level) (component message : String) : Job Unit :=
  modify fun w => { w with log := w.log ++ [⟨level, component, message⟩] }

/-- Writes a message about progress to the log. -/
def info (component message : String) : Job Unit := report .info component message

/-- A result, or the failure that a cause is. -/
def ofExcept {ε : Type} (failure : ε → Failure) : Except ε α → Job α
  | .ok a => pure a
  | .error e => throw (failure e)

/-- The files as they are. -/
def files : Job FileTree := return (← get).files

/-- Changes the files, or fails and leaves them. -/
def change (f : FileTree → Except OsError FileTree) : Job Unit := do
  let files ← ofExcept .os (f (← Job.files))
  modify fun w => { w with files }

/-- Makes a directory and those above it. The directories that were made before a
failure stay. -/
def ensureDirs (p : Path) : Job Unit := do
  let (files, error) := (← Job.files).ensureDirs p
  modify fun w => { w with files }
  match error with
  | none => pure ()
  | some e => throw (.os e)

end Job

end Delimited
