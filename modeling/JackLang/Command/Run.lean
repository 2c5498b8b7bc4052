import JackLang.Command.Host
import JackLang.Command.Options
import JackLang.Diagnostic.Render
import JackLang.SourceUnit

/-! # Running the command

The command turns each unit into its output, one after the other. A unit that
fails has its diagnostic shown and ends the run, unless it is to go on; trouble
with the files ends it in any case.
-/

set_option autoImplicit false

namespace JackLang

inductive CommandError where
  | noTask
  | absent (path : String)
  | notAUnit (path : String)
  | noUnits (path : String)
  | unlistable (path : String) (error : HostError)
  | noOutDir (path : String) (error : HostError)
  | unreadable (path : String) (error : HostError)
  | noFileName (path : String)
  | uncreatable (path : String) (error : HostError)
  /-- The files have no answer to where a diagnostic points. -/
  | unlocated (error : FileError)
deriving DecidableEq, Repr

def CommandError.message : CommandError → String
  | .noTask => "Unimplemented command"
  | .absent path => s!"{path} does not exist"
  | .notAUnit path => s!"{path} is not a .{SourceUnit.extension} file"
  | .noUnits path => s!"No .{SourceUnit.extension} files found in {path}"
  | .unlistable path error => s!"Unable to read directory {path}: {error.message}"
  | .noOutDir path error => s!"Unable to create output directory {path}: {error.message}"
  | .unreadable path error => s!"Unable to read {path}: {error.message}"
  | .noFileName path => s!"{path} has no file name"
  | .uncreatable path error => s!"Unable to create {path}: {error.message}"
  | .unlocated error => error.message

inductive ExitCode where
  | success
  | compileError
  | commandError
deriving DecidableEq, Repr

def ExitCode.toNat : ExitCode → Nat
  | .success => 0
  | .compileError => 1
  | .commandError => 2

section

variable {m : Type → Type} [Monad m] [Host m]

abbrev CommandM (m : Type → Type) := ExceptT CommandError m

/-- Goes on with what the host answers, or fails in the words of the command. -/
def orFail {α : Type} (name : HostError → CommandError) (answer : Except HostError α) :
    CommandM m α :=
  match answer with
  | .ok value => pure value
  | .error error => throw (name error)

def logAt (level : LogLevel) (entry : LogEntry) : CommandM m Unit :=
  if entry.isShown level then ExceptT.lift (Host.log entry) else pure ()

def isUnit (path : String) : CommandM m Bool := do
  if SourceUnit.hasExtension path then ExceptT.lift (Host.isFile path) else return false

/-- The units that a path names: a single one, or those of a directory in the
order of their names. -/
def collectUnits (path : String) : CommandM m (List String) := do
  if ← ExceptT.lift (Host.isDirectory path) then
    let names ← orFail (.unlistable path) (← ExceptT.lift (Host.entries path))
    let units ← ((names.mergeSort fun a b => a ≤ b).map (Path.join path)).filterM isUnit
    if units.isEmpty then throw (.noUnits path)
    return units
  else if ← ExceptT.lift (Host.isPresent path) then
    if ← isUnit path then return [path]
    throw (.notAUnit path)
  else throw (.absent path)

/-- Warns of a unit that is not named for its class. -/
def checkName (level : LogLevel) (unit source : String) : CommandM m Unit :=
  match SourceUnit.declaredClass? source, Path.stem? unit with
  | some className, some stem =>
      if stem = className then pure () else logAt level (.nameMismatch unit className)
  | _, _ => pure ()

/-- Turns a unit into its output, and tells whether that succeeded. Files that a
diagnostic may point at are entered in the table. -/
def runUnit (level : LogLevel) (task : Task) (table : FileTable) (unit : String) :
    CommandM m (FileTable × Bool) := do
  let source ← orFail (.unreadable unit) (← ExceptT.lift (Host.readText unit))
  checkName level unit source
  match SourceUnit.outputPath? unit task.outDir task.kind.suffix with
  | none => throw (.noFileName unit)
  | some output =>
      let outcome := task.kind.write source .unlimited
      orFail (.uncreatable output) (← ExceptT.lift (Host.writeText output outcome.text))
      outcome.log.forM (logAt level)
      let (table, number) := table.upsert unit source
      match table.setLineOffsets number (.ofSource source) with
      | .error error => throw (.unlocated error)
      | .ok table =>
          match outcome.error with
          | none =>
              logAt level (.unitWritten unit output)
              return (table, true)
          | some error =>
              match error.diagnostic.render table number with
              | .error error => throw (.unlocated error)
              | .ok text =>
                  ExceptT.lift (Host.tell text)
                  return (table, false)

def runUnits (level : LogLevel) (task : Task) (table : FileTable) :
    List String → CommandM m Bool
  | [] => return true
  | unit :: rest => do
      let (table, succeeded) ← runUnit level task table unit
      if succeeded then runUnits level task table rest
      else if task.keepGoing then
        let _ ← runUnits level task table rest
        return false
      else return false

/-- Carries out a task, and tells whether all its units succeeded. -/
def runTask (level : LogLevel) (task : Task) : CommandM m Bool := do
  let units ← collectUnits task.path
  match task.outDir with
  | none => pure ()
  | some directory =>
      orFail (.noOutDir directory) (← ExceptT.lift (makeDirectories directory))
  runUnits level task .empty units

def Options.run (options : Options) : m ExitCode := do
  let work : CommandM m Bool :=
    match options.task with
    | none => throw .noTask
    | some task => runTask options.level task
  match ← work.run with
  | .ok true => return .success
  | .ok false => return .compileError
  | .error error =>
      Host.tell s!"error: {error.message}\n"
      return .commandError

end

end JackLang
