import JackLang.Command.Run

/-! # The command

The command line program: it works on the files of the machine, and writes
messages and its log to the standard error.
-/

set_option autoImplicit false

namespace JackLang

def HostError.ofIO : IO.Error → HostError
  | .noFileOrDirectory _ _ _ => .notFound
  | .alreadyExists _ _ _ => .fileExists
  | .inappropriateType _ 20 _ => .notADirectory
  | .inappropriateType _ 21 _ => .isADirectory
  | .invalidArgument _ 36 _ => .nameTooLong
  | error => .other (toString error)

def answerOf {α : Type} (action : IO α) : IO (Except HostError α) := do
  match ← action.toBaseIO with
  | .ok value => return .ok value
  | .error error => return .error (.ofIO error)

/-- A path as it leads from the directory that the command runs in. -/
def located (path : String) : IO.FS.DirEntry := ⟨".", path⟩

instance : Host IO where
  isPresent path := (located path).path.pathExists
  isDirectory path := (located path).path.isDir
  isFile path := return (← (located path).path.pathExists) && !(← (located path).path.isDir)
  entries path := answerOf do
    return (← (located path).path.readDir).toList.map (·.fileName)
  readText path := do
    match ← answerOf (IO.FS.readBinFile path) with
    | .error error => return .error error
    | .ok bytes =>
        match String.fromUTF8? bytes with
        | some text => return .ok text
        | none => return .error .notText
  writeText path text := answerOf (IO.FS.writeFile path text)
  makeDirectory path := answerOf (IO.FS.createDir path)
  log entry := IO.eprintln entry.line
  tell text := IO.eprint text

end JackLang

open JackLang in
def main (arguments : List String) : IO UInt32 := do
  match Invocation.ofArguments arguments with
  | .help =>
      IO.print Invocation.helpText
      return 0
  | .unusable =>
      IO.eprint Invocation.helpText
      return 2
  | .run options => return (← options.run (m := IO)).toNat.toUInt32
