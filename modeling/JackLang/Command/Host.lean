import JackLang.Log
import JackLang.Path

/-! # The host of the command

The command works on files and directories through the operations of a host,
and tells what it does through the host's log and its messages.
-/

set_option autoImplicit false

namespace JackLang

/-- Why an operation on a file or a directory is refused. -/
inductive HostError where
  | notFound
  | fileExists
  | notADirectory
  | isADirectory
  | nameTooLong
  | notText
  | other (description : String)
deriving DecidableEq, Repr

def HostError.message : HostError → String
  | .notFound => "No such file or directory (os error 2)"
  | .fileExists => "File exists (os error 17)"
  | .notADirectory => "Not a directory (os error 20)"
  | .isADirectory => "Is a directory (os error 21)"
  | .nameTooLong => "File name too long (os error 36)"
  | .notText => "stream did not contain valid UTF-8"
  | .other description => description

/-- The operations of a host. A directory gives the names of its entries in any
order, and writing replaces what a file holds. -/
class Host (m : Type → Type) where
  isPresent : String → m Bool
  isDirectory : String → m Bool
  isFile : String → m Bool
  entries : String → m (Except HostError (List String))
  readText : String → m (Except HostError String)
  writeText : String → String → m (Except HostError Unit)
  makeDirectory : String → m (Except HostError Unit)
  log : LogEntry → m Unit
  tell : String → m Unit

variable {m : Type → Type} [Monad m] [Host m]

/-- Makes a directory behind the ones around it have been made. One that is
already there, or comes to be there meanwhile, is taken as it is. -/
def makeDirectories (path : String) : m (Except HostError Unit) := do
  if path = "" then return .ok ()
  match ← Host.makeDirectory path with
  | .ok () => return .ok ()
  | .error .notFound =>
      match _h : Path.parent? path with
      | none => return .error (.other "failed to create whole tree")
      | some parent =>
          match ← makeDirectories parent with
          | .error error => return .error error
          | .ok () =>
              match ← Host.makeDirectory path with
              | .ok () => return .ok ()
              | .error error =>
                  return if ← Host.isDirectory path then .ok () else .error error
  | .error error => return if ← Host.isDirectory path then .ok () else .error error
termination_by path.toList.length
decreasing_by exact Path.length_parent? _h

end JackLang
