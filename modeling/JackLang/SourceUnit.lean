import JackLang.Path
import JackLang.Token.Scan

/-! # Units

A unit is a file with the extension `jack`. Its output is named for it, and it
declares the class that its first tokens name.
-/

set_option autoImplicit false

namespace JackLang.SourceUnit

def extension : String := "jack"

def hasExtension (path : String) : Bool :=
  Path.extension? path = some extension

/-- Where the output of a unit goes: to the given directory, else to that of the
unit. A path that ends in no name has no output. -/
def outputPath? (unit : String) (directory : Option String) (suffix : String) :
    Option String :=
  (Path.stem? unit).map fun stem =>
    match directory.or (Path.parent? unit) with
    | some directory => Path.join directory (stem ++ suffix)
    | none => stem ++ suffix

/-- The class that a source declares, if it starts as a class has to. -/
def declaredClass? (source : String) : Option String :=
  let (first, rest) := (TokenStream.ofSource source).advance
  let (second, _) := rest.advance
  if first.kind = .keyword .class && second.kind = .identifier then some second.lexeme
  else none

end JackLang.SourceUnit
