import JackLang.Source.LineOffsets

/-! # The table of files

The sources of a run are kept in a table, numbered in the order in which
their names were first entered. A file has line offsets once they have been
stored for its present text; entering a name again replaces the text and
forgets the offsets.
-/

set_option autoImplicit false

namespace JackLang

/-- A named source, with its line offsets if they are known. -/
structure SourceFile where
  name : String
  text : String
  lineOffsets : Option LineOffsets

/-- The files of a run. The number of a file is its place. -/
structure FileTable where
  files : Array SourceFile

/-- Why the table has no answer. A place that is too large is given with the
greatest one there is. -/
inductive FileError where
  | fileMissing
  | indexTooLarge (given greatest : Nat)
  | lineTooLarge (given greatest : Nat)
deriving DecidableEq, Repr

def FileError.message : FileError → String
  | .fileMissing => "file missing"
  | .indexTooLarge given greatest =>
      s!"invalid index {given}, maximum index is {greatest}"
  | .lineTooLarge given greatest =>
      s!"invalid line {given}, maximum line is {greatest}"

namespace FileTable

def empty : FileTable := ⟨#[]⟩

def upsert (table : FileTable) (name text : String) : FileTable × Nat :=
  let file : SourceFile := ⟨name, text, none⟩
  match table.files.findIdx? (·.name = name) with
  | some number => (⟨table.files.setIfInBounds number file⟩, number)
  | none => (⟨table.files.push file⟩, table.files.size)

def file (table : FileTable) (number : Nat) : Except FileError SourceFile :=
  match table.files[number]? with
  | some file => .ok file
  | none => .error .fileMissing

def name (table : FileTable) (number : Nat) : Except FileError String :=
  return (← table.file number).name

def text (table : FileTable) (number : Nat) : Except FileError String :=
  return (← table.file number).text

def setLineOffsets (table : FileTable) (number : Nat) (offsets : LineOffsets) :
    Except FileError FileTable := do
  let file ← table.file number
  return ⟨table.files.setIfInBounds number { file with lineOffsets := some offsets }⟩

def lineOffsets (table : FileTable) (number : Nat) : Except FileError LineOffsets := do
  match (← table.file number).lineOffsets with
  | some offsets => return offsets
  | none => .error .fileMissing

/-- The line, counted from 0, of a byte of a file. -/
def lineIndex (table : FileTable) (number byte : Nat) : Except FileError Nat := do
  let file ← table.file number
  match (← table.lineOffsets number).lineOf byte with
  | .ok line => return line
  | .error _ => .error (.indexTooLarge byte (byteLength file.text.toList))

/-- The byte range of a line, counted from 0, of a file. -/
def lineRange (table : FileTable) (number line : Nat) : Except FileError Span := do
  let offsets ← table.lineOffsets number
  match offsets.lineRange line with
  | .ok range => return range
  | .error _ => .error (.lineTooLarge line offsets.lines)

/-- The column, counted from 1, at which a byte stands on a line: one more
than the number of the line's characters that end in front of it. -/
def columnNumber (table : FileTable) (number line byte : Nat) : Except FileError Nat := do
  let text := (← table.text number).toList
  let range ← table.lineRange number line
  let stop := min byte (min range.stop (byteLength text))
  return charsEndingWithin text ⟨range.start, stop⟩ + 1

/-- The line and the column of a byte, both counted from 1. -/
def location (table : FileTable) (number byte : Nat) : Except FileError (Nat × Nat) := do
  let line ← table.lineIndex number byte
  return (line + 1, ← table.columnNumber number line byte)

end FileTable

end JackLang
