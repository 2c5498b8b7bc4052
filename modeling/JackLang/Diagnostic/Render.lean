import JackLang.Diagnostic.Basic
import JackLang.Source.FileTable
import JackLang.Text.Blank
import JackLang.Text.Columns

/-! # Rendering diagnostics

A diagnostic is shown with the lines it points at. On one line the label is
underlined by carets; a label over several lines is drawn as a bracket in
front of them, and of the lines in the middle only those near its ends are
shown.
-/

set_option autoImplicit false

namespace JackLang

namespace Snippet

def repeated (count : Nat) (piece : String) : String :=
  String.join (List.replicate count piece)

/-- The space in front of a line that bears no number. -/
def gutter (width : Nat) : String :=
  repeated (width + 1) " "

def numberGutter (width line : Nat) : String :=
  let digits := toString line
  repeated (width - digits.length) " " ++ digits ++ " "

/-- A line of the source as it is shown, without the characters that end it. -/
def trimLine (line : List Char) : List Char :=
  (line.reverse.dropWhile fun c => c = '\n' || c = '\r' || c.toNat = 0).reverse

def showCells (cells : List Cell) : String :=
  String.join (cells.map Cell.shown)

/-- The columns of the cells that start in front of a byte of their line. -/
def columnsBefore (cells : List Cell) (byte : Nat) : Nat :=
  (cells.filter fun cell => cell.offset < byte).foldr
    (fun cell columns => cell.columns + columns) 0

/-- What stands below a part of a line: carets where it meets the label, blanks
in front of the label's end, and nothing behind it. -/
def mark (start stop offset size columns : Nat) : String :=
  if max start offset < min stop (offset + size) then repeated columns "^"
  else if offset < stop then repeated columns " "
  else ""

/-- The carets below a line, for a label of the given bytes of that line. An
empty label gets one caret, and a label at the end of the line stands below
one column more. -/
def carets (line : List Char) (start stop : Nat) : String :=
  let stop := max stop (start + 1)
  String.join ((layOut line).map fun cell =>
    mark start stop cell.offset cell.char.utf8Size cell.columns) ++
    mark start stop (byteLength line) 1 1

def trailing (note : String) : String :=
  if note = "" then "" else " " ++ note

def linesBehindStart : Nat := 3

def linesBeforeEnd : Nat := 1

/-- A row below the first line of a label over several lines: one of its lines,
or a break for lines that are left out. -/
inductive Row where
  | line (line : Nat)
  | omission

/-- The rows that lead from one shown line to the next. A single line between
them is not worth a break. -/
def rowsBetween (previous next : Nat) : List Row :=
  if next - previous ≤ 1 then [.line next]
  else if next - previous = 2 then [.line (previous + 1), .line next]
  else [.omission, .line next]

def rowsOf : List Nat → List Row
  | previous :: next :: rest => rowsBetween previous next ++ rowsOf (next :: rest)
  | _ => []

/-- The lines of a label over several lines that are shown in any case. -/
def linesOf (first last : Nat) : List Nat :=
  let between := (List.range' (first + 1) (last - first - 1)).filter fun line =>
    line - first ≤ linesBehindStart || last - line ≤ linesBeforeEnd
  first :: between ++ [last]

def singleLine (width number : Nat) (line : List Char) (start stop : Nat) (note : String) :
    List String :=
  [gutter width ++ "│",
    numberGutter width number ++ "│ " ++ showCells (layOut line),
    gutter width ++ "│ " ++ carets line start stop ++ trailing note]

/-- The rows of the first line of a label over several lines. A label that
starts at the first character of its line opens the bracket on that line. -/
def openingRows (width number : Nat) (line : List Char) (start : Nat) : List String :=
  let cells := layOut line
  let shown := showCells cells
  let edge := numberGutter width number ++ "│ "
  if start ≤ byteLength (line.takeWhile isBlank) then [edge ++ "╭ " ++ shown]
  else
    [edge ++ "  " ++ shown,
      gutter width ++ "│ ╭" ++ repeated (columnsBefore cells (start + 1)) "─" ++ "^"]

def closingRow (width : Nat) (line : List Char) (stop : Nat) (note : String) : String :=
  gutter width ++ "│ ╰" ++ repeated (columnsBefore (layOut line) stop) "─" ++ "^" ++
    trailing note

def lineText (table : FileTable) (file line : Nat) : Except FileError (List Char) := do
  let text ← table.text file
  let range ← table.lineRange file line
  return trimLine (sliceBytes text.toList range)

def showRow (table : FileTable) (file width : Nat) : Row → Except FileError String
  | .omission => .ok (gutter width ++ "· │")
  | .line line => do
      let text ← lineText table file line
      return numberGutter width (line + 1) ++ "│ │ " ++ showCells (layOut text)

def manyLines (table : FileTable) (file width first last start stop : Nat) (note : String) :
    Except FileError (List String) := do
  let opening := openingRows width (first + 1) (← lineText table file first) start
  let rows ← (rowsOf (linesOf first last)).mapM (showRow table file width)
  let closing := closingRow width (← lineText table file last) stop note
  return (gutter width ++ "│  ") :: opening ++ rows ++ [closing]

end Snippet

open Snippet in
def Diagnostic.render (diagnostic : Diagnostic) (table : FileTable) (file : Nat) :
    Except FileError String := do
  let header := "error: " ++ diagnostic.message
  let rows ← match diagnostic.label with
    | none => pure []
    | some label => do
        let first ← table.lineIndex file label.span.start
        let firstRange ← table.lineRange file first
        let last ← table.lineIndex file label.span.stop
        let lastRange ← table.lineRange file last
        let name ← table.name file
        let (line, column) ← table.location file label.span.start
        let width := (toString (last + 1)).length
        let start := label.span.start - firstRange.start
        let stop := label.span.stop - lastRange.start
        let place := gutter width ++ s!"┌─ {name}:{line}:{column}"
        let rows ←
          if first = last then do
            let text ← lineText table file first
            pure (singleLine width (first + 1) text start stop label.note)
          else manyLines table file width first last start stop label.note
        pure (place :: rows)
  return String.join ((header :: rows ++ [""]).map (· ++ "\n"))

end JackLang
