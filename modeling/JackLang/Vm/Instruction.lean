/-! # Instructions of the stack machine

A program of the stack machine is a list of instructions. Written out, each
takes one line; its text is put together from pieces that are written one
after the other.
-/

set_option autoImplicit false

namespace JackLang

inductive Segment where
  | constant | argument | «local» | static | this | that | pointer | temp
deriving DecidableEq, Repr

def Segment.text : Segment → String
  | .constant => "constant"
  | .argument => "argument"
  | .local => "local"
  | .static => "static"
  | .this => "this"
  | .that => "that"
  | .pointer => "pointer"
  | .temp => "temp"

/-- Arithmetic and logic on the operands on top of the stack. Comparisons and
subtraction take the operand below the top as their first one. -/
inductive Operation where
  | add | sub | neg | eq | gt | lt | and | or | not
deriving DecidableEq, Repr

def Operation.text : Operation → String
  | .add => "add"
  | .sub => "sub"
  | .neg => "neg"
  | .eq => "eq"
  | .gt => "gt"
  | .lt => "lt"
  | .and => "and"
  | .or => "or"
  | .not => "not"

inductive Instruction where
  | push (segment : Segment) (index : Nat)
  | pop (segment : Segment) (index : Nat)
  | operate (operation : Operation)
  | label (name : String)
  | goto (target : String)
  | ifGoto (target : String)
  | call (name : String) (arguments : Nat)
  | function (name : String) (locals : Nat)
  | return
deriving DecidableEq, Repr

namespace Instruction

def pieces : Instruction → List String
  | .push segment index => ["push ", segment.text, " ", toString index]
  | .pop segment index => ["pop ", segment.text, " ", toString index]
  | .operate operation => [operation.text]
  | .label name => ["label ", name]
  | .goto target => ["goto ", target]
  | .ifGoto target => ["if-goto ", target]
  | .call name arguments => ["call ", name, " ", toString arguments]
  | .function name locals => ["function ", name, " ", toString locals]
  | .return => ["return"]

def text (instruction : Instruction) : String :=
  String.join instruction.pieces

def linePieces (instruction : Instruction) : List String :=
  instruction.pieces ++ ["\n"]

end Instruction

end JackLang
