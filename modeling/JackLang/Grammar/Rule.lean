import JackLang.Token.Basic
import JackLang.Vm.Instruction

/-! # Rules of the grammar

The rules that give a parse tree its nodes, the kinds of subroutines,
and the operators with the code that applies them to operands on the stack.
-/

set_option autoImplicit false

namespace JackLang

inductive Rule where
  | «class» | classVarDec | subroutineDec | parameterList | subroutineBody | varDec
  | statements | letStatement | ifStatement | whileStatement | doStatement
  | returnStatement | expression | term | expressionList
deriving DecidableEq, Repr

def Rule.tag : Rule → String
  | .class => "class"
  | .classVarDec => "classVarDec"
  | .subroutineDec => "subroutineDec"
  | .parameterList => "parameterList"
  | .subroutineBody => "subroutineBody"
  | .varDec => "varDec"
  | .statements => "statements"
  | .letStatement => "letStatement"
  | .ifStatement => "ifStatement"
  | .whileStatement => "whileStatement"
  | .doStatement => "doStatement"
  | .returnStatement => "returnStatement"
  | .expression => "expression"
  | .term => "term"
  | .expressionList => "expressionList"

inductive SubroutineKind where
  | constructor | function | method
deriving DecidableEq, Repr

inductive BinaryOperator where
  | add | sub | mul | div | and | or | lt | gt | eq
deriving DecidableEq, Repr

namespace BinaryOperator

def symbol : BinaryOperator → Symbol
  | .add => .plus
  | .sub => .minus
  | .mul => .star
  | .div => .slash
  | .and => .ampersand
  | .or => .pipe
  | .lt => .less
  | .gt => .greater
  | .eq => .equal

def ofSymbol? : Symbol → Option BinaryOperator
  | .plus => some .add
  | .minus => some .sub
  | .star => some .mul
  | .slash => some .div
  | .ampersand => some .and
  | .pipe => some .or
  | .less => some .lt
  | .greater => some .gt
  | .equal => some .eq
  | _ => none

def ofKind? : TokenKind → Option BinaryOperator
  | .symbol mark => ofSymbol? mark
  | _ => none

theorem ofKind?_eq_some_iff {kind : TokenKind} {operator : BinaryOperator} :
    ofKind? kind = some operator ↔ kind = .symbol operator.symbol := by
  cases kind with
  | symbol mark => cases mark <;> cases operator <;> decide
  | _ => simp [ofKind?]

/-- The instruction that applies an operator to the two topmost operands. The
machine has no multiplication and no division, so these are calls. -/
def code : BinaryOperator → Instruction
  | .add => .operate .add
  | .sub => .operate .sub
  | .mul => .call "Math.multiply" 2
  | .div => .call "Math.divide" 2
  | .and => .operate .and
  | .or => .operate .or
  | .lt => .operate .lt
  | .gt => .operate .gt
  | .eq => .operate .eq

end BinaryOperator

inductive UnaryOperator where
  | neg | not
deriving DecidableEq, Repr

namespace UnaryOperator

def symbol : UnaryOperator → Symbol
  | .neg => .minus
  | .not => .tilde

def code : UnaryOperator → Instruction
  | .neg => .operate .neg
  | .not => .operate .not

end UnaryOperator

/-- Whether a token of the kind can stand for the type of a variable. -/
def TokenKind.isType : TokenKind → Bool
  | .keyword .int => true
  | .keyword .char => true
  | .keyword .boolean => true
  | .identifier => true
  | _ => false

end JackLang
