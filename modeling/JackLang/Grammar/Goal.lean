import JackLang.Grammar.Expectation
import JackLang.Grammar.Rule
import JackLang.Scope
import JackLang.Vm.Label

/-! # Goals

What is left of a unit at some point of reading it is a stack of goals. A goal
asks for a token, marks the start or the end of a node of the parse tree,
orders an action of the compilation, or stands for a phrase of the grammar.
The look-ahead decides how a phrase continues, and `Phrase.expand` gives the
goals it is replaced by.
-/

set_option autoImplicit false

namespace JackLang

/-- What a call names: a subroutine of the class itself, or a subroutine behind
a receiver, which is a variable or else a class. -/
inductive Callee where
  | own (name : String)
  | member (receiver name : String)
deriving DecidableEq, Repr

/-- A step of the compilation. A token is handed on where an error would point
at it. -/
inductive Action where
  | nameClass (name : String)
  /-- The variables of the subroutine before are forgotten. -/
  | startSubroutine
  | nameSubroutine (kind : SubroutineKind) (name : String)
  | declare (kind : VariableKind) (type : String) (name : Token)
  /-- The header of a subroutine and what its kind does first. -/
  | enterBody (kind : SubroutineKind) (name : String)
  /-- A conditional or a loop takes its number. -/
  | number (number : Nat)
  | emit (instruction : Instruction)
  /-- The name has to be that of a variable. -/
  | require (name : Token)
  | load (name : Token)
  | store (name : Token)
  | integer (constant : Token)
  | string (constant : Token)
  /-- The receiver of a call is pushed if it is a variable. -/
  | receive (callee : Callee)
  /-- An argument follows the given number of others, with its first token. -/
  | argument (callee : Callee) (count : Nat) (first : Token)
  | invoke (callee : Callee) (count : Nat)
deriving DecidableEq, Repr

inductive NameRole where
  | className
  | declared (kind : VariableKind) (type : String)
  | parameter (type : String)
  | subroutine (kind : SubroutineKind)
  | letTarget
  | doCallee
  | member (receiver : String)
deriving DecidableEq, Repr

inductive TypeRole where
  | declared (kind : VariableKind)
  | parameter
  | result
deriving DecidableEq, Repr

/-- The phrases whose continuation depends on the look-ahead. -/
inductive Phrase where
  | classVariables
  | moreNames (kind : VariableKind) (type : String)
  | subroutines
  | resultType
  | parameters
  | moreParameters
  | locals
  | statements
  | moreStatements
  | letRest (target : Token)
  | ifRest
  | elseRest
  | whileRest
  | returnRest
  | expression
  | operators
  | term
  | termBody
  | afterName (name : Token)
  | call (name : String)
  | arguments (callee : Callee)
  | argument (callee : Callee) (count : Nat)
  | moreArguments (callee : Callee) (count : Nat)
deriving DecidableEq, Repr

inductive Goal where
  | token (kind : TokenKind) (expected : Expectation)
  /-- Takes the look-ahead, which has already been examined. -/
  | shift
  | name (role : NameRole)
  | type (role : TypeRole)
  | opening (rule : Rule)
  | closing (rule : Rule)
  | act (action : Action)
  | phrase (phrase : Phrase)
deriving DecidableEq, Repr

namespace Goal

def symbol (mark : Symbol) (expected : Expectation) : Goal :=
  .token (.symbol mark) expected

def emit (instruction : Instruction) : Goal :=
  .act (.emit instruction)

/-- A whole unit: one class and the end of the file. -/
def unit : List Goal :=
  [.opening .class, .token (.keyword .class) .classKeyword, .name .className,
    .symbol .leftBrace .classBodyStart, .phrase .classVariables, .phrase .subroutines,
    .symbol .rightBrace .classBodyEnd, .closing .class, .token .endOfFile .endOfFile]

def block : List Goal :=
  [.symbol .leftBrace .statementsStart, .phrase .statements,
    .symbol .rightBrace .statementsEnd]

def subroutine (kind : SubroutineKind) (name : String) : List Goal :=
  [.act (.nameSubroutine kind name),
    .symbol .leftParen .parametersStart,
    .opening .parameterList, .phrase .parameters, .closing .parameterList,
    .symbol .rightParen .parametersEnd,
    .opening .subroutineBody, .symbol .leftBrace .subroutineBodyStart, .phrase .locals,
    .act (.enterBody kind name), .phrase .statements,
    .symbol .rightBrace .subroutineBodyEnd, .closing .subroutineBody,
    .closing .subroutineDec]

def condition (expected : Expectation) : List Goal :=
  [.symbol .leftParen expected, .phrase .expression, .symbol .rightParen .conditionEnd]

def callEnd (callee : Callee) (count : Nat) : List Goal :=
  [.closing .expressionList, .symbol .rightParen .argumentsEnd, .act (.invoke callee count)]

end Goal

namespace NameRole

def expected : NameRole → Expectation
  | .className => .className
  | .declared _ _ => .variableName
  | .parameter _ => .parameterName
  | .subroutine _ => .subroutineName
  | .letTarget => .letTarget
  | .doCallee => .doCall
  | .member _ => .memberName

def next (name : Token) : NameRole → List Goal
  | .className => [.act (.nameClass name.lexeme)]
  | .declared kind type => [.act (.declare kind type name), .phrase (.moreNames kind type)]
  | .parameter type => [.act (.declare .argument type name), .phrase .moreParameters]
  | .subroutine kind => Goal.subroutine kind name.lexeme
  | .letTarget => [.phrase (.letRest name)]
  | .doCallee => [.phrase (.call name.lexeme)]
  | .member receiver =>
      let callee := Callee.member receiver name.lexeme
      [.act (.receive callee), .symbol .leftParen .parametersStart, .phrase (.arguments callee)]

end NameRole

def TypeRole.next (type : String) : TypeRole → List Goal
  | .declared kind => [.name (.declared kind type)]
  | .parameter => [.name (.parameter type)]
  | .result => []

namespace Phrase

/-- How many numbers of conditionals and loops a phrase takes. -/
def numbersTaken : Phrase → Nat
  | .ifRest => 1
  | .whileRest => 1
  | _ => 0

def declaration (rule : Rule) (kind : VariableKind) (more : Phrase) : List Goal :=
  [.opening rule, .shift, .type (.declared kind), .symbol .semicolon .declarationEnd,
    .closing rule, .phrase more]

/-- A subroutine from its keyword on, and those behind it. -/
def subroutine (kind : SubroutineKind) : List Goal :=
  [.opening .subroutineDec, .shift, .act .startSubroutine, .phrase .resultType,
    .name (.subroutine kind), .phrase .subroutines]

/-- A statement from its keyword on, and those behind it. -/
def statement (rule : Rule) (rest : List Goal) : List Goal :=
  .opening rule :: .shift :: rest ++ [.closing rule, .phrase .moreStatements]

/-- An assignment behind its target. The address of an array element is complete
before the value is evaluated, and the value is put aside while `that` is set. -/
def assignment (target : Token) (look : TokenKind) : List Goal :=
  .act (.require target) ::
    if look = .symbol .leftBracket then
      [.shift, .act (.load target), .phrase .expression, .symbol .rightBracket .indexEnd,
        .emit (.operate .add), .symbol .equal .equalAfterElement, .phrase .expression,
        .symbol .semicolon .letEnd, .emit (.pop .temp 0), .emit (.pop .pointer 1),
        .emit (.push .temp 0), .emit (.pop .that 0)]
    else
      [.symbol .equal .equalAfterName, .phrase .expression, .symbol .semicolon .letEnd,
        .act (.store target)]

def conditional (number : Nat) : List Goal :=
  .act (.number number) :: Goal.condition .ifCondition ++
    [.emit (.ifGoto (LabelFamily.ifTrue.label number)),
      .emit (.goto (LabelFamily.ifFalse.label number)),
      .emit (.label (LabelFamily.ifTrue.label number))] ++ Goal.block ++
    [.emit (.goto (LabelFamily.ifEnd.label number)),
      .emit (.label (LabelFamily.ifFalse.label number)), .phrase .elseRest,
      .emit (.label (LabelFamily.ifEnd.label number))]

def loop (number : Nat) : List Goal :=
  .act (.number number) :: .emit (.label (LabelFamily.whileStart.label number)) ::
    Goal.condition .whileCondition ++
    [.emit (.operate .not), .emit (.ifGoto (LabelFamily.whileEnd.label number))] ++
    Goal.block ++
    [.emit (.goto (LabelFamily.whileStart.label number)),
      .emit (.label (LabelFamily.whileEnd.label number))]

/-- A term behind its node's opening, from the look-ahead it starts with. -/
def startTerm (look : Token) : Except Expectation (List Goal) :=
  match look.kind with
  | .integerConstant => .ok [.shift, .act (.integer look)]
  | .stringConstant => .ok [.shift, .act (.string look)]
  | .keyword .trueConstant => .ok [.shift, .emit (.push .constant 0), .emit (.operate .not)]
  | .keyword .falseConstant => .ok [.shift, .emit (.push .constant 0)]
  | .keyword .nullConstant => .ok [.shift, .emit (.push .constant 0)]
  | .keyword .thisConstant => .ok [.shift, .emit (.push .pointer 0)]
  | .symbol .leftParen =>
      .ok [.shift, .phrase .expression, .symbol .rightParen .parenthesisEnd]
  | .symbol .minus => .ok [.shift, .phrase .term, .emit UnaryOperator.neg.code]
  | .symbol .tilde => .ok [.shift, .phrase .term, .emit UnaryOperator.not.code]
  | .identifier => .ok [.shift, .phrase (.afterName look)]
  | _ => .error .expression

/-- The goals that replace a phrase in front of the given look-ahead. The number
is the one that the next conditional or loop takes. -/
def expand (look : Token) (number : Nat) : Phrase → Except Expectation (List Goal)
  | .classVariables =>
      match look.kind with
      | .keyword .static => .ok (declaration .classVarDec .static .classVariables)
      | .keyword .field => .ok (declaration .classVarDec .field .classVariables)
      | _ => .ok []
  | .moreNames kind type =>
      if look.kind = .symbol .comma then .ok [.shift, .name (.declared kind type)] else .ok []
  | .subroutines =>
      match look.kind with
      | .keyword .constructor => .ok (subroutine .constructor)
      | .keyword .function => .ok (subroutine .function)
      | .keyword .method => .ok (subroutine .method)
      | _ => .ok []
  | .resultType =>
      if look.kind = .keyword .void then .ok [.shift] else .ok [.type .result]
  | .parameters =>
      if look.kind = .symbol .rightParen then .ok [] else .ok [.type .parameter]
  | .moreParameters =>
      if look.kind = .symbol .comma then .ok [.shift, .type .parameter] else .ok []
  | .locals =>
      if look.kind = .keyword .var then .ok (declaration .varDec .local .locals) else .ok []
  | .statements => .ok [.opening .statements, .phrase .moreStatements]
  | .moreStatements =>
      match look.kind with
      | .keyword .let => .ok (statement .letStatement [.name .letTarget])
      | .keyword .if => .ok (statement .ifStatement [.phrase .ifRest])
      | .keyword .while => .ok (statement .whileStatement [.phrase .whileRest])
      | .keyword .do =>
          .ok (statement .doStatement
            [.name .doCallee, .symbol .semicolon .doEnd, .emit (.pop .temp 0)])
      | .keyword .return => .ok (statement .returnStatement [.phrase .returnRest])
      | _ => .ok [.closing .statements]
  | .letRest target => .ok (assignment target look.kind)
  | .ifRest => .ok (conditional number)
  | .elseRest => if look.kind = .keyword .else then .ok (.shift :: Goal.block) else .ok []
  | .whileRest => .ok (loop number)
  | .returnRest =>
      let value : Goal :=
        if look.kind = .symbol .semicolon then .emit (.push .constant 0) else .phrase .expression
      .ok [value, .symbol .semicolon .returnEnd, .emit .return]
  | .expression =>
      .ok [.opening .expression, .phrase .term, .phrase .operators, .closing .expression]
  | .operators =>
      match BinaryOperator.ofKind? look.kind with
      | some operator => .ok [.shift, .phrase .term, .emit operator.code, .phrase .operators]
      | none => .ok []
  | .term => .ok [.opening .term, .phrase .termBody, .closing .term]
  | .termBody => startTerm look
  | .afterName name =>
      match look.kind with
      | .symbol .leftBracket =>
          .ok [.act (.require name), .shift, .act (.load name), .phrase .expression,
            .symbol .rightBracket .indexEnd, .emit (.operate .add), .emit (.pop .pointer 1),
            .emit (.push .that 0)]
      | .symbol .leftParen => .ok [.phrase (.call name.lexeme)]
      | .symbol .dot => .ok [.phrase (.call name.lexeme)]
      | _ => .ok [.act (.load name)]
  | .call name =>
      match look.kind with
      | .symbol .leftParen =>
          .ok [.shift, .emit (.push .pointer 0), .phrase (.arguments (.own name))]
      | .symbol .dot => .ok [.shift, .name (.member name)]
      | _ => .error .callStart
  | .arguments callee =>
      if look.kind = .symbol .rightParen then
        .ok (.opening .expressionList :: Goal.callEnd callee 0)
      else .ok [.opening .expressionList, .phrase (.argument callee 0)]
  | .argument callee count =>
      .ok [.act (.argument callee count look), .phrase .expression,
        .phrase (.moreArguments callee (count + 1))]
  | .moreArguments callee count =>
      if look.kind = .symbol .comma then .ok [.shift, .phrase (.argument callee count)]
      else .ok (Goal.callEnd callee count)

end Phrase

end JackLang
