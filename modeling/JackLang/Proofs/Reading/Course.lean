import JackLang.Compilation.Code
import JackLang.Proofs.Reading.Places
import JackLang.Proofs.Reading.Words

/-! # The course of a derivation

The steps in which a derivation tree is read, by recursion on the tree: nodes
open and close, words are taken, and the actions stand where the look-ahead
behind them is already known. Conditionals and loops carry their numbers.
-/

set_option autoImplicit false

namespace JackLang

namespace Step

/-- A word is taken. -/
def takes (word : Word) : Step := .took word.token

def symbol (mark : Symbol) : Step := takes (.symbol mark)

def keyword (word : Keyword) : Step := takes (.keyword word)

def identifier (name : String) : Step := takes (.identifier name)

def emit (instruction : Instruction) : Step := .act (.emit instruction)

/-- The steps of a node of the parse tree. -/
def node (rule : Rule) (inner : List Step) : List Step :=
  .opened rule :: inner ++ [.closed rule]

end Step

open Step (node takes symbol keyword identifier emit)

/-- The token that a name is handed on as. -/
def nameToken (name : String) : Token := (Word.identifier name).token

mutual

def Expression.course : Expression → List Step
  | .single term => node .term term.course
  | .operate first operator last =>
      first.course ++ symbol operator.symbol :: node .term last.course ++ [emit operator.code]

def Term.course : Term → List Step
  | .integer digits =>
      [takes ⟨.integerConstant, digits⟩,
        .act (.integer (Word.token ⟨.integerConstant, digits⟩))]
  | .string content =>
      [takes ⟨.stringConstant, content⟩,
        .act (.string (Word.token ⟨.stringConstant, content⟩))]
  | .trueConstant => [keyword .trueConstant, emit (.push .constant 0), emit (.operate .not)]
  | .falseConstant => [keyword .falseConstant, emit (.push .constant 0)]
  | .nullConstant => [keyword .nullConstant, emit (.push .constant 0)]
  | .thisConstant => [keyword .thisConstant, emit (.push .pointer 0)]
  | .parenthesized inner =>
      symbol .leftParen :: node .expression inner.course ++ [symbol .rightParen]
  | .unary operator operand =>
      symbol operator.symbol :: node .term operand.course ++ [emit operator.code]
  | .name name => [identifier name, .act (.load (nameToken name))]
  | .element array index =>
      identifier array :: .act (.require (nameToken array)) :: symbol .leftBracket ::
        .act (.load (nameToken array)) :: node .expression index.course ++
        [symbol .rightBracket, emit (.operate .add), emit (.pop .pointer 1),
          emit (.push .that 0)]
  | .ownCall name arguments =>
      identifier name :: symbol .leftParen :: emit (.push .pointer 0) ::
        node .expressionList (arguments.course (.own name)) ++
        [symbol .rightParen, .act (.invoke (.own name) arguments.count)]
  | .memberCall receiver name arguments =>
      identifier receiver :: symbol .dot :: identifier name ::
        .act (.receive (.member receiver name)) :: symbol .leftParen ::
        node .expressionList (arguments.course (.member receiver name)) ++
        [symbol .rightParen, .act (.invoke (.member receiver name) arguments.count)]

def Arguments.course (callee : Callee) : Arguments → List Step
  | .none => []
  | .some list => list.course callee

def ArgumentList.course (callee : Callee) : ArgumentList → List Step
  | .single argument =>
      .act (.argument callee 0 argument.first.token) :: node .expression argument.course
  | .append list last =>
      list.course callee ++ symbol .comma ::
        .act (.argument callee list.count last.first.token) :: node .expression last.course

end

/-- The steps of an expression with its node. -/
def Expression.nodeCourse (expression : Expression) : List Step :=
  node .expression expression.course

def Call.course : Call → List Step
  | .own name arguments => (Term.ownCall name arguments).course
  | .member receiver name arguments => (Term.memberCall receiver name arguments).course

mutual

/-- The steps of a statement whose first conditional or loop has the given
number. -/
def Statement.course (number : Nat) : Statement → List Step
  | .assign target value =>
      node .letStatement
        (keyword .let :: identifier target :: .act (.require (nameToken target)) ::
          symbol .equal :: value.nodeCourse ++
          [symbol .semicolon, .act (.store (nameToken target))])
  | .assignElement array index value =>
      node .letStatement
        (keyword .let :: identifier array :: .act (.require (nameToken array)) ::
          symbol .leftBracket :: .act (.load (nameToken array)) :: index.nodeCourse ++
          symbol .rightBracket :: emit (.operate .add) :: symbol .equal :: value.nodeCourse ++
          [symbol .semicolon, emit (.pop .temp 0), emit (.pop .pointer 1),
            emit (.push .temp 0), emit (.pop .that 0)])
  | .conditional condition body =>
      node .ifStatement
        (keyword .if :: .act (.number number) :: symbol .leftParen :: condition.nodeCourse ++
          symbol .rightParen :: emit (.ifGoto (LabelFamily.ifTrue.label number)) ::
          emit (.goto (LabelFamily.ifFalse.label number)) ::
          emit (.label (LabelFamily.ifTrue.label number)) :: symbol .leftBrace ::
          node .statements (body.course (number + 1)) ++
          [symbol .rightBrace, emit (.goto (LabelFamily.ifEnd.label number)),
            emit (.label (LabelFamily.ifFalse.label number)),
            emit (.label (LabelFamily.ifEnd.label number))])
  | .alternative condition first second =>
      node .ifStatement
        (keyword .if :: .act (.number number) :: symbol .leftParen :: condition.nodeCourse ++
          symbol .rightParen :: emit (.ifGoto (LabelFamily.ifTrue.label number)) ::
          emit (.goto (LabelFamily.ifFalse.label number)) ::
          emit (.label (LabelFamily.ifTrue.label number)) :: symbol .leftBrace ::
          node .statements (first.course (number + 1)) ++
          symbol .rightBrace :: emit (.goto (LabelFamily.ifEnd.label number)) ::
          emit (.label (LabelFamily.ifFalse.label number)) :: keyword .else ::
          symbol .leftBrace ::
          node .statements (second.course (number + 1 + first.numbers)) ++
          [symbol .rightBrace, emit (.label (LabelFamily.ifEnd.label number))])
  | .loop condition body =>
      node .whileStatement
        (keyword .while :: .act (.number number) ::
          emit (.label (LabelFamily.whileStart.label number)) :: symbol .leftParen ::
          condition.nodeCourse ++ symbol .rightParen :: emit (.operate .not) ::
          emit (.ifGoto (LabelFamily.whileEnd.label number)) :: symbol .leftBrace ::
          node .statements (body.course (number + 1)) ++
          [symbol .rightBrace, emit (.goto (LabelFamily.whileStart.label number)),
            emit (.label (LabelFamily.whileEnd.label number))])
  | .call call =>
      node .doStatement
        (keyword .do :: call.course ++ [symbol .semicolon, emit (.pop .temp 0)])
  | .returnNothing =>
      node .returnStatement
        [keyword .return, emit (.push .constant 0), symbol .semicolon, emit .return]
  | .returnValue value =>
      node .returnStatement
        (keyword .return :: value.nodeCourse ++ [symbol .semicolon, emit .return])

def Statements.course (number : Nat) : Statements → List Step
  | .nil => []
  | .cons first rest => first.course number ++ rest.course (number + first.numbers)

end

end JackLang
