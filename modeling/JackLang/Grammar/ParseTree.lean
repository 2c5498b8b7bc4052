import JackLang.Grammar.Derivation
import JackLang.Output.Element

/-! # Parse trees

A parse tree has the words of a unit as its leaves and the rules that matter
as its nodes. Every derivation tree has one, and its words are the sentence
that the derivation makes up.
-/

set_option autoImplicit false

namespace JackLang

/-- A token without its place. -/
structure Word where
  kind : TokenKind
  lexeme : String
deriving DecidableEq, Repr

def Token.word (token : Token) : Word := ⟨token.kind, token.lexeme⟩

namespace Word

def keyword (word : Keyword) : Word := ⟨.keyword word, word.text⟩

def symbol (mark : Symbol) : Word := ⟨.symbol mark, String.singleton mark.char⟩

def identifier (name : String) : Word := ⟨.identifier, name⟩

end Word

inductive ParseTree where
  | leaf (word : Word)
  | node (rule : Rule) (children : List ParseTree)

namespace ParseTree

/-- The words at the leaves of a tree, from left to right. -/
def words : ParseTree → List Word
  | .leaf word => [word]
  | .node _ children => children.flatMap words

def wordLine (word : Word) : String :=
  let tag := word.kind.tokenClass.tag
  "<" ++ tag ++ "> " ++ escape word.lexeme ++ " </" ++ tag ++ ">"

/-- The lines of a tree at some depth: a line for each leaf, and the lines of a
node's children between the lines that open and close it. -/
def lines (depth : Nat) : ParseTree → List String
  | .leaf word => [indented depth (wordLine word)]
  | .node rule children =>
      indented depth ("<" ++ rule.tag ++ ">") ::
        children.flatMap (lines (depth + 1)) ++
        [indented depth ("</" ++ rule.tag ++ ">")]
where
  /-- A line behind two blanks for each level of depth. -/
  indented (depth : Nat) (line : String) : String :=
    String.ofList (List.replicate (2 * depth) ' ') ++ line

def text (tree : ParseTree) : String :=
  String.join ((tree.lines 0).map (· ++ "\n"))

def keyword (word : Keyword) : ParseTree := .leaf (.keyword word)

def symbol (mark : Symbol) : ParseTree := .leaf (.symbol mark)

def identifier (name : String) : ParseTree := .leaf (.identifier name)

end ParseTree

open ParseTree (keyword symbol identifier)

def TypeName.tree : TypeName → ParseTree
  | .int => keyword .int
  | .char => keyword .char
  | .boolean => keyword .boolean
  | .named name => identifier name

mutual

/-- The children of an expression's node: its terms with the operators between
them. -/
def Expression.children : Expression → List ParseTree
  | .single term => [.node .term term.children]
  | .operate first operator last =>
      first.children ++ [symbol operator.symbol, .node .term last.children]

def Term.children : Term → List ParseTree
  | .integer digits => [.leaf ⟨.integerConstant, digits⟩]
  | .string content => [.leaf ⟨.stringConstant, content⟩]
  | .trueConstant => [keyword .trueConstant]
  | .falseConstant => [keyword .falseConstant]
  | .nullConstant => [keyword .nullConstant]
  | .thisConstant => [keyword .thisConstant]
  | .parenthesized inner =>
      [symbol .leftParen, .node .expression inner.children, symbol .rightParen]
  | .unary operator operand => [symbol operator.symbol, .node .term operand.children]
  | .name name => [identifier name]
  | .element array index =>
      [identifier array, symbol .leftBracket, .node .expression index.children,
        symbol .rightBracket]
  | .ownCall name arguments =>
      [identifier name, symbol .leftParen, .node .expressionList arguments.children,
        symbol .rightParen]
  | .memberCall receiver name arguments =>
      [identifier receiver, symbol .dot, identifier name, symbol .leftParen,
        .node .expressionList arguments.children, symbol .rightParen]

def Arguments.children : Arguments → List ParseTree
  | .none => []
  | .some list => list.children

def ArgumentList.children : ArgumentList → List ParseTree
  | .single argument => [.node .expression argument.children]
  | .append list last => list.children ++ [symbol .comma, .node .expression last.children]

end

def Expression.tree (expression : Expression) : ParseTree :=
  .node .expression expression.children

/-- The trees of a call, which has no node of its own. -/
def Call.trees : Call → List ParseTree
  | .own name arguments => (Term.ownCall name arguments).children
  | .member receiver name arguments => (Term.memberCall receiver name arguments).children

mutual

def Statement.tree : Statement → ParseTree
  | .assign target value =>
      .node .letStatement
        [keyword .let, identifier target, symbol .equal, value.tree, symbol .semicolon]
  | .assignElement array index value =>
      .node .letStatement
        [keyword .let, identifier array, symbol .leftBracket, index.tree,
          symbol .rightBracket, symbol .equal, value.tree, symbol .semicolon]
  | .conditional condition body =>
      .node .ifStatement
        [keyword .if, symbol .leftParen, condition.tree, symbol .rightParen,
          symbol .leftBrace, .node .statements body.trees, symbol .rightBrace]
  | .alternative condition first second =>
      .node .ifStatement
        [keyword .if, symbol .leftParen, condition.tree, symbol .rightParen,
          symbol .leftBrace, .node .statements first.trees, symbol .rightBrace,
          keyword .else, symbol .leftBrace, .node .statements second.trees,
          symbol .rightBrace]
  | .loop condition body =>
      .node .whileStatement
        [keyword .while, symbol .leftParen, condition.tree, symbol .rightParen,
          symbol .leftBrace, .node .statements body.trees, symbol .rightBrace]
  | .call call => .node .doStatement (keyword .do :: call.trees ++ [symbol .semicolon])
  | .returnNothing => .node .returnStatement [keyword .return, symbol .semicolon]
  | .returnValue value =>
      .node .returnStatement [keyword .return, value.tree, symbol .semicolon]

def Statements.trees : Statements → List ParseTree
  | .nil => []
  | .cons first rest => first.tree :: rest.trees

end

def moreNameTrees (names : List String) : List ParseTree :=
  names.flatMap fun name => [symbol .comma, identifier name]

/-- The trees of a declaration of variables behind its keyword. -/
def VariableGroup.trees (group : VariableGroup) : List ParseTree :=
  group.type.tree :: identifier group.first :: moreNameTrees group.others ++ [symbol .semicolon]

def ClassVariables.tree (declaration : ClassVariables) : ParseTree :=
  let word : Keyword :=
    match declaration.kind with
    | .static => .static
    | .field => .field
  .node .classVarDec (keyword word :: declaration.group.trees)

def parameterTrees : List Parameter → List ParseTree
  | [] => []
  | first :: others =>
      first.type.tree :: identifier first.name ::
        others.flatMap fun parameter =>
          [symbol .comma, parameter.type.tree, identifier parameter.name]

def SubroutineKind.keyword : SubroutineKind → Keyword
  | .constructor => .constructor
  | .function => .function
  | .method => .method

def Subroutine.tree (subroutine : Subroutine) : ParseTree :=
  .node .subroutineDec
    [keyword subroutine.kind.keyword,
      (subroutine.result.map TypeName.tree).getD (keyword .void),
      identifier subroutine.name,
      symbol .leftParen, .node .parameterList (parameterTrees subroutine.parameters),
      symbol .rightParen,
      .node .subroutineBody
        (symbol .leftBrace ::
          (subroutine.locals.map fun group => .node .varDec (keyword .var :: group.trees)) ++
          [.node .statements subroutine.body.trees, symbol .rightBrace])]

def ClassUnit.tree (unit : ClassUnit) : ParseTree :=
  .node .class
    (keyword .class :: identifier unit.name :: symbol .leftBrace ::
      unit.declarations.map ClassVariables.tree ++ unit.subroutines.map Subroutine.tree ++
      [symbol .rightBrace])

/-- The sentence that a derivation makes up. -/
def ClassUnit.words (unit : ClassUnit) : List Word :=
  unit.tree.words

end JackLang
