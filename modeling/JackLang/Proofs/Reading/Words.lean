import JackLang.Grammar.ParseTree

/-! # The words of derivation trees

What the words of each form of tree are, in terms of the words of its parts,
and the word that a term or an expression starts with.
-/

set_option autoImplicit false

namespace JackLang

@[simp] theorem Word.kind_symbol (mark : Symbol) : (Word.symbol mark).kind = .symbol mark := rfl

@[simp] theorem Word.kind_keyword (word : Keyword) : (Word.keyword word).kind = .keyword word :=
  rfl

@[simp] theorem Word.kind_identifier (name : String) :
    (Word.identifier name).kind = .identifier := rfl

@[simp] theorem Word.lexeme_identifier (name : String) :
    (Word.identifier name).lexeme = name := rfl

@[simp] theorem ParseTree.words_leaf (word : Word) : (ParseTree.leaf word).words = [word] := by
  simp [words]

@[simp] theorem ParseTree.words_node (rule : Rule) (children : List ParseTree) :
    (ParseTree.node rule children).words = children.flatMap words := by
  simp [words]

@[simp] theorem ParseTree.words_symbol (mark : Symbol) :
    (ParseTree.symbol mark).words = [.symbol mark] := by
  simp [symbol]

@[simp] theorem ParseTree.words_keyword (word : Keyword) :
    (ParseTree.keyword word).words = [.keyword word] := by
  simp [keyword]

@[simp] theorem ParseTree.words_identifier (name : String) :
    (ParseTree.identifier name).words = [.identifier name] := by
  simp [identifier]

def Expression.words (expression : Expression) : List Word :=
  expression.children.flatMap ParseTree.words

def Term.words (term : Term) : List Word :=
  term.children.flatMap ParseTree.words

def Arguments.words (arguments : Arguments) : List Word :=
  arguments.children.flatMap ParseTree.words

def ArgumentList.words (list : ArgumentList) : List Word :=
  list.children.flatMap ParseTree.words

def Call.words (call : Call) : List Word :=
  call.trees.flatMap ParseTree.words

def Statement.words (statement : Statement) : List Word :=
  statement.tree.words

def Statements.words (statements : Statements) : List Word :=
  statements.trees.flatMap ParseTree.words

namespace Expression

@[simp] theorem words_single (term : Term) : (single term).words = term.words := by
  simp [words, children, Term.words]

@[simp] theorem words_operate (first : Expression) (operator : BinaryOperator) (last : Term) :
    (operate first operator last).words =
      first.words ++ .symbol operator.symbol :: last.words := by
  simp [words, children, Term.words]

@[simp] theorem words_tree (expression : Expression) :
    expression.tree.words = expression.words := by
  simp [tree, words]

end Expression

namespace Term

@[simp] theorem words_integer (digits : String) :
    (integer digits).words = [⟨.integerConstant, digits⟩] := by
  simp [words, children]

@[simp] theorem words_string (content : String) :
    (string content).words = [⟨.stringConstant, content⟩] := by
  simp [words, children]

@[simp] theorem words_trueConstant : trueConstant.words = [.keyword .trueConstant] := by
  simp [words, children]

@[simp] theorem words_falseConstant : falseConstant.words = [.keyword .falseConstant] := by
  simp [words, children]

@[simp] theorem words_nullConstant : nullConstant.words = [.keyword .nullConstant] := by
  simp [words, children]

@[simp] theorem words_thisConstant : thisConstant.words = [.keyword .thisConstant] := by
  simp [words, children]

@[simp] theorem words_parenthesized (inner : Expression) :
    (parenthesized inner).words =
      .symbol .leftParen :: inner.words ++ [.symbol .rightParen] := by
  simp [words, children, Expression.words]

@[simp] theorem words_unary (operator : UnaryOperator) (operand : Term) :
    (unary operator operand).words = .symbol operator.symbol :: operand.words := by
  simp [words, children]

@[simp] theorem words_name (name : String) : (Term.name name).words = [.identifier name] := by
  simp [words, children]

@[simp] theorem words_element (array : String) (index : Expression) :
    (element array index).words =
      .identifier array :: .symbol .leftBracket :: index.words ++ [.symbol .rightBracket] := by
  simp [words, children, Expression.words]

@[simp] theorem words_ownCall (name : String) (arguments : Arguments) :
    (ownCall name arguments).words =
      .identifier name :: .symbol .leftParen :: arguments.words ++ [.symbol .rightParen] := by
  simp [words, children, Arguments.words]

@[simp] theorem words_memberCall (receiver name : String) (arguments : Arguments) :
    (memberCall receiver name arguments).words =
      .identifier receiver :: .symbol .dot :: .identifier name :: .symbol .leftParen ::
        arguments.words ++ [.symbol .rightParen] := by
  simp [words, children, Arguments.words]

end Term

@[simp] theorem Arguments.words_none : Arguments.none.words = [] := by
  simp [words, children]

@[simp] theorem Arguments.words_some (list : ArgumentList) :
    (Arguments.some list).words = list.words := by
  simp [words, children, ArgumentList.words]

@[simp] theorem ArgumentList.words_single (argument : Expression) :
    (ArgumentList.single argument).words = argument.words := by
  simp [words, children, Expression.words]

@[simp] theorem ArgumentList.words_append (list : ArgumentList) (last : Expression) :
    (ArgumentList.append list last).words = list.words ++ .symbol .comma :: last.words := by
  simp [words, children, Expression.words]

@[simp] theorem Call.words_own (name : String) (arguments : Arguments) :
    (Call.own name arguments).words =
      .identifier name :: .symbol .leftParen :: arguments.words ++ [.symbol .rightParen] := by
  simpa [words, trees, Term.words] using Term.words_ownCall name arguments

@[simp] theorem Call.words_member (receiver name : String) (arguments : Arguments) :
    (Call.member receiver name arguments).words =
      .identifier receiver :: .symbol .dot :: .identifier name :: .symbol .leftParen ::
        arguments.words ++ [.symbol .rightParen] := by
  simpa [words, trees, Term.words] using Term.words_memberCall receiver name arguments

namespace Statement

@[simp] theorem words_assign (target : String) (value : Expression) :
    (assign target value).words =
      .keyword .let :: .identifier target :: .symbol .equal :: value.words ++
        [.symbol .semicolon] := by
  simp [words, tree]

@[simp] theorem words_assignElement (array : String) (index value : Expression) :
    (assignElement array index value).words =
      .keyword .let :: .identifier array :: .symbol .leftBracket :: index.words ++
        .symbol .rightBracket :: .symbol .equal :: value.words ++ [.symbol .semicolon] := by
  simp [words, tree]

@[simp] theorem words_conditional (condition : Expression) (body : Statements) :
    (conditional condition body).words =
      .keyword .if :: .symbol .leftParen :: condition.words ++
        .symbol .rightParen :: .symbol .leftBrace :: body.words ++ [.symbol .rightBrace] := by
  simp [words, tree, Statements.words]

@[simp] theorem words_alternative (condition : Expression) (first second : Statements) :
    (alternative condition first second).words =
      .keyword .if :: .symbol .leftParen :: condition.words ++
        .symbol .rightParen :: .symbol .leftBrace :: first.words ++
        .symbol .rightBrace :: .keyword .else :: .symbol .leftBrace :: second.words ++
        [.symbol .rightBrace] := by
  simp [words, tree, Statements.words]

@[simp] theorem words_loop (condition : Expression) (body : Statements) :
    (loop condition body).words =
      .keyword .while :: .symbol .leftParen :: condition.words ++
        .symbol .rightParen :: .symbol .leftBrace :: body.words ++ [.symbol .rightBrace] := by
  simp [words, tree, Statements.words]

@[simp] theorem words_call (call : Call) :
    (Statement.call call).words = .keyword .do :: call.words ++ [.symbol .semicolon] := by
  simp [words, tree, Call.words]

@[simp] theorem words_returnNothing :
    returnNothing.words = [.keyword .return, .symbol .semicolon] := by
  simp [words, tree]

@[simp] theorem words_returnValue (value : Expression) :
    (returnValue value).words = .keyword .return :: value.words ++ [.symbol .semicolon] := by
  simp [words, tree]

end Statement

@[simp] theorem Statements.words_nil : Statements.nil.words = [] := by
  simp [words, trees]

@[simp] theorem Statements.words_cons (first : Statement) (rest : Statements) :
    (Statements.cons first rest).words = first.words ++ rest.words := by
  simp [words, trees, Statement.words]

/-- The word that a term starts with. -/
def Term.first : Term → Word
  | .integer digits => ⟨.integerConstant, digits⟩
  | .string content => ⟨.stringConstant, content⟩
  | .trueConstant => .keyword .trueConstant
  | .falseConstant => .keyword .falseConstant
  | .nullConstant => .keyword .nullConstant
  | .thisConstant => .keyword .thisConstant
  | .parenthesized _ => .symbol .leftParen
  | .unary operator _ => .symbol operator.symbol
  | .name read => .identifier read
  | .element array _ => .identifier array
  | .ownCall called _ => .identifier called
  | .memberCall receiver _ _ => .identifier receiver

def Expression.first : Expression → Word
  | .single term => term.first
  | .operate first _ _ => first.first

def TokenKind.startsTerm : TokenKind → Bool
  | .integerConstant | .stringConstant | .identifier => true
  | .keyword .trueConstant | .keyword .falseConstant => true
  | .keyword .nullConstant | .keyword .thisConstant => true
  | .symbol .leftParen | .symbol .minus | .symbol .tilde => true
  | _ => false

theorem Term.startsTerm_first (term : Term) : term.first.kind.startsTerm = true := by
  cases term with
  | unary operator operand => cases operator <;> rfl
  | _ => rfl

theorem Expression.startsTerm_first :
    ∀ expression : Expression, expression.first.kind.startsTerm = true
  | .single term => term.startsTerm_first
  | .operate before _ _ => before.startsTerm_first

def ArgumentList.first : ArgumentList → Word
  | .single argument => argument.first
  | .append list _ => list.first

theorem ArgumentList.startsTerm_first :
    ∀ list : ArgumentList, list.first.kind.startsTerm = true
  | .single argument => argument.startsTerm_first
  | .append list _ => list.startsTerm_first

theorem Term.words_eq_cons (term : Term) : ∃ rest, term.words = term.first :: rest := by
  cases term <;> simp [first]

theorem Expression.words_eq_cons :
    ∀ expression : Expression, ∃ rest, expression.words = expression.first :: rest
  | .single term => by simpa [first] using term.words_eq_cons
  | .operate before operator last => by
      obtain ⟨rest, hrest⟩ := before.words_eq_cons
      exact ⟨rest ++ .symbol operator.symbol :: last.words, by simp [first, hrest]⟩

theorem ArgumentList.words_eq_cons :
    ∀ list : ArgumentList, ∃ rest, list.words = list.first :: rest
  | .single argument => by simpa [first] using argument.words_eq_cons
  | .append before last => by
      obtain ⟨rest, hrest⟩ := before.words_eq_cons
      exact ⟨rest ++ .symbol .comma :: last.words, by simp [first, hrest]⟩

end JackLang
