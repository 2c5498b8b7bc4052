import JackLang.Proofs.Reading.Course

/-! # Sentences are read

The words of a derivation tree are read in the steps of its course, whatever is
left to read behind them: one token of look-ahead never leads astray. Every
statement is about a phrase in front of other goals, and words in front of a
look-ahead that cannot extend them.
-/

set_option autoImplicit false

namespace JackLang

open Step (node takes symbol keyword identifier emit)

namespace TokenKind

/-- Whether a term is over in front of a token of the kind. -/
def endsTerm : TokenKind → Bool
  | .invalid _ => false
  | .symbol .leftBracket => false
  | .symbol .leftParen => false
  | .symbol .dot => false
  | _ => true

/-- Whether an expression is over in front of a token of the kind. -/
def endsExpression (kind : TokenKind) : Bool :=
  kind.endsTerm && (BinaryOperator.ofKind? kind).isNone

theorem isInvalid_of_endsTerm {kind : TokenKind} (h : kind.endsTerm = true) :
    kind.isInvalid = false := by
  cases kind with
  | invalid error => cases h
  | _ => rfl

theorem endsTerm_of_endsExpression {kind : TokenKind} (h : kind.endsExpression = true) :
    kind.endsTerm = true :=
  (Bool.and_eq_true_iff.mp h).1

theorem ofKind?_of_endsExpression {kind : TokenKind} (h : kind.endsExpression = true) :
    BinaryOperator.ofKind? kind = none :=
  Option.isNone_iff_eq_none.mp (Bool.and_eq_true_iff.mp h).2

theorem isInvalid_of_endsExpression {kind : TokenKind} (h : kind.endsExpression = true) :
    kind.isInvalid = false :=
  isInvalid_of_endsTerm (endsTerm_of_endsExpression h)

theorem endsTerm_symbol (operator : BinaryOperator) :
    (TokenKind.symbol operator.symbol).endsTerm = true := by
  cases operator <;> rfl

theorem isInvalid_of_startsTerm {kind : TokenKind} (h : kind.startsTerm = true) :
    kind.isInvalid = false := by
  cases kind with
  | invalid error => cases h
  | _ => rfl

theorem ne_rightParen_of_startsTerm {kind : TokenKind} (h : kind.startsTerm = true) :
    kind ≠ .symbol .rightParen := by
  rintro rfl
  cases h

theorem ne_semicolon_of_startsTerm {kind : TokenKind} (h : kind.startsTerm = true) :
    kind ≠ .symbol .semicolon := by
  rintro rfl
  cases h

end TokenKind

@[simp] theorem Term.ready (term : Term) (rest : List Token) :
    Ready (term.words.map Word.token ++ rest) := by
  obtain ⟨words, hwords⟩ := term.words_eq_cons
  rw [hwords]
  exact TokenKind.isInvalid_of_startsTerm term.startsTerm_first

@[simp] theorem Expression.ready (expression : Expression) (rest : List Token) :
    Ready (expression.words.map Word.token ++ rest) := by
  obtain ⟨words, hwords⟩ := expression.words_eq_cons
  rw [hwords]
  exact TokenKind.isInvalid_of_startsTerm expression.startsTerm_first

/-- Arguments end at a parenthesis, if there are any. -/
@[simp] theorem Arguments.ready (arguments : Arguments) (rest : List Token) :
    Ready (arguments.words.map Word.token ++ (Word.symbol .rightParen).token :: rest) := by
  cases arguments with
  | none => rfl
  | some list =>
      obtain ⟨words, hwords⟩ := list.words_eq_cons
      rw [Arguments.words_some, hwords]
      exact TokenKind.isInvalid_of_startsTerm list.startsTerm_first

section Phrases

variable {steps : List Step} {number : Nat} {goals : List Goal}

@[simp] theorem readAfter_symbol (mark : Symbol) (expected : Expectation) (rest : List Token) :
    readAfter steps number (Goal.symbol mark expected :: goals)
        ((Word.symbol mark).token :: rest) =
      readAfter (symbol mark :: steps) number goals rest :=
  readAfter_token _ _ _ _ rfl rfl

@[simp] theorem readAfter_keyword (word : Keyword) (expected : Expectation)
    (rest : List Token) :
    readAfter steps number (.token (.keyword word) expected :: goals)
        ((Word.keyword word).token :: rest) =
      readAfter (keyword word :: steps) number goals rest :=
  readAfter_token _ _ _ _ rfl rfl

@[simp] theorem readAfter_identifier (read : String) (role : NameRole) (rest : List Token) :
    readAfter steps number (.name role :: goals) ((Word.identifier read).token :: rest) =
      readAfter (identifier read :: steps) number (role.next (nameToken read) ++ goals) rest :=
  readAfter_name _ _ _ rfl

theorem readAfter_operators_symbol (operator : BinaryOperator) (rest : List Token) :
    readAfter steps number (.phrase .operators :: goals)
        ((Word.symbol operator.symbol).token :: rest) =
      readAfter (symbol operator.symbol :: steps) number
        (.phrase .term :: .emit operator.code :: .phrase .operators :: goals) rest := by
  have hexpand : Phrase.operators.expand (Word.symbol operator.symbol).token number =
      .ok [.shift, .phrase .term, .emit operator.code, .phrase .operators] := by
    cases operator <;> rfl
  simp [readAfter_phrase, hexpand, Phrase.numbersTaken, symbol, takes]

theorem readAfter_operators_end (look : Token) (rest : List Token)
    (hlook : look.kind.endsExpression = true) :
    readAfter steps number (.phrase .operators :: goals) (look :: rest) =
      readAfter steps number goals (look :: rest) := by
  have hvalid := TokenKind.isInvalid_of_endsExpression hlook
  have hkind := TokenKind.ofKind?_of_endsExpression hlook
  simp [readAfter_phrase, Phrase.expand, hvalid, hkind, Phrase.numbersTaken]

theorem readAfter_afterName_end (name look : Token) (rest : List Token)
    (hlook : look.kind.endsTerm = true) :
    readAfter steps number (.phrase (.afterName name) :: goals) (look :: rest) =
      readAfter (.act (.load name) :: steps) number goals (look :: rest) := by
  have hvalid := TokenKind.isInvalid_of_endsTerm hlook
  have hexpand : (Phrase.afterName name).expand look number = .ok [.act (.load name)] := by
    simp only [Phrase.expand]
    split <;> simp_all [TokenKind.endsTerm]
  simp [readAfter_phrase, hexpand, hvalid, Phrase.numbersTaken]

theorem readAfter_arguments {first : Word} {tokens rest : List Token} (callee : Callee)
    (htokens : tokens = first.token :: rest) (hfirst : first.kind.startsTerm = true) :
    readAfter steps number (.phrase (.arguments callee) :: goals) tokens =
      readAfter (.opened .expressionList :: steps) number
        (.phrase (.argument callee 0) :: goals) tokens := by
  have hvalid := TokenKind.isInvalid_of_startsTerm hfirst
  have hkind := TokenKind.ne_rightParen_of_startsTerm hfirst
  subst htokens
  simp [readAfter_phrase _ _ (.arguments callee), Phrase.expand, hvalid, hkind,
    Phrase.numbersTaken]

theorem readAfter_argument {first : Word} {tokens rest : List Token} (callee : Callee)
    (count : Nat) (htokens : tokens = first.token :: rest)
    (hfirst : first.kind.startsTerm = true) :
    readAfter steps number (.phrase (.argument callee count) :: goals) tokens =
      readAfter (.act (.argument callee count first.token) :: steps) number
        (.phrase .expression :: .phrase (.moreArguments callee (count + 1)) :: goals)
        tokens := by
  have hvalid := TokenKind.isInvalid_of_startsTerm hfirst
  subst htokens
  have hready : Ready (first.token :: rest) := hvalid
  rw [readAfter_phrase _ _ _ hready]
  exact readAfter_act _ hready

theorem readAfter_moreArguments_comma (callee : Callee) (count : Nat) (rest : List Token) :
    readAfter steps number (.phrase (.moreArguments callee count) :: goals)
        ((Word.symbol .comma).token :: rest) =
      readAfter (symbol .comma :: steps) number (.phrase (.argument callee count) :: goals)
        rest := by
  simp [readAfter_phrase, Phrase.expand, Phrase.numbersTaken, symbol, takes]

theorem readAfter_moreArguments_end (callee : Callee) (count : Nat) (look : Token)
    (rest : List Token) (hlook : look.kind.isInvalid = false) :
    readAfter steps number (.phrase (.moreArguments callee count) :: goals)
        ((Word.symbol .rightParen).token :: look :: rest) =
      readAfter (.act (.invoke callee count) :: symbol .rightParen ::
        .closed .expressionList :: steps) number goals (look :: rest) := by
  simp [readAfter_phrase, Phrase.expand, Phrase.numbersTaken, Goal.callEnd, hlook, symbol,
    takes]

end Phrases

/-- The terms and operators of an expression are read in its course. -/
def Expression.IsRead (expression : Expression) : Prop :=
  ∀ (steps : List Step) (number : Nat) (goals : List Goal) (look : Token) (rest : List Token),
    look.kind.endsTerm = true →
    readAfter steps number (.phrase .term :: .phrase .operators :: goals)
        (expression.words.map Word.token ++ look :: rest) =
      readAfter (expression.course.reverse ++ steps) number (.phrase .operators :: goals)
        (look :: rest)

theorem Expression.IsRead.node {expression : Expression} (h : expression.IsRead)
    (steps : List Step) (number : Nat) (goals : List Goal) (look : Token) (rest : List Token)
    (hlook : look.kind.endsExpression = true) :
    readAfter steps number (.phrase .expression :: goals)
        (expression.words.map Word.token ++ look :: rest) =
      readAfter (expression.nodeCourse.reverse ++ steps) number goals (look :: rest) := by
  have hready : Ready (look :: rest) := TokenKind.isInvalid_of_endsExpression hlook
  rw [readAfter_expression (expression.ready _),
    h _ _ _ _ _ (TokenKind.endsTerm_of_endsExpression hlook),
    readAfter_operators_end _ _ hlook,
    readAfter_closing _ hready]
  simp [Expression.nodeCourse, Step.node]

mutual

theorem Expression.isRead (expression : Expression) : expression.IsRead := by
  intro steps number goals look rest hlook
  have hvalid := TokenKind.isInvalid_of_endsTerm hlook
  match expression with
  | .single term =>
      simp [Expression.course, node, term.reads _ _ _ _ _ hlook, hvalid]
  | .operate first operator last =>
      rw [Expression.words_operate, List.map_append, List.map_cons, List.append_assoc,
        List.cons_append, first.isRead _ _ _ _ _ (TokenKind.endsTerm_symbol operator),
        readAfter_operators_symbol]
      simp [Expression.course, node, last.reads _ _ _ _ _ hlook, hvalid, Goal.emit, emit]

theorem Term.reads (term : Term) (steps : List Step) (number : Nat) (goals : List Goal)
    (look : Token) (rest : List Token) (hlook : look.kind.endsTerm = true) :
    readAfter steps number (.phrase .termBody :: goals)
        (term.words.map Word.token ++ look :: rest) =
      readAfter (term.course.reverse ++ steps) number goals (look :: rest) := by
  have hvalid := TokenKind.isInvalid_of_endsTerm hlook
  match term with
  | .integer digits =>
      simp [Term.course, readAfter_phrase, Phrase.expand, Phrase.startTerm, Phrase.numbersTaken,
        hvalid, takes]
  | .string content =>
      simp [Term.course, readAfter_phrase, Phrase.expand, Phrase.startTerm, Phrase.numbersTaken,
        hvalid, takes]
  | .trueConstant | .falseConstant | .nullConstant | .thisConstant =>
      simp [Term.course, readAfter_phrase, Phrase.expand, Phrase.startTerm, Phrase.numbersTaken,
        hvalid, keyword, takes, Goal.emit, emit]
  | .parenthesized inner =>
      have hinner := fun steps goals rest =>
        inner.isRead.node steps number goals (Word.symbol .rightParen).token rest rfl
      simp [Term.course, readAfter_phrase _ _ .termBody, Phrase.expand, Phrase.startTerm,
        Phrase.numbersTaken, hinner, Expression.nodeCourse, node, symbol, takes]
  | .unary operator operand =>
      cases operator <;>
        simp [Term.course, readAfter_phrase, Phrase.expand, Phrase.startTerm,
          Phrase.numbersTaken, UnaryOperator.symbol, UnaryOperator.code, node,
          operand.reads _ _ _ _ _ hlook, hvalid, symbol, takes, Goal.emit, emit]
  | .name read =>
      simp [Term.course, readAfter_phrase _ _ .termBody, Phrase.expand, Phrase.startTerm,
        Phrase.numbersTaken, readAfter_afterName_end _ _ _ hlook, identifier, takes, nameToken]
  | .element array index =>
      have hindex := fun steps goals rest =>
        index.isRead.node steps number goals (Word.symbol .rightBracket).token rest rfl
      simp [Term.course, readAfter_phrase _ _ .termBody, readAfter_phrase _ _ (.afterName _),
        Phrase.expand, Phrase.startTerm, Phrase.numbersTaken, hindex, Expression.nodeCourse,
        node, hvalid, identifier, symbol, takes, Goal.emit, emit, nameToken]
  | .ownCall called arguments =>
      have harguments := fun steps goals =>
        arguments.reads (.own called) steps number goals look rest hvalid
      simp [Term.course, readAfter_phrase _ _ .termBody, readAfter_phrase _ _ (.afterName _),
        readAfter_phrase _ _ (.call _), Phrase.expand, Phrase.startTerm, Phrase.numbersTaken,
        harguments, node, identifier, symbol, takes, Goal.emit, emit]
  | .memberCall receiver called arguments =>
      have harguments := fun steps goals =>
        arguments.reads (.member receiver called) steps number goals look rest hvalid
      simp [Term.course, readAfter_phrase _ _ .termBody, readAfter_phrase _ _ (.afterName _),
        readAfter_phrase _ _ (.call _), Phrase.expand, Phrase.startTerm, Phrase.numbersTaken,
        NameRole.next, harguments, node, identifier, symbol, takes, nameToken]

theorem Arguments.reads (arguments : Arguments) (callee : Callee) (steps : List Step)
    (number : Nat) (goals : List Goal) (look : Token) (rest : List Token)
    (hlook : look.kind.isInvalid = false) :
    readAfter steps number (.phrase (.arguments callee) :: goals)
        (arguments.words.map Word.token ++ (Word.symbol .rightParen).token :: look :: rest) =
      readAfter (.act (.invoke callee arguments.count) :: symbol .rightParen ::
        (node .expressionList (arguments.course callee)).reverse ++ steps) number goals
        (look :: rest) := by
  match arguments with
  | .none =>
      simp [Arguments.course, Arguments.count, readAfter_phrase, Phrase.expand,
        Phrase.numbersTaken, Goal.callEnd, hlook, node, symbol, takes]
  | .some list =>
      obtain ⟨words, hwords⟩ := list.words_eq_cons
      rw [Arguments.words_some, readAfter_arguments callee (by rw [hwords]; rfl)
        list.startsTerm_first, list.reads callee _ _ _ _ _ rfl,
        readAfter_moreArguments_end _ _ _ _ hlook]
      simp [Arguments.course, Arguments.count, node]

theorem ArgumentList.reads (list : ArgumentList) (callee : Callee) (steps : List Step)
    (number : Nat) (goals : List Goal) (look : Token) (rest : List Token)
    (hlook : look.kind.endsExpression = true) :
    readAfter steps number (.phrase (.argument callee 0) :: goals)
        (list.words.map Word.token ++ look :: rest) =
      readAfter ((list.course callee).reverse ++ steps) number
        (.phrase (.moreArguments callee list.count) :: goals) (look :: rest) := by
  match list with
  | .single argument =>
      obtain ⟨words, hwords⟩ := argument.words_eq_cons
      rw [ArgumentList.words_single, readAfter_argument callee 0 (by rw [hwords]; rfl)
        argument.startsTerm_first, argument.isRead.node _ _ _ _ _ hlook]
      simp [ArgumentList.course, ArgumentList.count, Expression.nodeCourse]
  | .append before last =>
      obtain ⟨words, hwords⟩ := last.words_eq_cons
      rw [ArgumentList.words_append, List.map_append, List.map_cons, List.append_assoc,
        List.cons_append, before.reads callee _ _ _ _ _ rfl, readAfter_moreArguments_comma,
        readAfter_argument callee _ (by rw [hwords]; rfl) last.startsTerm_first,
        last.isRead.node _ _ _ _ _ hlook]
      simp [ArgumentList.course, ArgumentList.count, Expression.nodeCourse]

end

/-- The call of a statement is read in its course. -/
theorem Call.reads (call : Call) (steps : List Step) (number : Nat) (goals : List Goal)
    (look : Token) (rest : List Token) (hlook : look.kind.isInvalid = false) :
    readAfter steps number (.name .doCallee :: goals)
        (call.words.map Word.token ++ look :: rest) =
      readAfter (call.course.reverse ++ steps) number goals (look :: rest) := by
  cases call with
  | own called arguments =>
      have harguments := fun steps goals =>
        arguments.reads (.own called) steps number goals look rest hlook
      simp [Call.course, Term.course, NameRole.next, readAfter_phrase _ _ (.call _),
        Phrase.expand, Phrase.numbersTaken, harguments, node, identifier, symbol, takes,
        Goal.emit, emit, nameToken]
  | member receiver called arguments =>
      have harguments := fun steps goals =>
        arguments.reads (.member receiver called) steps number goals look rest hlook
      simp [Call.course, Term.course, NameRole.next, readAfter_phrase _ _ (.call _),
        Phrase.expand, Phrase.numbersTaken, harguments, node, identifier, symbol, takes,
        nameToken]

/-- Whether a statement is over in front of the tokens: they do not go on with
another branch of it. -/
def EndsStatement : List Token → Prop
  | [] => False
  | look :: _ => look.kind.isInvalid = false ∧ look.kind ≠ .keyword .else

theorem EndsStatement.ready {tokens : List Token} (h : EndsStatement tokens) : Ready tokens := by
  cases tokens with
  | nil => exact h
  | cons look rest => exact h.1

theorem endsStatement_rightBrace (rest : List Token) :
    EndsStatement ((Word.symbol .rightBrace).token :: rest) :=
  ⟨rfl, by simp⟩

/-- Statements that are over go on with another statement or end at a brace. -/
theorem Statements.endsStatement (statements : Statements) (rest : List Token) :
    EndsStatement (statements.words.map Word.token ++
      (Word.symbol .rightBrace).token :: rest) := by
  cases statements with
  | nil => exact endsStatement_rightBrace rest
  | cons first others => cases first <;> simp [EndsStatement]

@[simp] theorem Statements.ready (statements : Statements) (rest : List Token) :
    Ready (statements.words.map Word.token ++ (Word.symbol .rightBrace).token :: rest) :=
  (statements.endsStatement rest).ready

theorem readAfter_elseRest_end {steps : List Step} {number : Nat} {goals : List Goal}
    {tokens : List Token} (h : EndsStatement tokens) :
    readAfter steps number (.phrase .elseRest :: goals) tokens =
      readAfter steps number goals tokens := by
  cases tokens with
  | nil => exact h.elim
  | cons look rest =>
      rw [readAfter_phrase _ _ _ h.ready]
      simp [Phrase.expand, h.2, Phrase.numbersTaken]

theorem readAfter_returnRest_value {steps : List Step} {number : Nat} {goals : List Goal}
    (value : Expression) (rest : List Token) :
    readAfter steps number (.phrase .returnRest :: goals) (value.words.map Word.token ++ rest) =
      readAfter steps number (.phrase .expression :: .symbol .semicolon .returnEnd ::
        .emit .return :: goals) (value.words.map Word.token ++ rest) := by
  have hready := value.ready rest
  have hkind := TokenKind.ne_semicolon_of_startsTerm value.startsTerm_first
  obtain ⟨words, hwords⟩ := value.words_eq_cons
  rw [hwords, List.map_cons, List.cons_append] at hready ⊢
  rw [readAfter_phrase _ _ _ hready]
  simp [Phrase.expand, hkind, Phrase.numbersTaken]

mutual

theorem Statement.reads (statement : Statement) (steps : List Step) (number : Nat)
    (goals : List Goal) (tokens : List Token) (h : EndsStatement tokens) :
    readAfter steps number (.phrase .moreStatements :: goals)
        (statement.words.map Word.token ++ tokens) =
      readAfter ((statement.course number).reverse ++ steps) (number + statement.numbers)
        (.phrase .moreStatements :: goals) tokens := by
  have hready := h.ready
  match statement with
  | .assign target value =>
      have hvalue := fun steps goals =>
        value.isRead.node steps number goals (Word.symbol .semicolon).token tokens rfl
      simp [Statement.course, Statement.numbers, Phrase.expand, Phrase.numbersTaken,
        readAfter_phrase _ _ .moreStatements, readAfter_phrase _ _ (.letRest _),
        Phrase.statement, Phrase.assignment, NameRole.next, hready, hvalue, node, keyword,
        identifier, symbol, takes, nameToken]
  | .assignElement array index value =>
      have hindex := fun steps goals rest =>
        index.isRead.node steps number goals (Word.symbol .rightBracket).token rest rfl
      have hvalue := fun steps goals =>
        value.isRead.node steps number goals (Word.symbol .semicolon).token tokens rfl
      simp [Statement.course, Statement.numbers, Phrase.expand, Phrase.numbersTaken,
        readAfter_phrase _ _ .moreStatements, readAfter_phrase _ _ (.letRest _),
        Phrase.statement, Phrase.assignment, NameRole.next, hready, hindex, hvalue, node,
        keyword, identifier, symbol, takes, Goal.emit, emit, nameToken]
  | .conditional condition body =>
      have hcondition := fun steps goals rest =>
        condition.isRead.node steps (number + 1) goals (Word.symbol .rightParen).token rest rfl
      have hbody := fun steps goals => body.reads steps (number + 1) goals tokens
      simp [Statement.course, Statement.numbers, Phrase.expand, Phrase.numbersTaken,
        readAfter_phrase _ _ .moreStatements, readAfter_phrase _ _ .ifRest,
        Phrase.statement, Phrase.conditional, Goal.condition, Goal.block, hready, hcondition,
        hbody, readAfter_elseRest_end h, node, keyword, symbol, takes, Goal.emit, emit,
        Nat.add_assoc]
  | .alternative condition first second =>
      have hcondition := fun steps goals rest =>
        condition.isRead.node steps (number + 1) goals (Word.symbol .rightParen).token rest rfl
      have hfirst := fun steps goals rest => first.reads steps (number + 1) goals rest
      have hsecond := fun steps goals =>
        second.reads steps (number + (1 + first.numbers)) goals tokens
      simp [Statement.course, Statement.numbers, Phrase.expand, Phrase.numbersTaken,
        readAfter_phrase _ _ .moreStatements, readAfter_phrase _ _ .ifRest,
        readAfter_phrase _ _ .elseRest, Phrase.statement, Phrase.conditional, Goal.condition,
        Goal.block, hready, hcondition, hfirst, hsecond, node, keyword, symbol, takes, Goal.emit,
        emit, Nat.add_assoc]
  | .loop condition body =>
      have hcondition := fun steps goals rest =>
        condition.isRead.node steps (number + 1) goals (Word.symbol .rightParen).token rest rfl
      have hbody := fun steps goals => body.reads steps (number + 1) goals tokens
      simp [Statement.course, Statement.numbers, Phrase.expand, Phrase.numbersTaken,
        readAfter_phrase _ _ .moreStatements, readAfter_phrase _ _ .whileRest,
        Phrase.statement, Phrase.loop, Goal.condition, Goal.block, hready, hcondition,
        hbody, node, keyword, symbol, takes, Goal.emit, emit, Nat.add_assoc]
  | .call called =>
      have hcalled := fun steps goals =>
        called.reads steps number goals (Word.symbol .semicolon).token tokens rfl
      simp [Statement.course, Statement.numbers, Phrase.expand, Phrase.numbersTaken,
        readAfter_phrase _ _ .moreStatements, Phrase.statement, hready, hcalled, node, keyword,
        symbol, takes, Goal.emit, emit]
  | .returnNothing =>
      simp [Statement.course, Statement.numbers, Phrase.expand, Phrase.numbersTaken,
        readAfter_phrase _ _ .moreStatements, readAfter_phrase _ _ .returnRest,
        Phrase.statement, hready, node, keyword, symbol, takes, Goal.emit, emit]
  | .returnValue value =>
      have hvalue := fun steps goals =>
        value.isRead.node steps number goals (Word.symbol .semicolon).token tokens rfl
      simp [Statement.course, Statement.numbers, Phrase.expand, Phrase.numbersTaken,
        readAfter_phrase _ _ .moreStatements, readAfter_returnRest_value, Phrase.statement,
        hready, hvalue, node, keyword, symbol, takes, Goal.emit, emit]

theorem Statements.reads (statements : Statements) (steps : List Step) (number : Nat)
    (goals : List Goal) (rest : List Token) :
    readAfter steps number (.phrase .moreStatements :: goals)
        (statements.words.map Word.token ++ (Word.symbol .rightBrace).token :: rest) =
      readAfter (.closed .statements :: (statements.course number).reverse ++ steps)
        (number + statements.numbers) goals ((Word.symbol .rightBrace).token :: rest) := by
  match statements with
  | .nil =>
      simp [Statements.course, Statements.numbers, readAfter_phrase, Phrase.expand,
        Phrase.numbersTaken]
  | .cons first others =>
      have hfirst := first.reads steps number goals _ (others.endsStatement rest)
      rw [Statements.words_cons, List.map_append, List.append_assoc, hfirst, others.reads]
      simp [Statements.course, Statements.numbers, Nat.add_assoc]

end

end JackLang
