import JackLang.Proofs.Compilation.Renaming

/-! # The code behind new names

The code of a statement only depends on what its names stand for. If the new names stand
for what the old ones did, then the code is the same, and so is what the language asks of it.
-/

set_option autoImplicit false

namespace JackLang

namespace Surroundings

/-- The name stands for the same under its new name. A name that is not declared is a class
behind which a subroutine is called, and it is not renamed. -/
structure Keeps (around next : Surroundings) (rename : String → String) (name : String) :
    Prop where
  resolve : next.resolve? (rename name) = around.resolve? name
  undeclared : around.resolve? name = none → rename name = name

/-- All names among the words stand for the same. -/
def KeepsAll (around next : Surroundings) (rename : String → String) (words : List Word) :
    Prop :=
  ∀ name, .identifier name ∈ words → around.Keeps next rename name

section Names

variable {around next : Surroundings} {rename : String → String} {name : String}

theorem Keeps.load (h : around.Keeps next rename name) :
    next.load (rename name) = around.load name := by
  rw [Surroundings.load, withVariable, h.resolve]
  rfl

theorem Keeps.store (h : around.Keeps next rename name) :
    next.store (rename name) = around.store name := by
  rw [Surroundings.store, withVariable, h.resolve]
  rfl

theorem Keeps.declares_iff (h : around.Keeps next rename name) :
    next.Declares (rename name) ↔ around.Declares name := by
  rw [← not_iff_not, ← resolve?_eq_none_iff, ← resolve?_eq_none_iff, h.resolve]

theorem Keeps.receiverCount (h : around.Keeps next rename name) :
    next.receiverCount (rename name) = around.receiverCount name := by
  simp only [Surroundings.receiverCount, h.declares_iff]

theorem Keeps.memberCallCode (h : around.Keeps next rename name) (called : String)
    (count : Nat) (arguments : List Instruction) :
    memberCallCode next (rename name) called count arguments =
      memberCallCode around name called count arguments := by
  rw [JackLang.memberCallCode, JackLang.memberCallCode, h.resolve]
  split
  · rfl
  · rename_i hnone
    rw [h.undeclared hnone]

@[simp] theorem keepsAll_nil : around.KeepsAll next rename [] := by
  simp [KeepsAll]

@[simp] theorem keepsAll_append (first second : List Word) :
    around.KeepsAll next rename (first ++ second) ↔
      around.KeepsAll next rename first ∧ around.KeepsAll next rename second := by
  simp [KeepsAll, or_imp, forall_and]

@[simp] theorem keepsAll_identifier (name : String) (words : List Word) :
    around.KeepsAll next rename (.identifier name :: words) ↔
      around.Keeps next rename name ∧ around.KeepsAll next rename words := by
  simp [KeepsAll, or_imp, forall_and, Word.identifier]

@[simp] theorem keepsAll_symbol (mark : Symbol) (words : List Word) :
    around.KeepsAll next rename (.symbol mark :: words) ↔
      around.KeepsAll next rename words := by
  simp [KeepsAll, Word.identifier, Word.symbol]

@[simp] theorem keepsAll_keyword (reserved : Keyword) (words : List Word) :
    around.KeepsAll next rename (.keyword reserved :: words) ↔
      around.KeepsAll next rename words := by
  simp [KeepsAll, Word.identifier, Word.keyword]

end Names

end Surroundings

section Trees

variable {rename : String → String}

mutual

theorem Arguments.count_renamed (arguments : Arguments) :
    (arguments.renamed rename).count = arguments.count := by
  match arguments with
  | .none => rfl
  | .some list => exact list.count_renamed

theorem ArgumentList.count_renamed (list : ArgumentList) :
    (list.renamed rename).count = list.count := by
  match list with
  | .single argument => rfl
  | .append list last => exact congrArg (· + 1) list.count_renamed

end

mutual

theorem Statement.numbers_renamed (statement : Statement) :
    (statement.renamed rename).numbers = statement.numbers := by
  match statement with
  | .conditional _ body | .loop _ body =>
      simp only [Statement.renamed, Statement.numbers, body.numbers_renamed]
  | .alternative _ first second =>
      simp only [Statement.renamed, Statement.numbers, first.numbers_renamed,
        second.numbers_renamed]
  | .assign _ _ | .assignElement _ _ _ | .call _ | .returnNothing | .returnValue _ => rfl

theorem Statements.numbers_renamed (statements : Statements) :
    (statements.renamed rename).numbers = statements.numbers := by
  match statements with
  | .nil => rfl
  | .cons first rest =>
      simp only [Statements.renamed, Statements.numbers, first.numbers_renamed,
        rest.numbers_renamed]

end

variable {around next : Surroundings}

mutual

theorem Expression.code_renamed (expression : Expression)
    (hclass : next.className = around.className)
    (h : around.KeepsAll next rename expression.words) :
    (expression.renamed rename).code next = expression.code around := by
  match expression with
  | .single term => exact term.code_renamed hclass (by simpa using h)
  | .operate first operator last =>
      simp only [Expression.words_operate, Surroundings.keepsAll_append,
        Surroundings.keepsAll_symbol] at h
      rw [Expression.renamed, Expression.code, first.code_renamed hclass h.1,
        last.code_renamed hclass h.2, Expression.code]

theorem Term.code_renamed (term : Term) (hclass : next.className = around.className)
    (h : around.KeepsAll next rename term.words) :
    (term.renamed rename).code next = term.code around := by
  match term with
  | .integer _ | .string _ | .trueConstant | .falseConstant | .nullConstant | .thisConstant =>
      rfl
  | .parenthesized inner => exact inner.code_renamed hclass (by simp_all)
  | .unary operator operand =>
      simp only [Term.words_unary, Surroundings.keepsAll_symbol] at h
      rw [Term.renamed, Term.code, operand.code_renamed hclass h, Term.code]
  | .name name =>
      simp only [Term.words_name, Surroundings.keepsAll_identifier] at h
      exact h.1.load
  | .element array index =>
      simp only [Term.words_element, List.cons_append, Surroundings.keepsAll_identifier,
        Surroundings.keepsAll_symbol, Surroundings.keepsAll_append] at h
      rw [Term.renamed, Term.code, h.1.load, index.code_renamed hclass h.2.1, Term.code]
  | .ownCall name arguments =>
      simp only [Term.words_ownCall, List.cons_append, Surroundings.keepsAll_identifier,
        Surroundings.keepsAll_symbol, Surroundings.keepsAll_append] at h
      rw [Term.renamed, Term.code, arguments.code_renamed hclass h.2.1,
        arguments.count_renamed, ownCallCode, hclass, Term.code, ownCallCode]
  | .memberCall receiver name arguments =>
      simp only [Term.words_memberCall, List.cons_append, Surroundings.keepsAll_identifier,
        Surroundings.keepsAll_symbol, Surroundings.keepsAll_append] at h
      rw [Term.renamed, Term.code, arguments.code_renamed hclass h.2.2.1,
        arguments.count_renamed, h.1.memberCallCode, Term.code]

theorem Arguments.code_renamed (arguments : Arguments)
    (hclass : next.className = around.className)
    (h : around.KeepsAll next rename arguments.words) :
    (arguments.renamed rename).code next = arguments.code around := by
  match arguments with
  | .none => rfl
  | .some list => exact list.code_renamed hclass (by simpa using h)

theorem ArgumentList.code_renamed (list : ArgumentList)
    (hclass : next.className = around.className)
    (h : around.KeepsAll next rename list.words) :
    (list.renamed rename).code next = list.code around := by
  match list with
  | .single argument => exact argument.code_renamed hclass (by simpa using h)
  | .append list last =>
      simp only [ArgumentList.words_append, Surroundings.keepsAll_append,
        Surroundings.keepsAll_symbol] at h
      rw [ArgumentList.renamed, ArgumentList.code, list.code_renamed hclass h.1,
        last.code_renamed hclass h.2, ArgumentList.code]

end

theorem Call.code_renamed (call : Call) (hclass : next.className = around.className)
    (h : around.KeepsAll next rename call.words) :
    (call.renamed rename).code next = call.code around := by
  cases call with
  | own name arguments =>
      exact (Term.ownCall name arguments).code_renamed hclass (by simpa using h)
  | member receiver name arguments =>
      exact (Term.memberCall receiver name arguments).code_renamed hclass (by simpa using h)

mutual

theorem Statement.code_renamed (statement : Statement) (number : Nat)
    (hclass : next.className = around.className)
    (h : around.KeepsAll next rename statement.words) :
    (statement.renamed rename).code next number = statement.code around number := by
  match statement with
  | .assign target value =>
      simp only [Statement.words_assign, List.cons_append, Surroundings.keepsAll_identifier,
        Surroundings.keepsAll_symbol, Surroundings.keepsAll_keyword,
        Surroundings.keepsAll_append] at h
      rw [Statement.renamed, Statement.code, value.code_renamed hclass h.2.1, h.1.store,
        Statement.code]
  | .assignElement array index value =>
      simp only [Statement.words_assignElement, List.cons_append, List.append_assoc,
        Surroundings.keepsAll_identifier, Surroundings.keepsAll_symbol,
        Surroundings.keepsAll_keyword, Surroundings.keepsAll_append] at h
      rw [Statement.renamed, Statement.code, h.1.load, index.code_renamed hclass h.2.1,
        value.code_renamed hclass h.2.2.1, Statement.code]
  | .conditional condition body =>
      simp only [Statement.words_conditional, List.cons_append, List.append_assoc,
        Surroundings.keepsAll_symbol, Surroundings.keepsAll_keyword,
        Surroundings.keepsAll_append] at h
      rw [Statement.renamed, Statement.code, condition.code_renamed hclass h.1,
        body.code_renamed _ hclass h.2.1, Statement.code]
  | .alternative condition first second =>
      simp only [Statement.words_alternative, List.cons_append, List.append_assoc,
        Surroundings.keepsAll_symbol, Surroundings.keepsAll_keyword,
        Surroundings.keepsAll_append] at h
      rw [Statement.renamed, Statement.code, condition.code_renamed hclass h.1,
        first.code_renamed _ hclass h.2.1, first.numbers_renamed,
        second.code_renamed _ hclass h.2.2.1, Statement.code]
  | .loop condition body =>
      simp only [Statement.words_loop, List.cons_append, List.append_assoc,
        Surroundings.keepsAll_symbol, Surroundings.keepsAll_keyword,
        Surroundings.keepsAll_append] at h
      rw [Statement.renamed, Statement.code, condition.code_renamed hclass h.1,
        body.code_renamed _ hclass h.2.1, Statement.code]
  | .call call =>
      simp only [Statement.words_call, List.cons_append, Surroundings.keepsAll_keyword,
        Surroundings.keepsAll_append] at h
      rw [Statement.renamed, Statement.code, call.code_renamed hclass h.1, Statement.code]
  | .returnNothing => rfl
  | .returnValue value =>
      simp only [Statement.words_returnValue, List.cons_append, Surroundings.keepsAll_keyword,
        Surroundings.keepsAll_append] at h
      rw [Statement.renamed, Statement.code, value.code_renamed hclass h.1, Statement.code]

theorem Statements.code_renamed (statements : Statements) (number : Nat)
    (hclass : next.className = around.className)
    (h : around.KeepsAll next rename statements.words) :
    (statements.renamed rename).code next number = statements.code around number := by
  match statements with
  | .nil => rfl
  | .cons first rest =>
      simp only [Statements.words_cons, Surroundings.keepsAll_append] at h
      rw [Statements.renamed, Statements.code, first.code_renamed _ hclass h.1,
        first.numbers_renamed, rest.code_renamed _ hclass h.2, Statements.code]

end

mutual

theorem Expression.permitted_renamed (expression : Expression)
    (h : around.KeepsAll next rename expression.words) :
    (expression.renamed rename).Permitted next ↔ expression.Permitted around := by
  match expression with
  | .single term => exact term.permitted_renamed (by simpa using h)
  | .operate first operator last =>
      simp only [Expression.words_operate, Surroundings.keepsAll_append,
        Surroundings.keepsAll_symbol] at h
      exact and_congr (first.permitted_renamed h.1) (last.permitted_renamed h.2)

theorem Term.permitted_renamed (term : Term) (h : around.KeepsAll next rename term.words) :
    (term.renamed rename).Permitted next ↔ term.Permitted around := by
  match term with
  | .integer _ | .string _ | .trueConstant | .falseConstant | .nullConstant | .thisConstant =>
      rfl
  | .parenthesized inner => exact inner.permitted_renamed (by simp_all)
  | .unary operator operand => exact operand.permitted_renamed (by simpa using h)
  | .name name =>
      simp only [Term.words_name, Surroundings.keepsAll_identifier] at h
      exact h.1.declares_iff
  | .element array index =>
      simp only [Term.words_element, List.cons_append, Surroundings.keepsAll_identifier,
        Surroundings.keepsAll_symbol, Surroundings.keepsAll_append] at h
      exact and_congr h.1.declares_iff (index.permitted_renamed h.2.1)
  | .ownCall name arguments =>
      simp only [Term.words_ownCall, List.cons_append, Surroundings.keepsAll_identifier,
        Surroundings.keepsAll_symbol, Surroundings.keepsAll_append] at h
      rw [Term.renamed, Term.Permitted, arguments.count_renamed,
        arguments.permitted_renamed h.2.1, Term.Permitted]
  | .memberCall receiver name arguments =>
      simp only [Term.words_memberCall, List.cons_append, Surroundings.keepsAll_identifier,
        Surroundings.keepsAll_symbol, Surroundings.keepsAll_append] at h
      rw [Term.renamed, Term.Permitted, arguments.count_renamed, h.1.receiverCount,
        arguments.permitted_renamed h.2.2.1, Term.Permitted]

theorem Arguments.permitted_renamed (arguments : Arguments)
    (h : around.KeepsAll next rename arguments.words) :
    (arguments.renamed rename).Permitted next ↔ arguments.Permitted around := by
  match arguments with
  | .none => rfl
  | .some list => exact list.permitted_renamed (by simpa using h)

theorem ArgumentList.permitted_renamed (list : ArgumentList)
    (h : around.KeepsAll next rename list.words) :
    (list.renamed rename).Permitted next ↔ list.Permitted around := by
  match list with
  | .single argument => exact argument.permitted_renamed (by simpa using h)
  | .append list last =>
      simp only [ArgumentList.words_append, Surroundings.keepsAll_append,
        Surroundings.keepsAll_symbol] at h
      exact and_congr (list.permitted_renamed h.1) (last.permitted_renamed h.2)

end

theorem Call.permitted_renamed (call : Call) (h : around.KeepsAll next rename call.words) :
    (call.renamed rename).Permitted next ↔ call.Permitted around := by
  cases call with
  | own name arguments =>
      exact (Term.ownCall name arguments).permitted_renamed (by simpa using h)
  | member receiver name arguments =>
      exact (Term.memberCall receiver name arguments).permitted_renamed (by simpa using h)

mutual

theorem Statement.permitted_renamed (statement : Statement)
    (h : around.KeepsAll next rename statement.words) :
    (statement.renamed rename).Permitted next ↔ statement.Permitted around := by
  match statement with
  | .assign target value =>
      simp only [Statement.words_assign, List.cons_append, Surroundings.keepsAll_identifier,
        Surroundings.keepsAll_symbol, Surroundings.keepsAll_keyword,
        Surroundings.keepsAll_append] at h
      exact and_congr h.1.declares_iff (value.permitted_renamed h.2.1)
  | .assignElement array index value =>
      simp only [Statement.words_assignElement, List.cons_append, List.append_assoc,
        Surroundings.keepsAll_identifier, Surroundings.keepsAll_symbol,
        Surroundings.keepsAll_keyword, Surroundings.keepsAll_append] at h
      exact and_congr h.1.declares_iff
        (and_congr (index.permitted_renamed h.2.1) (value.permitted_renamed h.2.2.1))
  | .conditional condition body | .loop condition body =>
      simp only [Statement.words_conditional, Statement.words_loop, List.cons_append,
        List.append_assoc, Surroundings.keepsAll_symbol, Surroundings.keepsAll_keyword,
        Surroundings.keepsAll_append] at h
      exact and_congr (condition.permitted_renamed h.1) (body.permitted_renamed h.2.1)
  | .alternative condition first second =>
      simp only [Statement.words_alternative, List.cons_append, List.append_assoc,
        Surroundings.keepsAll_symbol, Surroundings.keepsAll_keyword,
        Surroundings.keepsAll_append] at h
      exact and_congr (condition.permitted_renamed h.1)
        (and_congr (first.permitted_renamed h.2.1) (second.permitted_renamed h.2.2.1))
  | .call call =>
      simp only [Statement.words_call, List.cons_append, Surroundings.keepsAll_keyword,
        Surroundings.keepsAll_append] at h
      exact call.permitted_renamed h.1
  | .returnNothing => rfl
  | .returnValue value =>
      simp only [Statement.words_returnValue, List.cons_append, Surroundings.keepsAll_keyword,
        Surroundings.keepsAll_append] at h
      exact value.permitted_renamed h.1

theorem Statements.permitted_renamed (statements : Statements)
    (h : around.KeepsAll next rename statements.words) :
    (statements.renamed rename).Permitted next ↔ statements.Permitted around := by
  match statements with
  | .nil => rfl
  | .cons first rest =>
      simp only [Statements.words_cons, Surroundings.keepsAll_append] at h
      exact and_congr (first.permitted_renamed h.1) (rest.permitted_renamed h.2)

end

end Trees

end JackLang
