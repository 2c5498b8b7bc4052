import JackLang.Proofs.Reading.Declarations

/-! # The shape of a reading

The actions among the steps left aside, reading a derivation goes through its
parse tree in document order: each node is opened, its children are gone through,
and it is closed again.
-/

set_option autoImplicit false

namespace JackLang

open Step (node takes symbol keyword identifier emit)

def Step.isAct : Step → Bool
  | .act _ => true
  | _ => false

/-- The steps without the actions. -/
def shape (steps : List Step) : List Step :=
  steps.filter (!·.isAct)

/-- The steps in which a parse tree is gone through. -/
def ParseTree.course : ParseTree → List Step
  | .leaf word => [takes word]
  | .node rule children => Step.node rule (children.flatMap course)

section Steps

variable (rest : List Step)

@[simp] theorem shape_nil : shape [] = [] := rfl

@[simp] theorem shape_append (first second : List Step) :
    shape (first ++ second) = shape first ++ shape second :=
  List.filter_append first second

@[simp] theorem shape_opened (rule : Rule) :
    shape (.opened rule :: rest) = .opened rule :: shape rest := rfl

@[simp] theorem shape_closed (rule : Rule) :
    shape (.closed rule :: rest) = .closed rule :: shape rest := rfl

@[simp] theorem shape_act (action : Action) : shape (.act action :: rest) = shape rest := rfl

@[simp] theorem shape_took (token : Token) :
    shape (.took token :: rest) = .took token :: shape rest := rfl

@[simp] theorem shape_takes (word : Word) :
    shape (takes word :: rest) = takes word :: shape rest := rfl

@[simp] theorem shape_symbol (mark : Symbol) :
    shape (symbol mark :: rest) = symbol mark :: shape rest := rfl

@[simp] theorem shape_keyword (word : Keyword) :
    shape (keyword word :: rest) = keyword word :: shape rest := rfl

@[simp] theorem shape_identifier (name : String) :
    shape (identifier name :: rest) = identifier name :: shape rest := rfl

@[simp] theorem shape_emit (instruction : Instruction) :
    shape (emit instruction :: rest) = shape rest := rfl

@[simp] theorem shape_node (rule : Rule) (inner : List Step) :
    shape (node rule inner) = node rule (shape inner) := by
  simp [node]

@[simp] theorem shape_flatMap {α : Type} (course : α → List Step) (things : List α) :
    shape (things.flatMap course) = things.flatMap fun one => shape (course one) := by
  rw [shape, List.filter_flatMap]
  rfl

end Steps

namespace ParseTree

@[simp] theorem course_node (rule : Rule) (children : List ParseTree) :
    (ParseTree.node rule children).course = Step.node rule (children.flatMap course) := by
  rw [course]

@[simp] theorem course_leaf (word : Word) : (leaf word).course = [takes word] := by
  rw [course]

@[simp] theorem course_symbol (mark : Symbol) :
    (ParseTree.symbol mark).course = [Step.symbol mark] := by
  rw [ParseTree.symbol, course_leaf]
  rfl

@[simp] theorem course_keyword (word : Keyword) :
    (ParseTree.keyword word).course = [Step.keyword word] := by
  rw [ParseTree.keyword, course_leaf]
  rfl

@[simp] theorem course_identifier (name : String) :
    (ParseTree.identifier name).course = [Step.identifier name] := by
  rw [ParseTree.identifier, course_leaf]
  rfl

end ParseTree

mutual

@[simp] theorem Expression.shape_course (expression : Expression) :
    shape expression.course = expression.children.flatMap ParseTree.course := by
  match expression with
  | .single term => simp [Expression.course, Expression.children, term.shape_course]
  | .operate first operator last =>
      simp [Expression.course, Expression.children, first.shape_course, last.shape_course]

@[simp] theorem Term.shape_course (term : Term) :
    shape term.course = term.children.flatMap ParseTree.course := by
  match term with
  | .integer _ | .string _ | .trueConstant | .falseConstant | .nullConstant | .thisConstant
  | .name _ => simp [Term.course, Term.children]
  | .parenthesized inner => simp [Term.course, Term.children, inner.shape_course]
  | .unary operator operand => simp [Term.course, Term.children, operand.shape_course]
  | .element array index => simp [Term.course, Term.children, index.shape_course]
  | .ownCall called arguments => simp [Term.course, Term.children, arguments.shape_course]
  | .memberCall receiver called arguments =>
      simp [Term.course, Term.children, arguments.shape_course]

@[simp] theorem Arguments.shape_course (arguments : Arguments) (callee : Callee) :
    shape (arguments.course callee) = arguments.children.flatMap ParseTree.course := by
  match arguments with
  | .none => simp [Arguments.course, Arguments.children]
  | .some list => simp [Arguments.course, Arguments.children, list.shape_course]

@[simp] theorem ArgumentList.shape_course (list : ArgumentList) (callee : Callee) :
    shape (list.course callee) = list.children.flatMap ParseTree.course := by
  match list with
  | .single argument =>
      simp [ArgumentList.course, ArgumentList.children, argument.shape_course]
  | .append before last =>
      simp [ArgumentList.course, ArgumentList.children, before.shape_course, last.shape_course]

end

@[simp] theorem Expression.shape_nodeCourse (expression : Expression) :
    shape expression.nodeCourse = expression.tree.course := by
  simp [nodeCourse, tree]

@[simp] theorem Call.shape_course (call : Call) :
    shape call.course = call.trees.flatMap ParseTree.course := by
  cases call <;> simp [course, trees]

mutual

@[simp] theorem Statement.shape_course (statement : Statement) (number : Nat) :
    shape (statement.course number) = statement.tree.course := by
  match statement with
  | .assign _ _ | .assignElement _ _ _ | .call _ | .returnNothing | .returnValue _ =>
      simp [Statement.course, Statement.tree]
  | .conditional condition body => simp [Statement.course, Statement.tree, body.shape_course]
  | .alternative condition first second =>
      simp [Statement.course, Statement.tree, first.shape_course, second.shape_course]
  | .loop condition body => simp [Statement.course, Statement.tree, body.shape_course]

@[simp] theorem Statements.shape_course (statements : Statements) (number : Nat) :
    shape (statements.course number) = statements.trees.flatMap ParseTree.course := by
  match statements with
  | .nil => simp [Statements.course, Statements.trees]
  | .cons first rest =>
      simp [Statements.course, Statements.trees, first.shape_course, rest.shape_course]

end

@[simp] theorem shape_declareCourse (kind : VariableKind) (type name : String) :
    shape (declareCourse kind type name) = [identifier name] := rfl

@[simp] theorem TypeName.course_tree (type : TypeName) : type.tree.course = [takes type.word] := by
  cases type <;> simp [tree, word] <;> rfl

@[simp] theorem VariableGroup.shape_course (group : VariableGroup) (kind : VariableKind) :
    shape (group.course kind) = group.trees.flatMap ParseTree.course := by
  simp [course, trees, moreNameTrees, List.flatMap_assoc]

@[simp] theorem ClassVariables.shape_course (declaration : ClassVariables) :
    shape declaration.course = declaration.tree.course := by
  obtain ⟨kind, group⟩ := declaration
  cases kind <;> simp [course, tree, ClassVariableKind.word, Step.keyword]

@[simp] theorem shape_parameterCourse (parameters : List Parameter) :
    shape (parameterCourse parameters) =
      (parameterTrees parameters).flatMap ParseTree.course := by
  cases parameters <;>
    simp [parameterCourse, parameterTrees, Parameter.course, List.flatMap_assoc]

@[simp] theorem Subroutine.shape_course (subroutine : Subroutine) (number : Nat) :
    shape (subroutine.course number) = subroutine.tree.course := by
  obtain ⟨kind, result, name, parameters, locals, body⟩ := subroutine
  cases result <;>
    simp [course, tree, resultWord, localCourse, List.flatMap_map, Step.keyword]

@[simp] theorem shape_subroutinesCourse (number : Nat) (subroutines : List Subroutine) :
    shape (subroutinesCourse number subroutines) =
      (subroutines.map Subroutine.tree).flatMap ParseTree.course := by
  induction subroutines generalizing number with
  | nil => rfl
  | cons first others ih => simp [subroutinesCourse, ih]

/-- Reading a unit goes through its parse tree. -/
@[simp] theorem ClassUnit.shape_course (unit : ClassUnit) : shape unit.course = unit.tree.course := by
  simp [course, tree, List.flatMap_map]

end JackLang
