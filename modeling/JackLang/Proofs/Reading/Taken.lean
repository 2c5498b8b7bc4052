import JackLang.Proofs.Reading.Shape

/-! # The words that steps take

The course of a derivation takes just the words of the derivation, so the number
of a token in a unit is how many words the steps in front of it take.
-/

set_option autoImplicit false

namespace JackLang

open Step (node takes symbol keyword identifier emit)

/-- The word that a step takes. -/
def Step.word? : Step → Option Word
  | .took token => some token.word
  | _ => none

/-- The words that steps take. -/
def wordsTaken (steps : List Step) : List Word :=
  steps.filterMap Step.word?

section Steps

variable (rest : List Step)

@[simp] theorem wordsTaken_nil : wordsTaken [] = [] := rfl

@[simp] theorem wordsTaken_append (first second : List Step) :
    wordsTaken (first ++ second) = wordsTaken first ++ wordsTaken second :=
  List.filterMap_append

@[simp] theorem wordsTaken_opened (rule : Rule) :
    wordsTaken (.opened rule :: rest) = wordsTaken rest := rfl

@[simp] theorem wordsTaken_closed (rule : Rule) :
    wordsTaken (.closed rule :: rest) = wordsTaken rest := rfl

@[simp] theorem wordsTaken_act (action : Action) :
    wordsTaken (.act action :: rest) = wordsTaken rest := rfl

@[simp] theorem wordsTaken_took (token : Token) :
    wordsTaken (.took token :: rest) = token.word :: wordsTaken rest := rfl

@[simp] theorem wordsTaken_takes (word : Word) :
    wordsTaken (takes word :: rest) = word :: wordsTaken rest := rfl

@[simp] theorem wordsTaken_symbol (mark : Symbol) :
    wordsTaken (symbol mark :: rest) = .symbol mark :: wordsTaken rest := rfl

@[simp] theorem wordsTaken_keyword (word : Keyword) :
    wordsTaken (keyword word :: rest) = .keyword word :: wordsTaken rest := rfl

@[simp] theorem wordsTaken_identifier (name : String) :
    wordsTaken (identifier name :: rest) = .identifier name :: wordsTaken rest := rfl

@[simp] theorem wordsTaken_emit (instruction : Instruction) :
    wordsTaken (emit instruction :: rest) = wordsTaken rest := rfl

@[simp] theorem wordsTaken_node (rule : Rule) (inner : List Step) :
    wordsTaken (node rule inner) = wordsTaken inner := by
  simp [node]

@[simp] theorem wordsTaken_flatMap {α : Type} (course : α → List Step) (things : List α) :
    wordsTaken (things.flatMap course) = things.flatMap fun one => wordsTaken (course one) :=
  List.filterMap_flatMap

end Steps

/-- The actions take no words. -/
theorem wordsTaken_shape (steps : List Step) : wordsTaken (shape steps) = wordsTaken steps := by
  induction steps with
  | nil => rfl
  | cons step rest ih => cases step <;> simp [ih]

theorem ParseTree.wordsTaken_course (tree : ParseTree) : wordsTaken tree.course = tree.words := by
  match tree with
  | .leaf word => simp
  | .node rule children =>
      rw [course_node, wordsTaken_node, wordsTaken_flatMap, words_node, List.flatMap_def,
        List.map_congr_left fun child _ => child.wordsTaken_course, List.flatMap_def]

theorem wordsTaken_trees {steps : List Step} {trees : List ParseTree}
    (h : shape steps = trees.flatMap ParseTree.course) :
    wordsTaken steps = trees.flatMap ParseTree.words := by
  rw [← wordsTaken_shape, h, wordsTaken_flatMap]
  simp only [ParseTree.wordsTaken_course]

theorem wordsTaken_tree {steps : List Step} {tree : ParseTree} (h : shape steps = tree.course) :
    wordsTaken steps = tree.words := by
  rw [← wordsTaken_shape, h, tree.wordsTaken_course]

section Courses

variable (callee : Callee) (number : Nat)

@[simp] theorem Expression.wordsTaken_course (expression : Expression) :
    wordsTaken expression.course = expression.words :=
  wordsTaken_trees expression.shape_course

@[simp] theorem Term.wordsTaken_course (term : Term) : wordsTaken term.course = term.words :=
  wordsTaken_trees term.shape_course

@[simp] theorem Arguments.wordsTaken_course (arguments : Arguments) :
    wordsTaken (arguments.course callee) = arguments.words :=
  wordsTaken_trees (arguments.shape_course callee)

@[simp] theorem ArgumentList.wordsTaken_course (list : ArgumentList) :
    wordsTaken (list.course callee) = list.words :=
  wordsTaken_trees (list.shape_course callee)

@[simp] theorem Expression.wordsTaken_nodeCourse (expression : Expression) :
    wordsTaken expression.nodeCourse = expression.words := by
  simp [nodeCourse]

@[simp] theorem Call.wordsTaken_course (call : Call) : wordsTaken call.course = call.words :=
  wordsTaken_trees call.shape_course

@[simp] theorem Statement.wordsTaken_course (statement : Statement) :
    wordsTaken (statement.course number) = statement.words :=
  wordsTaken_tree (statement.shape_course number)

@[simp] theorem Statements.wordsTaken_course (statements : Statements) :
    wordsTaken (statements.course number) = statements.words :=
  wordsTaken_trees (statements.shape_course number)

@[simp] theorem wordsTaken_declareCourse (kind : VariableKind) (type name : String) :
    wordsTaken (declareCourse kind type name) = [.identifier name] := rfl

@[simp] theorem VariableGroup.wordsTaken_course (group : VariableGroup) (kind : VariableKind) :
    wordsTaken (group.course kind) = group.words := by
  rw [wordsTaken_trees (group.shape_course kind), group.words_trees]

@[simp] theorem ClassVariables.wordsTaken_course (declaration : ClassVariables) :
    wordsTaken declaration.course = declaration.words := by
  rw [wordsTaken_tree declaration.shape_course, declaration.words_tree]

@[simp] theorem wordsTaken_parameterCourse (parameters : List Parameter) :
    wordsTaken (parameterCourse parameters) = parameterWords parameters := by
  rw [wordsTaken_trees (shape_parameterCourse parameters), words_parameterTrees]

@[simp] theorem wordsTaken_localCourse (groups : List VariableGroup) :
    wordsTaken (localCourse groups) = localWords groups := by
  simp [localCourse, localWords]

@[simp] theorem Subroutine.wordsTaken_course (subroutine : Subroutine) :
    wordsTaken (subroutine.course number) = subroutine.words := by
  rw [wordsTaken_tree (subroutine.shape_course number), subroutine.words_tree]

end Courses

end JackLang
