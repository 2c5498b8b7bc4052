import JackLang.Proofs.Reading.Sentence

/-! # Declarations are read

Variables, parameters and subroutines are read in the steps of their courses,
and so is a whole unit, up to the end of its file.
-/

set_option autoImplicit false

namespace JackLang

open Step (node takes symbol keyword identifier emit)

def TypeName.word : TypeName → Word
  | .int => .keyword .int
  | .char => .keyword .char
  | .boolean => .keyword .boolean
  | .named name => .identifier name

@[simp] theorem TypeName.words_tree (type : TypeName) : type.tree.words = [type.word] := by
  cases type <;> simp [tree, word]

@[simp] theorem TypeName.isType_word (type : TypeName) : type.word.kind.isType = true := by
  cases type <;> rfl

@[simp] theorem TypeName.isInvalid_word (type : TypeName) :
    type.word.kind.isInvalid = false := by
  cases type <;> rfl

@[simp] theorem TypeName.lexeme_word (type : TypeName) : type.word.lexeme = type.text := by
  cases type <;> rfl

/-- The word in front of a subroutine's name. -/
def resultWord (result : Option TypeName) : Word :=
  (result.map TypeName.word).getD (.keyword .void)

@[simp] theorem isInvalid_resultWord (result : Option TypeName) :
    (resultWord result).kind.isInvalid = false := by
  cases result with
  | none => rfl
  | some type => exact type.isInvalid_word

/-- Names with commas in front of them. -/
def moreNameWords (names : List String) : List Word :=
  names.flatMap fun name => [.symbol .comma, .identifier name]

def VariableGroup.words (group : VariableGroup) : List Word :=
  group.type.word :: .identifier group.first :: moreNameWords group.others ++
    [.symbol .semicolon]

@[simp] theorem VariableGroup.words_trees (group : VariableGroup) :
    group.trees.flatMap ParseTree.words = group.words := by
  simp [trees, words, moreNameTrees, moreNameWords, List.flatMap_assoc]

def ClassVariableKind.word : ClassVariableKind → Word
  | .static => .keyword .static
  | .field => .keyword .field

def ClassVariables.words (declaration : ClassVariables) : List Word :=
  declaration.kind.word :: declaration.group.words

@[simp] theorem ClassVariables.words_tree (declaration : ClassVariables) :
    declaration.tree.words = declaration.words := by
  obtain ⟨kind, group⟩ := declaration
  cases kind <;> simp [tree, words, ClassVariableKind.word]

/-- Parameters with commas in front of them. -/
def moreParameterWords (parameters : List Parameter) : List Word :=
  parameters.flatMap fun parameter =>
    [.symbol .comma, parameter.type.word, .identifier parameter.name]

def parameterWords : List Parameter → List Word
  | [] => []
  | first :: others =>
      first.type.word :: .identifier first.name :: moreParameterWords others

@[simp] theorem words_parameterTrees (parameters : List Parameter) :
    (parameterTrees parameters).flatMap ParseTree.words = parameterWords parameters := by
  cases parameters with
  | nil => rfl
  | cons first others =>
      simp [parameterTrees, parameterWords, moreParameterWords, List.flatMap_assoc]

def localWords (groups : List VariableGroup) : List Word :=
  groups.flatMap fun group => .keyword .var :: group.words

def Subroutine.words (subroutine : Subroutine) : List Word :=
  .keyword subroutine.kind.keyword :: resultWord subroutine.result ::
    .identifier subroutine.name :: .symbol .leftParen ::
    parameterWords subroutine.parameters ++
    .symbol .rightParen :: .symbol .leftBrace :: localWords subroutine.locals ++
    subroutine.body.words ++ [.symbol .rightBrace]

@[simp] theorem Subroutine.words_tree (subroutine : Subroutine) :
    subroutine.tree.words = subroutine.words := by
  obtain ⟨kind, result, name, parameters, locals, body⟩ := subroutine
  cases result <;>
    simp [tree, words, resultWord, localWords, List.flatMap_map, Statements.words]

theorem ClassUnit.words_eq (unit : ClassUnit) :
    unit.words = .keyword .class :: .identifier unit.name :: .symbol .leftBrace ::
      unit.declarations.flatMap ClassVariables.words ++
      unit.subroutines.flatMap Subroutine.words ++ [.symbol .rightBrace] := by
  simp [words, tree, List.flatMap_map]

section Courses

/-- A name is taken and declared. -/
def declareCourse (kind : VariableKind) (type name : String) : List Step :=
  [identifier name, .act (.declare kind type (nameToken name))]

def VariableGroup.course (group : VariableGroup) (kind : VariableKind) : List Step :=
  takes group.type.word :: declareCourse kind group.type.text group.first ++
    (group.others.flatMap fun name =>
      symbol .comma :: declareCourse kind group.type.text name) ++
    [symbol .semicolon]

def ClassVariables.course (declaration : ClassVariables) : List Step :=
  node .classVarDec
    (takes declaration.kind.word ::
      declaration.group.course declaration.kind.variableKind)

def Parameter.course (parameter : Parameter) : List Step :=
  takes parameter.type.word :: declareCourse .argument parameter.type.text parameter.name

def parameterCourse : List Parameter → List Step
  | [] => []
  | first :: others =>
      first.course ++ others.flatMap fun parameter => symbol .comma :: parameter.course

def localCourse (groups : List VariableGroup) : List Step :=
  groups.flatMap fun group => node .varDec (keyword .var :: group.course .local)

def Subroutine.course (subroutine : Subroutine) (number : Nat) : List Step :=
  node .subroutineDec
    (keyword subroutine.kind.keyword :: .act .startSubroutine ::
      takes (resultWord subroutine.result) :: identifier subroutine.name ::
      .act (.nameSubroutine subroutine.kind subroutine.name) :: symbol .leftParen ::
      node .parameterList (parameterCourse subroutine.parameters) ++
      symbol .rightParen ::
      node .subroutineBody
        (symbol .leftBrace :: localCourse subroutine.locals ++
          .act (.enterBody subroutine.kind subroutine.name) ::
          node .statements (subroutine.body.course number) ++ [symbol .rightBrace]))

def subroutinesCourse (number : Nat) : List Subroutine → List Step
  | [] => []
  | first :: others =>
      first.course number ++ subroutinesCourse (number + first.body.numbers) others

def ClassUnit.course (unit : ClassUnit) : List Step :=
  node .class
    (keyword .class :: identifier unit.name :: .act (.nameClass unit.name) ::
      symbol .leftBrace :: unit.declarations.flatMap ClassVariables.course ++
      subroutinesCourse 0 unit.subroutines ++ [symbol .rightBrace])

end Courses

section Reads

variable {steps : List Step} {number : Nat} {goals : List Goal}

@[simp] theorem ready_moreNameWords (names : List String) (tokens : List Token) :
    Ready ((moreNameWords names).map Word.token ++
      (Word.symbol .semicolon).token :: tokens) := by
  cases names <;> simp [moreNameWords]

theorem readAfter_moreNames (kind : VariableKind) (type : String) (names : List String)
    (tokens : List Token) (steps : List Step) :
    readAfter steps number (.phrase (.moreNames kind type) :: goals)
        ((moreNameWords names).map Word.token ++ (Word.symbol .semicolon).token :: tokens) =
      readAfter ((names.flatMap fun name => symbol .comma ::
          declareCourse kind type name).reverse ++ steps) number goals
        ((Word.symbol .semicolon).token :: tokens) := by
  induction names generalizing steps with
  | nil => simp [moreNameWords, readAfter_phrase, Phrase.expand, Phrase.numbersTaken]
  | cons name others ih =>
      have hready := ready_moreNameWords others tokens
      simp only [moreNameWords] at ih hready
      simp [moreNameWords, readAfter_phrase, Phrase.expand, Phrase.numbersTaken, NameRole.next,
        hready, ih, declareCourse, identifier, symbol, takes, nameToken]

theorem VariableGroup.reads (group : VariableGroup) (kind : VariableKind) (steps : List Step)
    (expected : Expectation) (tokens : List Token) :
    readAfter steps number (.type (.declared kind) :: .symbol .semicolon expected :: goals)
        (group.words.map Word.token ++ tokens) =
      readAfter ((group.course kind).reverse ++ steps) number goals tokens := by
  simp [words, course, TypeRole.next, NameRole.next, readAfter_moreNames, declareCourse,
    identifier, symbol, takes, nameToken]

theorem ClassVariables.reads (declaration : ClassVariables) (steps : List Step)
    (tokens : List Token) (h : Ready tokens) :
    readAfter steps number (.phrase .classVariables :: goals)
        (declaration.words.map Word.token ++ tokens) =
      readAfter (declaration.course.reverse ++ steps) number (.phrase .classVariables :: goals)
        tokens := by
  obtain ⟨kind, group⟩ := declaration
  cases kind <;>
    simp [words, course, ClassVariableKind.word, ClassVariableKind.variableKind,
      readAfter_phrase _ _ .classVariables, Phrase.expand, Phrase.numbersTaken,
      Phrase.declaration, group.reads, h, node, takes]

@[simp] theorem ready_classVariables (declarations : List ClassVariables) (tokens : List Token)
    (h : Ready tokens) :
    Ready ((declarations.flatMap ClassVariables.words).map Word.token ++ tokens) := by
  cases declarations with
  | nil => exact h
  | cons first others =>
      obtain ⟨kind, group⟩ := first
      cases kind <;> simp [ClassVariables.words, ClassVariableKind.word]

theorem readAfter_classVariables (declarations : List ClassVariables) (steps : List Step)
    (tokens : List Token) (h : Ready tokens) :
    readAfter steps number (.phrase .classVariables :: goals)
        ((declarations.flatMap ClassVariables.words).map Word.token ++ tokens) =
      readAfter ((declarations.flatMap ClassVariables.course).reverse ++ steps) number
        (.phrase .classVariables :: goals) tokens := by
  induction declarations generalizing steps with
  | nil => simp
  | cons first others ih =>
      rw [List.flatMap_cons, List.map_append, List.append_assoc,
        first.reads _ _ (ready_classVariables others tokens h), ih]
      simp

theorem readAfter_locals_end (body : Statements) (tokens : List Token) :
    readAfter steps number (.phrase .locals :: goals)
        (body.words.map Word.token ++ (Word.symbol .rightBrace).token :: tokens) =
      readAfter steps number goals
        (body.words.map Word.token ++ (Word.symbol .rightBrace).token :: tokens) := by
  cases body with
  | nil => simp [readAfter_phrase, Phrase.expand, Phrase.numbersTaken]
  | cons first others =>
      cases first <;>
        simp [readAfter_phrase _ _ .locals, Phrase.expand, Phrase.numbersTaken]

@[simp] theorem ready_localWords (groups : List VariableGroup) (body : Statements)
    (tokens : List Token) :
    Ready ((localWords groups).map Word.token ++
      (body.words.map Word.token ++ (Word.symbol .rightBrace).token :: tokens)) := by
  cases groups with
  | nil => exact body.ready tokens
  | cons first others => rfl

theorem readAfter_locals (groups : List VariableGroup) (body : Statements) (steps : List Step)
    (tokens : List Token) :
    readAfter steps number (.phrase .locals :: goals)
        ((localWords groups).map Word.token ++
          (body.words.map Word.token ++ (Word.symbol .rightBrace).token :: tokens)) =
      readAfter ((localCourse groups).reverse ++ steps) number goals
        (body.words.map Word.token ++ (Word.symbol .rightBrace).token :: tokens) := by
  induction groups generalizing steps with
  | nil => exact readAfter_locals_end body tokens
  | cons first others ih =>
      have hready := ready_localWords others body tokens
      simp only [localWords] at ih hready
      simp [localWords, localCourse, readAfter_phrase _ _ .locals, Phrase.expand,
        Phrase.numbersTaken, Phrase.declaration, first.reads, hready, ih, node, keyword, takes]

@[simp] theorem ready_moreParameterWords (parameters : List Parameter) (tokens : List Token) :
    Ready ((moreParameterWords parameters).map Word.token ++
      (Word.symbol .rightParen).token :: tokens) := by
  cases parameters <;> simp [moreParameterWords]

theorem readAfter_moreParameters (parameters : List Parameter) (steps : List Step)
    (tokens : List Token) :
    readAfter steps number (.phrase .moreParameters :: goals)
        ((moreParameterWords parameters).map Word.token ++
          (Word.symbol .rightParen).token :: tokens) =
      readAfter ((parameters.flatMap fun parameter =>
          symbol .comma :: parameter.course).reverse ++ steps) number goals
        ((Word.symbol .rightParen).token :: tokens) := by
  induction parameters generalizing steps with
  | nil => simp [moreParameterWords, readAfter_phrase, Phrase.expand, Phrase.numbersTaken]
  | cons first others ih =>
      have hready := ready_moreParameterWords others tokens
      simp only [moreParameterWords] at ih hready
      simp [moreParameterWords, readAfter_phrase _ _ .moreParameters, Phrase.expand,
        Phrase.numbersTaken, TypeRole.next, NameRole.next, hready, ih, Parameter.course,
        declareCourse, identifier, symbol, takes, nameToken]

theorem readAfter_parameters (parameters : List Parameter) (steps : List Step)
    (tokens : List Token) :
    readAfter steps number (.phrase .parameters :: goals)
        ((parameterWords parameters).map Word.token ++
          (Word.symbol .rightParen).token :: tokens) =
      readAfter ((parameterCourse parameters).reverse ++ steps) number goals
        ((Word.symbol .rightParen).token :: tokens) := by
  cases parameters with
  | nil => simp [parameterWords, parameterCourse, readAfter_phrase, Phrase.expand,
      Phrase.numbersTaken]
  | cons first others =>
      have hkind : first.type.word.kind ≠ .symbol .rightParen := by
        cases first.type <;> simp [TypeName.word]
      simp [parameterWords, parameterCourse, readAfter_phrase _ _ .parameters, Phrase.expand,
        Phrase.numbersTaken, hkind, TypeRole.next, NameRole.next,
        readAfter_moreParameters, Parameter.course, declareCourse, identifier, takes, nameToken]

@[simp] theorem ready_parameterWords (parameters : List Parameter) (tokens : List Token) :
    Ready ((parameterWords parameters).map Word.token ++
      (Word.symbol .rightParen).token :: tokens) := by
  cases parameters with
  | nil => rfl
  | cons first others => exact first.type.isInvalid_word

theorem readAfter_resultType (result : Option TypeName) (tokens : List Token) :
    readAfter steps number (.phrase .resultType :: goals)
        ((resultWord result).token :: tokens) =
      readAfter (takes (resultWord result) :: steps) number goals tokens := by
  cases result with
  | none => simp [resultWord, readAfter_phrase, Phrase.expand, Phrase.numbersTaken, takes]
  | some type =>
      have hkind : type.word.kind ≠ .keyword .void := by
        cases type <;> simp [TypeName.word]
      simp [resultWord, readAfter_phrase, Phrase.expand, Phrase.numbersTaken, hkind, TypeRole.next,
        takes]

theorem Subroutine.reads (subroutine : Subroutine) (steps : List Step) (tokens : List Token)
    (h : Ready tokens) :
    readAfter steps number (.phrase .subroutines :: goals)
        (subroutine.words.map Word.token ++ tokens) =
      readAfter ((subroutine.course number).reverse ++ steps)
        (number + subroutine.body.numbers) (.phrase .subroutines :: goals) tokens := by
  obtain ⟨kind, result, name, parameters, locals, body⟩ := subroutine
  have hexpand : Phrase.subroutines.expand (Word.keyword kind.keyword).token number =
      .ok (Phrase.subroutine kind) := by
    cases kind <;> rfl
  simp [words, course, readAfter_phrase _ _ .subroutines, hexpand, Phrase.numbersTaken,
    Phrase.subroutine, readAfter_resultType, NameRole.next, Goal.subroutine,
    readAfter_parameters, readAfter_locals, body.reads, h, node, keyword, identifier, symbol,
    takes, nameToken]

theorem ready_subroutines (subroutines : List Subroutine) (rest : List Token) :
    Ready ((subroutines.flatMap Subroutine.words).map Word.token ++
      (Word.symbol .rightBrace).token :: rest) := by
  cases subroutines <;> simp [Subroutine.words]

theorem readAfter_classVariables_end (subroutines : List Subroutine) (rest : List Token) :
    readAfter steps number (.phrase .classVariables :: goals)
        ((subroutines.flatMap Subroutine.words).map Word.token ++
          (Word.symbol .rightBrace).token :: rest) =
      readAfter steps number goals
        ((subroutines.flatMap Subroutine.words).map Word.token ++
          (Word.symbol .rightBrace).token :: rest) := by
  cases subroutines with
  | nil => simp [readAfter_phrase, Phrase.expand, Phrase.numbersTaken]
  | cons first others =>
      obtain ⟨kind, result, name, parameters, locals, body⟩ := first
      cases kind <;>
        simp [Subroutine.words, SubroutineKind.keyword, readAfter_phrase _ _ .classVariables,
          Phrase.expand, Phrase.numbersTaken]

/-- How many conditionals and loops there are in subroutines. -/
def subroutinesNumbers : List Subroutine → Nat
  | [] => 0
  | first :: others => first.body.numbers + subroutinesNumbers others

theorem readAfter_subroutines (subroutines : List Subroutine) (steps : List Step) (number : Nat)
    (rest : List Token) :
    readAfter steps number (.phrase .subroutines :: goals)
        ((subroutines.flatMap Subroutine.words).map Word.token ++
          (Word.symbol .rightBrace).token :: rest) =
      readAfter ((subroutinesCourse number subroutines).reverse ++ steps)
        (number + subroutinesNumbers subroutines) goals
        ((Word.symbol .rightBrace).token :: rest) := by
  induction subroutines generalizing steps number with
  | nil =>
      simp [subroutinesCourse, subroutinesNumbers, readAfter_phrase, Phrase.expand,
        Phrase.numbersTaken]
  | cons first others ih =>
      rw [List.flatMap_cons, List.map_append, List.append_assoc,
        first.reads _ _ (ready_subroutines others rest), ih]
      simp [subroutinesCourse, subroutinesNumbers, Nat.add_assoc]

theorem readAfter_last (expected : Expectation) {last : Token} (h : last.kind = .endOfFile) :
    readAfter steps number (.token .endOfFile expected :: goals) [last] =
      ⟨steps.reverse ++ [.took last], .accepted⟩ := by
  rw [readAfter_token last [] .endOfFile expected (by simp [h]) h]
  simp [readAfter]

end Reads

/-- The words of a derivation in front of the end of the file are read in its
course, and are accepted. -/
theorem ClassUnit.readUnit_words (unit : ClassUnit) {last : Token}
    (hlast : last.kind = .endOfFile) :
    readUnit (unit.words.map Word.token ++ [last]) =
      ⟨unit.course ++ [.took last], .accepted⟩ := by
  have hready : Ready [last] := by simp [hlast]
  have hsubroutines := ready_subroutines unit.subroutines [last]
  rw [readUnit, words_eq]
  simp [Goal.unit, NameRole.next, readAfter_classVariables, readAfter_classVariables_end,
    readAfter_subroutines, readAfter_last _ hlast, hsubroutines, hready, course, node,
    keyword, identifier, symbol, takes, nameToken]

end JackLang
