import JackLang.Proofs.Compilation.Units
import Mathlib.Data.List.Forall2

/-! # Variables by other names

A variable of a class or of a subroutine gets another name: where it is declared, and in
the places that stand for it, which are those where its name is that of a variable and no
declaration closer by hides it. If the name is new to the unit, then all names stand for
what they stood for before, and the code is the same.
-/

set_option autoImplicit false

namespace JackLang

/-- The new name instead of the old one. -/
def renameTo (old new name : String) : String :=
  if name = old then new else name

section Trees

variable (rename : String → String)

mutual

/-- Only names of variables are renamed: that of a term, of an array and of a receiver. -/
def Expression.renamed : Expression → Expression
  | .single term => .single term.renamed
  | .operate first operator last => .operate first.renamed operator last.renamed

def Term.renamed : Term → Term
  | .integer digits => .integer digits
  | .string content => .string content
  | .trueConstant => .trueConstant
  | .falseConstant => .falseConstant
  | .nullConstant => .nullConstant
  | .thisConstant => .thisConstant
  | .parenthesized inner => .parenthesized inner.renamed
  | .unary operator operand => .unary operator operand.renamed
  | .name name => .name (rename name)
  | .element array index => .element (rename array) index.renamed
  | .ownCall name arguments => .ownCall name arguments.renamed
  | .memberCall receiver name arguments =>
      .memberCall (rename receiver) name arguments.renamed

def Arguments.renamed : Arguments → Arguments
  | .none => .none
  | .some list => .some list.renamed

def ArgumentList.renamed : ArgumentList → ArgumentList
  | .single argument => .single argument.renamed
  | .append list last => .append list.renamed last.renamed

end

def Call.renamed : Call → Call
  | .own name arguments => .own name (arguments.renamed rename)
  | .member receiver name arguments =>
      .member (rename receiver) name (arguments.renamed rename)

mutual

def Statement.renamed : Statement → Statement
  | .assign target value => .assign (rename target) (value.renamed rename)
  | .assignElement array index value =>
      .assignElement (rename array) (index.renamed rename) (value.renamed rename)
  | .conditional condition body => .conditional (condition.renamed rename) body.renamed
  | .alternative condition first second =>
      .alternative (condition.renamed rename) first.renamed second.renamed
  | .loop condition body => .loop (condition.renamed rename) body.renamed
  | .call call => .call (call.renamed rename)
  | .returnNothing => .returnNothing
  | .returnValue value => .returnValue (value.renamed rename)

def Statements.renamed : Statements → Statements
  | .nil => .nil
  | .cons first rest => .cons first.renamed rest.renamed

end

def VariableGroup.renamed (group : VariableGroup) : VariableGroup :=
  { group with first := rename group.first, others := group.others.map rename }

def ClassVariables.renamed (declaration : ClassVariables) : ClassVariables :=
  { declaration with group := declaration.group.renamed rename }

def Parameter.renamed (parameter : Parameter) : Parameter :=
  { parameter with name := rename parameter.name }

/-- The subroutine with other names in its statements, but not in its declarations. -/
def Subroutine.withBodyRenamed (subroutine : Subroutine) : Subroutine :=
  { subroutine with body := subroutine.body.renamed rename }

def Subroutine.renamed (subroutine : Subroutine) : Subroutine :=
  { subroutine with
    parameters := subroutine.parameters.map (Parameter.renamed rename)
    locals := subroutine.locals.map (VariableGroup.renamed rename)
    body := subroutine.body.renamed rename }

def Declared.renamed (declared : Declared) : Declared :=
  { declared with name := rename declared.name }

end Trees

/-- A variable that is declared in the class, or in the subroutine with the given place. -/
inductive DeclaredName where
  | ofClass (name : String)
  | ofSubroutine (place : Nat) (name : String)

def DeclaredName.name : DeclaredName → String
  | .ofClass name => name
  | .ofSubroutine _ name => name

namespace ClassUnit

def DeclaresName (unit : ClassUnit) : DeclaredName → Prop
  | .ofClass name => name ∈ namesOf unit.declared
  | .ofSubroutine place name =>
      ∃ subroutine, unit.subroutines[place]? = some subroutine ∧ name ∈ subroutine.ownNames

/-- The unit with a variable by a new name. Where a subroutine declares the name of a
variable of the class itself, the name does not stand for that variable. -/
def renamed (unit : ClassUnit) (declaration : DeclaredName) (new : String) : ClassUnit :=
  match declaration with
  | .ofClass name =>
      { unit with
        declarations := unit.declarations.map (ClassVariables.renamed (renameTo name new))
        subroutines := unit.subroutines.map fun subroutine =>
          subroutine.withBodyRenamed
            (if name ∈ subroutine.ownNames then id else renameTo name new) }
  | .ofSubroutine place name =>
      { unit with
        subroutines := unit.subroutines.modify place (Subroutine.renamed (renameTo name new)) }

end ClassUnit

section Changes

variable {α : Type} {related : α → α → Prop}

theorem forall₂_map (change : α → α) {things : List α}
    (h : ∀ one ∈ things, related one (change one)) :
    List.Forall₂ related things (things.map change) :=
  List.forall₂_map_right_iff.mpr (List.forall₂_same.mpr h)

theorem forall₂_modify (change : α → α) {things : List α} (place : Nat)
    (hrefl : ∀ one, related one one)
    (h : ∀ one, things[place]? = some one → related one (change one)) :
    List.Forall₂ related things (things.modify place change) := by
  induction things generalizing place with
  | nil =>
      rw [List.modify_nil]
      exact .nil
  | cons first others ih =>
      cases place with
      | zero =>
          have hothers : List.Forall₂ related others others :=
            List.forall₂_same.mpr fun one _ => hrefl one
          exact .cons (h first rfl) hothers
      | succ place =>
          exact .cons (hrefl first) (ih place h)

end Changes

section Words

/-- A word stays, or it is the old name and becomes the new one. -/
def Word.Renamed (old new : String) (word next : Word) : Prop :=
  next = word ∨ word = .identifier old ∧ next = .identifier new

abbrev WordsRenamed (old new : String) : List Word → List Word → Prop :=
  List.Forall₂ (Word.Renamed old new)

variable {old new : String}

theorem Word.renamed_self (word : Word) : word.Renamed old new word := .inl rfl

/-- The names that are renamed are the old one, which becomes the new one. -/
def Renames (rename : String → String) (old new : String) : Prop :=
  ∀ name, (Word.identifier name).Renamed old new (.identifier (rename name))

theorem renames_renameTo (old new : String) : Renames (renameTo old new) old new := by
  intro name
  rw [renameTo]
  split
  · rename_i hname
    exact .inr ⟨by rw [hname], rfl⟩
  · exact Word.renamed_self _

theorem renames_id (old new : String) : Renames id old new :=
  fun _ => Word.renamed_self _

namespace WordsRenamed

theorem refl (words : List Word) : WordsRenamed old new words words :=
  List.forall₂_same.mpr fun word _ => word.renamed_self

theorem append {first second firstNext secondNext : List Word}
    (hfirst : WordsRenamed old new first firstNext)
    (hsecond : WordsRenamed old new second secondNext) :
    WordsRenamed old new (first ++ second) (firstNext ++ secondNext) :=
  List.rel_append hfirst hsecond

theorem after (word : Word) {words next : List Word} (h : WordsRenamed old new words next) :
    WordsRenamed old new (word :: words) (word :: next) :=
  .cons word.renamed_self h

theorem before (word : Word) {words next : List Word} (h : WordsRenamed old new words next) :
    WordsRenamed old new (words ++ [word]) (next ++ [word]) :=
  h.append (refl [word])

theorem flatMap {α : Type} {words : α → List Word} {things nexts : List α}
    (h : List.Forall₂ (fun one next => WordsRenamed old new (words one) (words next))
      things nexts) :
    WordsRenamed old new (things.flatMap words) (nexts.flatMap words) := by
  induction h with
  | nil => exact .nil
  | cons hfirst _ ih =>
      rw [List.flatMap_cons, List.flatMap_cons]
      exact hfirst.append ih

end WordsRenamed

section Names

variable {rename : String → String}

open WordsRenamed (after before refl)

mutual

theorem Expression.words_renamed (h : Renames rename old new) (expression : Expression) :
    WordsRenamed old new expression.words (expression.renamed rename).words := by
  match expression with
  | .single term =>
      rw [Expression.renamed, Expression.words_single, Expression.words_single]
      exact term.words_renamed h
  | .operate first operator last =>
      rw [Expression.renamed, Expression.words_operate, Expression.words_operate]
      exact (first.words_renamed h).append (after _ (last.words_renamed h))

theorem Term.words_renamed (h : Renames rename old new) (term : Term) :
    WordsRenamed old new term.words (term.renamed rename).words := by
  match term with
  | .integer _ | .string _ | .trueConstant | .falseConstant | .nullConstant | .thisConstant =>
      exact refl _
  | .parenthesized inner =>
      rw [Term.renamed, Term.words_parenthesized, Term.words_parenthesized]
      exact before _ (after _ (inner.words_renamed h))
  | .unary operator operand =>
      rw [Term.renamed, Term.words_unary, Term.words_unary]
      exact after _ (operand.words_renamed h)
  | .name name =>
      rw [Term.renamed, Term.words_name, Term.words_name]
      exact .cons (h name) .nil
  | .element array index =>
      rw [Term.renamed, Term.words_element, Term.words_element]
      exact before _ (.cons (h array) (after _ (index.words_renamed h)))
  | .ownCall name arguments =>
      rw [Term.renamed, Term.words_ownCall, Term.words_ownCall]
      exact before _ (after _ (after _ (arguments.words_renamed h)))
  | .memberCall receiver name arguments =>
      rw [Term.renamed, Term.words_memberCall, Term.words_memberCall]
      exact before _ (.cons (h receiver) (after _ (after _ (after _ (arguments.words_renamed h)))))

theorem Arguments.words_renamed (h : Renames rename old new) (arguments : Arguments) :
    WordsRenamed old new arguments.words (arguments.renamed rename).words := by
  match arguments with
  | .none => exact refl _
  | .some list =>
      rw [Arguments.renamed, Arguments.words_some, Arguments.words_some]
      exact list.words_renamed h

theorem ArgumentList.words_renamed (h : Renames rename old new) (list : ArgumentList) :
    WordsRenamed old new list.words (list.renamed rename).words := by
  match list with
  | .single argument =>
      rw [ArgumentList.renamed, ArgumentList.words_single, ArgumentList.words_single]
      exact argument.words_renamed h
  | .append list last =>
      rw [ArgumentList.renamed, ArgumentList.words_append, ArgumentList.words_append]
      exact (list.words_renamed h).append (after _ (last.words_renamed h))

end

theorem Call.words_renamed (h : Renames rename old new) (call : Call) :
    WordsRenamed old new call.words (call.renamed rename).words := by
  cases call with
  | own name arguments =>
      rw [Call.renamed, Call.words_own, Call.words_own]
      exact before _ (after _ (after _ (arguments.words_renamed h)))
  | member receiver name arguments =>
      rw [Call.renamed, Call.words_member, Call.words_member]
      exact before _ (.cons (h receiver)
        (after _ (after _ (after _ (arguments.words_renamed h)))))

mutual

theorem Statement.words_renamed (h : Renames rename old new) (statement : Statement) :
    WordsRenamed old new statement.words (statement.renamed rename).words := by
  match statement with
  | .assign target value =>
      rw [Statement.renamed, Statement.words_assign, Statement.words_assign]
      exact before _ (after _ (.cons (h target) (after _ (value.words_renamed h))))
  | .assignElement array index value =>
      rw [Statement.renamed, Statement.words_assignElement, Statement.words_assignElement]
      have hplace := after (.keyword .let) (.cons (h array)
        (after (.symbol .leftBracket) (index.words_renamed h)))
      exact before _ (hplace.append (after _ (after _ (value.words_renamed h))))
  | .conditional condition body =>
      rw [Statement.renamed, Statement.words_conditional, Statement.words_conditional]
      have hcondition := after (.keyword .if) (after (.symbol .leftParen)
        (condition.words_renamed h))
      exact before _ (hcondition.append (after _ (after _ (body.words_renamed h))))
  | .alternative condition first second =>
      rw [Statement.renamed, Statement.words_alternative, Statement.words_alternative]
      have hcondition := after (.keyword .if) (after (.symbol .leftParen)
        (condition.words_renamed h))
      have hfirst := hcondition.append (after (.symbol .rightParen)
        (after (.symbol .leftBrace) (first.words_renamed h)))
      exact before _ (hfirst.append (after _ (after _ (after _ (second.words_renamed h)))))
  | .loop condition body =>
      rw [Statement.renamed, Statement.words_loop, Statement.words_loop]
      have hcondition := after (.keyword .while) (after (.symbol .leftParen)
        (condition.words_renamed h))
      exact before _ (hcondition.append (after _ (after _ (body.words_renamed h))))
  | .call call =>
      rw [Statement.renamed, Statement.words_call, Statement.words_call]
      exact before _ (after _ (call.words_renamed h))
  | .returnNothing => exact refl _
  | .returnValue value =>
      rw [Statement.renamed, Statement.words_returnValue, Statement.words_returnValue]
      exact before _ (after _ (value.words_renamed h))

theorem Statements.words_renamed (h : Renames rename old new) (statements : Statements) :
    WordsRenamed old new statements.words (statements.renamed rename).words := by
  match statements with
  | .nil => exact refl _
  | .cons first rest =>
      rw [Statements.renamed, Statements.words_cons, Statements.words_cons]
      exact (first.words_renamed h).append (rest.words_renamed h)

end

theorem VariableGroup.words_renamed (h : Renames rename old new) (group : VariableGroup) :
    WordsRenamed old new group.words (group.renamed rename).words := by
  have hothers : WordsRenamed old new (moreNameWords group.others)
      (moreNameWords (group.others.map rename)) := by
    refine WordsRenamed.flatMap (forall₂_map rename ?_)
    intro name _
    exact after _ (.cons (h name) .nil)
  exact before _ (after _ (.cons (h group.first) hothers))

theorem ClassVariables.words_renamed (h : Renames rename old new) (declaration : ClassVariables) :
    WordsRenamed old new declaration.words (declaration.renamed rename).words :=
  after _ (declaration.group.words_renamed h)

theorem parameterWords_renamed (h : Renames rename old new) (parameters : List Parameter) :
    WordsRenamed old new (parameterWords parameters)
      (parameterWords (parameters.map (Parameter.renamed rename))) := by
  cases parameters with
  | nil => exact refl _
  | cons first others =>
      have hothers : WordsRenamed old new (moreParameterWords others)
          (moreParameterWords (others.map (Parameter.renamed rename))) := by
        refine WordsRenamed.flatMap (forall₂_map _ ?_)
        intro parameter _
        exact after _ (after _ (.cons (h parameter.name) .nil))
      exact after _ (.cons (h first.name) hothers)

theorem localWords_renamed (h : Renames rename old new) (groups : List VariableGroup) :
    WordsRenamed old new (localWords groups)
      (localWords (groups.map (VariableGroup.renamed rename))) := by
  refine WordsRenamed.flatMap (forall₂_map _ ?_)
  intro group _
  exact after _ (group.words_renamed h)

theorem Subroutine.words_withBodyRenamed (h : Renames rename old new) (subroutine : Subroutine) :
    WordsRenamed old new subroutine.words (subroutine.withBodyRenamed rename).words :=
  before _ ((refl _).append (subroutine.body.words_renamed h))

theorem Subroutine.words_renamed (h : Renames rename old new) (subroutine : Subroutine) :
    WordsRenamed old new subroutine.words (subroutine.renamed rename).words := by
  have hparameters := after (.keyword subroutine.kind.keyword)
    (after (resultWord subroutine.result) (after (.identifier subroutine.name)
      (after (.symbol .leftParen) (parameterWords_renamed h subroutine.parameters))))
  have hlocals := hparameters.append (after (.symbol .rightParen)
    (after (.symbol .leftBrace) (localWords_renamed h subroutine.locals)))
  exact before _ (hlocals.append (subroutine.body.words_renamed h))

end Names

/-- Nothing but the name changes among the words of the unit. -/
theorem ClassUnit.words_renamed (unit : ClassUnit) (declaration : DeclaredName) (new : String) :
    WordsRenamed declaration.name new unit.words (unit.renamed declaration new).words := by
  have hrename := renames_renameTo declaration.name new
  have hparts : ∀ {declarations subroutines},
      WordsRenamed declaration.name new (unit.declarations.flatMap ClassVariables.words)
        declarations →
      WordsRenamed declaration.name new (unit.subroutines.flatMap Subroutine.words)
        subroutines →
      WordsRenamed declaration.name new unit.words
        (.keyword .class :: .identifier unit.name :: .symbol .leftBrace :: declarations ++
          subroutines ++ [.symbol .rightBrace]) := by
    intro declarations subroutines hdeclarations hsubroutines
    rw [unit.words_eq]
    have hopening := WordsRenamed.after (.keyword .class)
      (.after (.identifier unit.name) (.after (.symbol .leftBrace) hdeclarations))
    exact .before _ (hopening.append hsubroutines)
  rw [words_eq (unit.renamed declaration new)]
  cases declaration with
  | ofClass name =>
      refine hparts (.flatMap (forall₂_map _ ?_)) (.flatMap (forall₂_map _ ?_))
      · intro one _
        exact one.words_renamed hrename
      · intro subroutine _
        apply subroutine.words_withBodyRenamed
        split
        · exact renames_id _ _
        · exact hrename
  | ofSubroutine place name =>
      refine hparts (.refl _) (.flatMap (forall₂_modify _ place ?_ ?_))
      · exact fun subroutine => .refl subroutine.words
      · intro subroutine _
        exact subroutine.words_renamed hrename

end Words

end JackLang
