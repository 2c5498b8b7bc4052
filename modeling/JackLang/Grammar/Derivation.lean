import JackLang.Grammar.Rule

/-! # Derivation trees

The derivation tree of a unit shows how the grammar makes up its tokens: a
class of declarations and subroutines, statements, and expressions whose
operators associate to the left and have no precedence. Lists of which every
prefix is one of the same sort, such as operands and arguments, are built at
their ends.
-/

set_option autoImplicit false

namespace JackLang

inductive TypeName where
  | int | char | boolean
  | named (name : String)
deriving DecidableEq, Repr

mutual

inductive Expression where
  | single (term : Term)
  | operate (first : Expression) (operator : BinaryOperator) (last : Term)

inductive Term where
  | integer (digits : String)
  | string (content : String)
  | trueConstant
  | falseConstant
  | nullConstant
  | thisConstant
  | parenthesized (inner : Expression)
  | unary (operator : UnaryOperator) (operand : Term)
  | name (name : String)
  | element (array : String) (index : Expression)
  | ownCall (name : String) (arguments : Arguments)
  | memberCall (receiver name : String) (arguments : Arguments)

inductive Arguments where
  | none
  | some (list : ArgumentList)

inductive ArgumentList where
  | single (argument : Expression)
  | append (list : ArgumentList) (last : Expression)

end

/-- A call that stands as a statement. -/
inductive Call where
  | own (name : String) (arguments : Arguments)
  | member (receiver name : String) (arguments : Arguments)

mutual

inductive Statement where
  | assign (target : String) (value : Expression)
  | assignElement (array : String) (index value : Expression)
  | conditional (condition : Expression) (body : Statements)
  | alternative (condition : Expression) (first second : Statements)
  | loop (condition : Expression) (body : Statements)
  | call (call : Call)
  | returnNothing
  | returnValue (value : Expression)

inductive Statements where
  | nil
  | cons (first : Statement) (rest : Statements)

end

structure VariableGroup where
  type : TypeName
  first : String
  others : List String

/-- Whether variables of a class belong to the class or to its objects. -/
inductive ClassVariableKind where
  | static | field
deriving DecidableEq, Repr

structure ClassVariables where
  kind : ClassVariableKind
  group : VariableGroup

structure Parameter where
  type : TypeName
  name : String

structure Subroutine where
  kind : SubroutineKind
  /-- The type of the result, or `none` for a subroutine without one. -/
  result : Option TypeName
  name : String
  parameters : List Parameter
  locals : List VariableGroup
  body : Statements

structure ClassUnit where
  name : String
  declarations : List ClassVariables
  subroutines : List Subroutine

end JackLang
