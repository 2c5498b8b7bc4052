import JackLang.Token.Basic
import JackLang.Vm.Instruction
import Std.Data.HashMap

/-! # Variables in scope

A class declares static and field variables, a subroutine its arguments and
locals. A variable is numbered by its place among the variables of its kind
in its scope, and a name of the subroutine hides the same name of the class.
-/

set_option autoImplicit false

namespace JackLang

inductive VariableKind where
  | static | field | argument | «local»
deriving DecidableEq, Repr

namespace VariableKind

def text : VariableKind → String
  | .static => "static"
  | .field => "field"
  | .argument => "argument"
  | .local => "local"

def segment : VariableKind → Segment
  | .static => .static
  | .field => .this
  | .argument => .argument
  | .local => .local

def isClassLevel : VariableKind → Bool
  | .static => true
  | .field => true
  | .argument => false
  | .local => false

end VariableKind

/-- A declared variable: the type it was declared with, its kind, and its place
among the variables of its kind. -/
structure Variable where
  type : String
  kind : VariableKind
  index : Nat
deriving DecidableEq, Repr

def Variable.segment (declared : Variable) : Segment :=
  declared.kind.segment

abbrev Names := Std.HashMap String Variable

/-- The variables of the class and of the current subroutine, and how many
there are of each kind. -/
structure Scope where
  ofClass : Names
  ofSubroutine : Names
  statics : Nat
  fields : Nat
  arguments : Nat
  locals : Nat

inductive DeclarationError where
  | duplicate
  | tooMany
deriving DecidableEq, Repr

namespace Scope

def empty : Scope := ⟨∅, ∅, 0, 0, 0, 0⟩

/-- Leaves the scope of a subroutine: its arguments and locals are forgotten. -/
def startSubroutine (scope : Scope) : Scope :=
  { scope with ofSubroutine := ∅, arguments := 0, locals := 0 }

/-- The names among which a variable of the kind has to be new. -/
def names (scope : Scope) (kind : VariableKind) : Names :=
  if kind.isClassLevel then scope.ofClass else scope.ofSubroutine

def count (scope : Scope) : VariableKind → Nat
  | .static => scope.statics
  | .field => scope.fields
  | .argument => scope.arguments
  | .local => scope.locals

def insert (scope : Scope) (name type : String) (kind : VariableKind) : Scope :=
  match kind with
  | .static =>
      { scope with
        ofClass := scope.ofClass.insert name ⟨type, .static, scope.statics⟩
        statics := scope.statics + 1 }
  | .field =>
      { scope with
        ofClass := scope.ofClass.insert name ⟨type, .field, scope.fields⟩
        fields := scope.fields + 1 }
  | .argument =>
      { scope with
        ofSubroutine := scope.ofSubroutine.insert name ⟨type, .argument, scope.arguments⟩
        arguments := scope.arguments + 1 }
  | .local =>
      { scope with
        ofSubroutine := scope.ofSubroutine.insert name ⟨type, .local, scope.locals⟩
        locals := scope.locals + 1 }

/-- Declares a variable, or leaves the scope as it is and tells why. A name can
be declared once in its scope, and there are at most `maxConstant` variables of
a kind, so that their number is itself a constant. -/
def declare (scope : Scope) (name type : String) (kind : VariableKind) :
    Scope × Option DeclarationError :=
  if (scope.names kind).contains name then (scope, some .duplicate)
  else if scope.count kind < maxConstant then (scope.insert name type kind, none)
  else (scope, some .tooMany)

def lookup? (scope : Scope) (name : String) : Option Variable :=
  scope.ofSubroutine[name]?.or scope.ofClass[name]?

def kindOf? (scope : Scope) (name : String) : Option VariableKind :=
  (scope.lookup? name).map Variable.kind

def typeOf? (scope : Scope) (name : String) : Option String :=
  (scope.lookup? name).map Variable.type

def indexOf? (scope : Scope) (name : String) : Option Nat :=
  (scope.lookup? name).map Variable.index

end Scope

end JackLang
