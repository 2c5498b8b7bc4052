import JackLang.Proofs.Scope

/-! # Static conditions

What the language asks of a derivation beyond the grammar: names are distinct
in their scope and declared where they are used, and the numbers of variables,
arguments and characters are constants of the machine.
-/

set_option autoImplicit false

namespace JackLang

namespace Surroundings

/-- Whether a name is declared in the subroutine or in the class. -/
def Declares (around : Surroundings) (name : String) : Prop :=
  name ∈ namesOf around.ofSubroutine ∨ name ∈ namesOf around.ofClass

instance (around : Surroundings) (name : String) : Decidable (around.Declares name) :=
  inferInstanceAs (Decidable (_ ∨ _))

theorem resolve?_eq_none_iff {around : Surroundings} {name : String} :
    around.resolve? name = none ↔ ¬around.Declares name := by
  rw [Declares, not_or, ← variableOf?_eq_none_iff, ← variableOf?_eq_none_iff, resolve?]
  cases variableOf? around.ofSubroutine name <;> simp

theorem Declares.exists_resolve? {around : Surroundings} {name : String}
    (h : around.Declares name) : ∃ found, around.resolve? name = some found := by
  cases hfound : around.resolve? name with
  | some found => exact ⟨found, rfl⟩
  | none => exact absurd h (resolve?_eq_none_iff.mp hfound)

/-- How many arguments a receiver adds to a call: a variable is passed along. -/
def receiverCount (around : Surroundings) (receiver : String) : Nat :=
  if around.Declares receiver then 1 else 0

/-- The class that is called behind a receiver: the type of a variable, or else
the class of the name. -/
def receiverClass (around : Surroundings) (receiver : String) : String :=
  match around.resolve? receiver with
  | some found => found.type
  | none => receiver

end Surroundings

/-- A call behind a receiver in one form: a receiver that is no variable loads
nothing and counts for nothing. -/
theorem memberCallCode_eq (around : Surroundings) (receiver name : String) (count : Nat)
    (arguments : List Instruction) :
    memberCallCode around receiver name count arguments =
      around.load receiver ++ arguments ++
        [.call (around.receiverClass receiver ++ "." ++ name)
          (around.receiverCount receiver + count)] := by
  by_cases hdeclared : around.Declares receiver
  · obtain ⟨found, hfound⟩ := hdeclared.exists_resolve?
    simp [memberCallCode, Surroundings.load, Surroundings.withVariable,
      Surroundings.receiverClass, Surroundings.receiverCount, hdeclared, hfound, Nat.add_comm]
  · have hnone := Surroundings.resolve?_eq_none_iff.mpr hdeclared
    simp [memberCallCode, Surroundings.load, Surroundings.withVariable,
      Surroundings.receiverClass, Surroundings.receiverCount, hdeclared, hnone]

mutual

def Expression.Permitted (around : Surroundings) : Expression → Prop
  | .single term => term.Permitted around
  | .operate first _ last => first.Permitted around ∧ last.Permitted around

def Term.Permitted (around : Surroundings) : Term → Prop
  | .integer _ => True
  | .string content =>
      content.toList.length ≤ maxConstant ∧ ∀ c ∈ content.toList, c.toNat ≤ maxConstant
  | .trueConstant => True
  | .falseConstant => True
  | .nullConstant => True
  | .thisConstant => True
  | .parenthesized inner => inner.Permitted around
  | .unary _ operand => operand.Permitted around
  | .name name => around.Declares name
  | .element array index => around.Declares array ∧ index.Permitted around
  | .ownCall _ arguments => 1 + arguments.count ≤ maxConstant ∧ arguments.Permitted around
  | .memberCall receiver _ arguments =>
      around.receiverCount receiver + arguments.count ≤ maxConstant ∧
        arguments.Permitted around

def Arguments.Permitted (around : Surroundings) : Arguments → Prop
  | .none => True
  | .some list => list.Permitted around

def ArgumentList.Permitted (around : Surroundings) : ArgumentList → Prop
  | .single argument => argument.Permitted around
  | .append list last => list.Permitted around ∧ last.Permitted around

end

def Call.Permitted (around : Surroundings) : Call → Prop
  | .own name arguments => (Term.ownCall name arguments).Permitted around
  | .member receiver name arguments =>
      (Term.memberCall receiver name arguments).Permitted around

mutual

def Statement.Permitted (around : Surroundings) : Statement → Prop
  | .assign target value => around.Declares target ∧ value.Permitted around
  | .assignElement array index value =>
      around.Declares array ∧ index.Permitted around ∧ value.Permitted around
  | .conditional condition body => condition.Permitted around ∧ body.Permitted around
  | .alternative condition first second =>
      condition.Permitted around ∧ first.Permitted around ∧ second.Permitted around
  | .loop condition body => condition.Permitted around ∧ body.Permitted around
  | .call call => call.Permitted around
  | .returnNothing => True
  | .returnValue value => value.Permitted around

def Statements.Permitted (around : Surroundings) : Statements → Prop
  | .nil => True
  | .cons first rest => first.Permitted around ∧ rest.Permitted around

end

def Subroutine.ownNames (subroutine : Subroutine) : List String :=
  subroutine.parameters.map Parameter.name ++
    subroutine.locals.flatMap fun group => group.first :: group.others

/-- How many arguments a subroutine takes: a method takes its receiver too. -/
def Subroutine.argumentCount (subroutine : Subroutine) : Nat :=
  (if subroutine.kind = .method then 1 else 0) + subroutine.parameters.length

def Subroutine.localCount (subroutine : Subroutine) : Nat :=
  (subroutine.locals.flatMap fun group => group.first :: group.others).length

/-- The conditions on a subroutine in a class with the given name and
declarations. -/
structure Subroutine.Permitted (className : String) (ofClass : List Declared)
    (subroutine : Subroutine) : Prop where
  distinct : subroutine.ownNames.Nodup
  arguments : subroutine.argumentCount ≤ maxConstant
  locals : subroutine.localCount ≤ maxConstant
  body : subroutine.body.Permitted ⟨className, ofClass, subroutine.declared className⟩

structure ClassUnit.Permitted (unit : ClassUnit) : Prop where
  distinct : (namesOf unit.declared).Nodup
  statics : countOf .static unit.declared ≤ maxConstant
  fields : countOf .field unit.declared ≤ maxConstant
  subroutines : ∀ subroutine ∈ unit.subroutines, subroutine.Permitted unit.name unit.declared

end JackLang
