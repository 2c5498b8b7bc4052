import JackLang.Proofs.Compilation.Permitted
import JackLang.Proofs.Reading.Declarations

/-! # Faults

What is wrong with a derivation beyond its grammar, fault by fault: each one is
found at a token, which is given by its number among the tokens of the unit.
Faults are listed in the order of their tokens. A derivation without faults is
one that is permitted.
-/

set_option autoImplicit false

namespace JackLang

/-- What a static error is about, apart from the token it points at. -/
inductive Fault where
  | undeclared
  | redeclared
  | tooManyVariables (kind : VariableKind)
  | tooManyArguments
  | integerOutOfRange
  | stringTooLong
  | noCharacterCode (c : Char)
deriving DecidableEq, Repr

def Fault.error (token : Token) : Fault → StaticError
  | .undeclared => .undeclared token
  | .redeclared => .redeclared token
  | .tooManyVariables kind => .tooManyVariables kind token
  | .tooManyArguments => .tooManyArguments token
  | .integerOutOfRange => .integerOutOfRange token
  | .stringTooLong => .stringTooLong token
  | .noCharacterCode c => .noCharacterCode c token

/-- Visits things one after the other, each behind as many tokens as the ones in
front of it take. -/
def visitAll {α β : Type} (length : α → Nat) (visit : Nat → α → List β) (start : Nat) :
    List α → List β
  | [] => []
  | first :: others =>
      visit start first ++ visitAll length visit (start + length first) others

def Surroundings.nameFaults (around : Surroundings) (number : Nat) (name : String) :
    List (Nat × Fault) :=
  if around.Declares name then [] else [(number, .undeclared)]

def stringFaults (number : Nat) (content : String) : List (Nat × Fault) :=
  (if maxConstant < content.toList.length then [(number, .stringTooLong)] else []) ++
    (content.toList.find? fun c => maxConstant < c.toNat).toList.map fun c =>
      (number, .noCharacterCode c)

/-- An argument behind the given number of others. -/
def argumentFaults (number others : Nat) : List (Nat × Fault) :=
  if others = maxConstant then [(number, .tooManyArguments)] else []

mutual

def Expression.faults (around : Surroundings) (start : Nat) : Expression → List (Nat × Fault)
  | .single term => term.faults around start
  | .operate first _ last =>
      first.faults around start ++ last.faults around (start + first.words.length + 1)

def Term.faults (around : Surroundings) (start : Nat) : Term → List (Nat × Fault)
  | .integer _ => []
  | .string content => stringFaults start content
  | .trueConstant => []
  | .falseConstant => []
  | .nullConstant => []
  | .thisConstant => []
  | .parenthesized inner => inner.faults around (start + 1)
  | .unary _ operand => operand.faults around (start + 1)
  | .name name => around.nameFaults start name
  | .element array index => around.nameFaults start array ++ index.faults around (start + 2)
  | .ownCall _ arguments => arguments.faults around 1 (start + 2)
  | .memberCall receiver _ arguments =>
      arguments.faults around (around.receiverCount receiver) (start + 4)

/-- The faults of arguments that are passed along with the given number of receivers. -/
def Arguments.faults (around : Surroundings) (receivers start : Nat) :
    Arguments → List (Nat × Fault)
  | .none => []
  | .some list => list.faults around receivers start

def ArgumentList.faults (around : Surroundings) (receivers start : Nat) :
    ArgumentList → List (Nat × Fault)
  | .single argument => argumentFaults start receivers ++ argument.faults around start
  | .append list last =>
      list.faults around receivers start ++
        argumentFaults (start + list.words.length + 1) (receivers + list.count) ++
        last.faults around (start + list.words.length + 1)

end

def Call.faults (around : Surroundings) (start : Nat) : Call → List (Nat × Fault)
  | .own name arguments => (Term.ownCall name arguments).faults around start
  | .member receiver name arguments => (Term.memberCall receiver name arguments).faults around start

mutual

def Statement.faults (around : Surroundings) (start : Nat) : Statement → List (Nat × Fault)
  | .assign target value =>
      around.nameFaults (start + 1) target ++ value.faults around (start + 3)
  | .assignElement array index value =>
      around.nameFaults (start + 1) array ++ index.faults around (start + 3) ++
        value.faults around (start + 3 + index.words.length + 2)
  | .conditional condition body =>
      condition.faults around (start + 2) ++
        body.faults around (start + 2 + condition.words.length + 2)
  | .alternative condition first second =>
      condition.faults around (start + 2) ++
        first.faults around (start + 2 + condition.words.length + 2) ++
        second.faults around
          (start + 2 + condition.words.length + 2 + first.words.length + 3)
  | .loop condition body =>
      condition.faults around (start + 2) ++
        body.faults around (start + 2 + condition.words.length + 2)
  | .call call => call.faults around (start + 1)
  | .returnNothing => []
  | .returnValue value => value.faults around (start + 1)

def Statements.faults (around : Surroundings) (start : Nat) : Statements → List (Nat × Fault)
  | .nil => []
  | .cons first rest =>
      first.faults around start ++ rest.faults around (start + first.words.length)

end

/-- The faults of declarations behind others of their scope, each one with the number
of its name. -/
def declarationFaults (before : List Declared) : List (Nat × Declared) → List (Nat × Fault)
  | [] => []
  | (number, one) :: others =>
      (if one.name ∈ namesOf before then [(number, .redeclared)] else []) ++
        (if countOf one.kind before = maxConstant then [(number, .tooManyVariables one.kind)]
          else []) ++
        declarationFaults (before ++ [one]) others

/-- The declarations of a group from its type on. -/
def VariableGroup.numbered (kind : VariableKind) (start : Nat) (group : VariableGroup) :
    List (Nat × Declared) :=
  (start + 1, ⟨kind, group.type.text, group.first⟩) ::
    visitAll (fun _ => 2)
      (fun number name => [(number + 1, ⟨kind, group.type.text, name⟩)])
      (start + 2) group.others

def ClassUnit.numberedDeclarations (unit : ClassUnit) : List (Nat × Declared) :=
  visitAll (fun declaration => declaration.words.length)
    (fun start declaration =>
      declaration.group.numbered declaration.kind.variableKind (start + 1))
    3 unit.declarations

def Subroutine.localStart (subroutine : Subroutine) (start : Nat) : Nat :=
  start + 4 + (parameterWords subroutine.parameters).length + 2

def Subroutine.bodyStart (subroutine : Subroutine) (start : Nat) : Nat :=
  subroutine.localStart start + (localWords subroutine.locals).length

def Parameter.declared (parameter : Parameter) : Declared :=
  ⟨.argument, parameter.type.text, parameter.name⟩

def numberedParameters (start : Nat) : List Parameter → List (Nat × Declared)
  | [] => []
  | first :: others =>
      (start + 1, first.declared) ::
        visitAll (fun _ => 3) (fun number parameter => [(number + 2, parameter.declared)])
          (start + 2) others

def Subroutine.numberedDeclarations (start : Nat) (subroutine : Subroutine) :
    List (Nat × Declared) :=
  numberedParameters (start + 4) subroutine.parameters ++
    visitAll (fun group => group.words.length + 1)
      (fun number group => group.numbered .local (number + 1))
      (subroutine.localStart start) subroutine.locals

/-- The receiver of a method, which is not declared in words. -/
def SubroutineKind.receiver (className : String) (kind : SubroutineKind) : List Declared :=
  if kind = .method then [⟨.argument, className, "this"⟩] else []

def Subroutine.faults (className : String) (ofClass : List Declared) (start : Nat)
    (subroutine : Subroutine) : List (Nat × Fault) :=
  declarationFaults (subroutine.kind.receiver className)
      (subroutine.numberedDeclarations start) ++
    subroutine.body.faults ⟨className, ofClass, subroutine.declared className⟩
      (subroutine.bodyStart start)

def ClassUnit.faults (unit : ClassUnit) : List (Nat × Fault) :=
  declarationFaults [] unit.numberedDeclarations ++
    visitAll (fun subroutine => subroutine.words.length)
      (Subroutine.faults unit.name unit.declared)
      (3 + (unit.declarations.flatMap ClassVariables.words).length) unit.subroutines

theorem visitAll_eq_nil_iff {α β : Type} {length : α → Nat} {visit : Nat → α → List β}
    {permitted : α → Prop} {things : List α}
    (h : ∀ one ∈ things, ∀ number, visit number one = [] ↔ permitted one) (start : Nat) :
    visitAll length visit start things = [] ↔ ∀ one ∈ things, permitted one := by
  induction things generalizing start with
  | nil => simp [visitAll]
  | cons first others ih =>
      have hothers := ih (fun one hmem => h one (.tail first hmem)) (start + length first)
      rw [visitAll, List.append_eq_nil_iff, h first (.head others), hothers,
        List.forall_mem_cons]

theorem map_visitAll {α β γ : Type} {length : α → Nat} {visit : Nat → α → List β} {f : β → γ}
    {g : α → List γ} (h : ∀ number one, (visit number one).map f = g one) (start : Nat)
    (things : List α) : (visitAll length visit start things).map f = things.flatMap g := by
  induction things generalizing start with
  | nil => rfl
  | cons first others ih => simp [visitAll, h, ih]

theorem map_snd_visitAll {α β : Type} (length : α → Nat) (ahead : Nat) (f : α → β)
    (start : Nat) (things : List α) :
    (visitAll length (fun number one => [(number + ahead, f one)]) start things).map Prod.snd =
      things.map f := by
  rw [map_visitAll (g := fun one => [f one]) (fun _ _ => rfl), List.map_eq_flatMap]

section Permitted

variable {around : Surroundings}

theorem Surroundings.nameFaults_eq_nil_iff {number : Nat} {name : String} :
    around.nameFaults number name = [] ↔ around.Declares name := by
  simp [nameFaults]

theorem stringFaults_eq_nil_iff {number : Nat} {content : String} :
    stringFaults number content = [] ↔
      content.toList.length ≤ maxConstant ∧ ∀ c ∈ content.toList, c.toNat ≤ maxConstant := by
  simp [stringFaults]

theorem Surroundings.receiverCount_le (around : Surroundings) (receiver : String) :
    around.receiverCount receiver ≤ 1 := by
  unfold receiverCount
  split <;> decide

mutual

theorem Expression.faults_eq_nil_iff (expression : Expression) (start : Nat) :
    expression.faults around start = [] ↔ expression.Permitted around := by
  match expression with
  | .single term => exact term.faults_eq_nil_iff start
  | .operate first operator last =>
      simp [Expression.faults, Expression.Permitted, first.faults_eq_nil_iff,
        last.faults_eq_nil_iff]

theorem Term.faults_eq_nil_iff (term : Term) (start : Nat) :
    term.faults around start = [] ↔ term.Permitted around := by
  match term with
  | .integer _ | .trueConstant | .falseConstant | .nullConstant | .thisConstant =>
      simp [Term.faults, Term.Permitted]
  | .string content => exact stringFaults_eq_nil_iff
  | .parenthesized inner => exact inner.faults_eq_nil_iff (start + 1)
  | .unary operator operand => exact operand.faults_eq_nil_iff (start + 1)
  | .name name => exact Surroundings.nameFaults_eq_nil_iff
  | .element array index =>
      simp [Term.faults, Term.Permitted, Surroundings.nameFaults_eq_nil_iff,
        index.faults_eq_nil_iff]
  | .ownCall name arguments => exact arguments.faults_eq_nil_iff (Nat.le_refl 1) (start + 2)
  | .memberCall receiver name arguments =>
      exact arguments.faults_eq_nil_iff (around.receiverCount_le receiver) (start + 4)

theorem Arguments.faults_eq_nil_iff (arguments : Arguments) {receivers : Nat}
    (hreceivers : receivers ≤ 1) (start : Nat) :
    arguments.faults around receivers start = [] ↔
      receivers + arguments.count ≤ maxConstant ∧ arguments.Permitted around := by
  match arguments with
  | .none =>
      have hcount : receivers + 0 ≤ maxConstant := Nat.le_trans hreceivers (by decide)
      exact ⟨fun _ => ⟨hcount, trivial⟩, fun _ => rfl⟩
  | .some list => exact list.faults_eq_nil_iff hreceivers start

/-- The last argument that is one too many has no other one in front of it that is. -/
theorem ArgumentList.faults_eq_nil_iff (list : ArgumentList) {receivers : Nat}
    (hreceivers : receivers ≤ 1) (start : Nat) :
    list.faults around receivers start = [] ↔
      receivers + list.count ≤ maxConstant ∧ list.Permitted around := by
  have hmax : 2 ≤ maxConstant := by decide
  match list with
  | .single argument =>
      simp only [ArgumentList.faults, ArgumentList.count, ArgumentList.Permitted,
        argumentFaults, List.append_eq_nil_iff, ite_eq_right_iff, reduceCtorEq, imp_false,
        argument.faults_eq_nil_iff]
      exact and_congr_left' (by omega)
  | .append before last =>
      simp only [ArgumentList.faults, ArgumentList.count, ArgumentList.Permitted,
        argumentFaults, List.append_eq_nil_iff, ite_eq_right_iff, reduceCtorEq, imp_false,
        before.faults_eq_nil_iff hreceivers, last.faults_eq_nil_iff]
      constructor
      · rintro ⟨⟨⟨hbefore, hpermitted⟩, hcount⟩, hlast⟩
        exact ⟨by omega, hpermitted, hlast⟩
      · rintro ⟨hcount, hpermitted, hlast⟩
        exact ⟨⟨⟨by omega, hpermitted⟩, by omega⟩, hlast⟩

end

theorem Call.faults_eq_nil_iff (call : Call) (start : Nat) :
    call.faults around start = [] ↔ call.Permitted around := by
  cases call with
  | own name arguments => exact Term.faults_eq_nil_iff (.ownCall name arguments) start
  | member receiver name arguments =>
      exact Term.faults_eq_nil_iff (.memberCall receiver name arguments) start

mutual

theorem Statement.faults_eq_nil_iff (statement : Statement) (start : Nat) :
    statement.faults around start = [] ↔ statement.Permitted around := by
  match statement with
  | .assign target value =>
      simp [Statement.faults, Statement.Permitted, Surroundings.nameFaults_eq_nil_iff,
        value.faults_eq_nil_iff]
  | .assignElement array index value =>
      simp [Statement.faults, Statement.Permitted, Surroundings.nameFaults_eq_nil_iff,
        index.faults_eq_nil_iff, value.faults_eq_nil_iff]
  | .conditional condition body =>
      simp [Statement.faults, Statement.Permitted, condition.faults_eq_nil_iff,
        body.faults_eq_nil_iff]
  | .alternative condition first second =>
      simp [Statement.faults, Statement.Permitted, condition.faults_eq_nil_iff,
        first.faults_eq_nil_iff, second.faults_eq_nil_iff]
  | .loop condition body =>
      simp [Statement.faults, Statement.Permitted, condition.faults_eq_nil_iff,
        body.faults_eq_nil_iff]
  | .call call => exact call.faults_eq_nil_iff (start + 1)
  | .returnNothing => simp [Statement.faults, Statement.Permitted]
  | .returnValue value => exact value.faults_eq_nil_iff (start + 1)

theorem Statements.faults_eq_nil_iff (statements : Statements) (start : Nat) :
    statements.faults around start = [] ↔ statements.Permitted around := by
  match statements with
  | .nil => simp [Statements.faults, Statements.Permitted]
  | .cons first rest =>
      simp [Statements.faults, Statements.Permitted, first.faults_eq_nil_iff,
        rest.faults_eq_nil_iff]

end

theorem declarationFaults_eq_nil_iff {before : List Declared} (h : Allowed before)
    (numbered : List (Nat × Declared)) :
    declarationFaults before numbered = [] ↔ Allowed (before ++ numbered.map Prod.snd) := by
  induction numbered generalizing before with
  | nil => simpa [declarationFaults] using h
  | cons first others ih =>
      obtain ⟨number, one⟩ := first
      have hcount := h.counts one.kind
      have happend : before ++ ((number, one) :: others).map Prod.snd =
          before ++ [one] ++ others.map Prod.snd := by simp
      simp only [declarationFaults, List.append_eq_nil_iff, ite_eq_right_iff, reduceCtorEq,
        imp_false, happend]
      constructor
      · rintro ⟨⟨hnew, hne⟩, hothers⟩
        have hone := allowed_append_singleton.mpr ⟨h, hnew, Nat.lt_of_le_of_ne hcount hne⟩
        exact (ih hone).mp hothers
      · intro hwhole
        have hone := hwhole.of_append
        obtain ⟨_, hnew, hless⟩ := allowed_append_singleton.mp hone
        exact ⟨⟨hnew, Nat.ne_of_lt hless⟩, (ih hone).mpr hwhole⟩

end Permitted

end JackLang
