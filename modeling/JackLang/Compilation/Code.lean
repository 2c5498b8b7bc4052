import JackLang.Grammar.Derivation
import JackLang.Scope
import JackLang.Token.Scan
import JackLang.Vm.Label

/-! # The code of a derivation

The program of a unit follows its derivation tree. A name stands for the place
that its declaration gives it, operands come before their operator, and the
conditionals and loops of a unit are numbered in the order in which they start.
-/

set_option autoImplicit false

namespace JackLang

structure Declared where
  kind : VariableKind
  type : String
  name : String
deriving DecidableEq, Repr

/-- The variable that a name stands for among declarations: the first one of the
name, at its place among those of its kind. -/
def variableOf? (declared : List Declared) (name : String) : Option Variable :=
  match declared with
  | [] => none
  | first :: others =>
      if first.name = name then some ⟨first.type, first.kind, 0⟩
      else
        (variableOf? others name).map fun found =>
          if found.kind = first.kind then ⟨found.type, found.kind, found.index + 1⟩
          else found

def TypeName.text : TypeName → String
  | .int => "int"
  | .char => "char"
  | .boolean => "boolean"
  | .named name => name

def ClassVariableKind.variableKind : ClassVariableKind → VariableKind
  | .static => .static
  | .field => .field

def VariableGroup.declared (group : VariableGroup) (kind : VariableKind) : List Declared :=
  (group.first :: group.others).map fun name => ⟨kind, group.type.text, name⟩

def ClassUnit.declared (unit : ClassUnit) : List Declared :=
  unit.declarations.flatMap fun declaration =>
    declaration.group.declared declaration.kind.variableKind

/-- The declarations of a subroutine in their order. A method starts with the
object that it is called on. -/
def Subroutine.declared (className : String) (subroutine : Subroutine) : List Declared :=
  (if subroutine.kind = .method then [⟨.argument, className, "this"⟩] else []) ++
    (subroutine.parameters.map fun parameter =>
      ⟨.argument, parameter.type.text, parameter.name⟩) ++
    subroutine.locals.flatMap fun group => group.declared .local

/-- What the code of a subroutine depends on: the name of the class, and the
declarations of the class and of the subroutine. -/
structure Surroundings where
  className : String
  ofClass : List Declared
  ofSubroutine : List Declared

namespace Surroundings

def resolve? (around : Surroundings) (name : String) : Option Variable :=
  match variableOf? around.ofSubroutine name with
  | some found => some found
  | none => variableOf? around.ofClass name

/-- The code that does something with a variable. A name that is not declared
has none. -/
def withVariable (around : Surroundings) (name : String) (code : Variable → Instruction) :
    List Instruction :=
  match around.resolve? name with
  | some found => [code found]
  | none => []

def load (around : Surroundings) (name : String) : List Instruction :=
  around.withVariable name fun found => .push found.kind.segment found.index

def store (around : Surroundings) (name : String) : List Instruction :=
  around.withVariable name fun found => .pop found.kind.segment found.index

end Surroundings

mutual

def Arguments.count : Arguments → Nat
  | .none => 0
  | .some list => list.count

def ArgumentList.count : ArgumentList → Nat
  | .single _ => 1
  | .append list _ => list.count + 1

end

def charactersCode (content : String) : List Instruction :=
  [.push .constant content.toList.length, .call "String.new" 1] ++
    content.toList.flatMap fun c => [.push .constant c.toNat, .call "String.appendChar" 2]

/-- The call of a subroutine of the class, which is passed the object itself. -/
def ownCallCode (around : Surroundings) (name : String) (count : Nat)
    (arguments : List Instruction) : List Instruction :=
  [.push .pointer 0] ++ arguments ++ [.call (around.className ++ "." ++ name) (count + 1)]

/-- The call of a subroutine behind a receiver. A variable is passed along and
stands for the class that is its type; any other name is that of a class. -/
def memberCallCode (around : Surroundings) (receiver name : String) (count : Nat)
    (arguments : List Instruction) : List Instruction :=
  match around.resolve? receiver with
  | some found =>
      [.push found.kind.segment found.index] ++ arguments ++
        [.call (found.type ++ "." ++ name) (count + 1)]
  | none => arguments ++ [.call (receiver ++ "." ++ name) count]

mutual

def Expression.code (around : Surroundings) : Expression → List Instruction
  | .single term => term.code around
  | .operate first operator last =>
      first.code around ++ last.code around ++ [operator.code]

def Term.code (around : Surroundings) : Term → List Instruction
  | .integer digits => [.push .constant (decimalValue digits.toList)]
  | .string content => charactersCode content
  | .trueConstant => [.push .constant 0, .operate .not]
  | .falseConstant => [.push .constant 0]
  | .nullConstant => [.push .constant 0]
  | .thisConstant => [.push .pointer 0]
  | .parenthesized inner => inner.code around
  | .unary operator operand => operand.code around ++ [operator.code]
  | .name name => around.load name
  | .element array index =>
      around.load array ++ index.code around ++
        [.operate .add, .pop .pointer 1, .push .that 0]
  | .ownCall name arguments =>
      ownCallCode around name arguments.count (arguments.code around)
  | .memberCall receiver name arguments =>
      memberCallCode around receiver name arguments.count (arguments.code around)

def Arguments.code (around : Surroundings) : Arguments → List Instruction
  | .none => []
  | .some list => list.code around

def ArgumentList.code (around : Surroundings) : ArgumentList → List Instruction
  | .single argument => argument.code around
  | .append list last => list.code around ++ last.code around

end

def Call.code (around : Surroundings) : Call → List Instruction
  | .own name arguments => (Term.ownCall name arguments).code around
  | .member receiver name arguments => (Term.memberCall receiver name arguments).code around

mutual

/-- How many conditionals and loops a statement is made of. -/
def Statement.numbers : Statement → Nat
  | .conditional _ body => 1 + body.numbers
  | .alternative _ first second => 1 + first.numbers + second.numbers
  | .loop _ body => 1 + body.numbers
  | .assign _ _ => 0
  | .assignElement _ _ _ => 0
  | .call _ => 0
  | .returnNothing => 0
  | .returnValue _ => 0

def Statements.numbers : Statements → Nat
  | .nil => 0
  | .cons first rest => first.numbers + rest.numbers

end

/-- A conditional with the given number: its branches and what leads to them. -/
def conditionalCode (number : Nat) (condition first second : List Instruction) :
    List Instruction :=
  condition ++
    [.ifGoto (LabelFamily.ifTrue.label number), .goto (LabelFamily.ifFalse.label number),
      .label (LabelFamily.ifTrue.label number)] ++
    first ++
    [.goto (LabelFamily.ifEnd.label number), .label (LabelFamily.ifFalse.label number)] ++
    second ++ [.label (LabelFamily.ifEnd.label number)]

def loopCode (number : Nat) (condition body : List Instruction) : List Instruction :=
  [.label (LabelFamily.whileStart.label number)] ++ condition ++
    [.operate .not, .ifGoto (LabelFamily.whileEnd.label number)] ++ body ++
    [.goto (LabelFamily.whileStart.label number), .label (LabelFamily.whileEnd.label number)]

mutual

/-- The code of a statement whose first conditional or loop has the given number. -/
def Statement.code (around : Surroundings) (number : Nat) : Statement → List Instruction
  | .assign target value => value.code around ++ around.store target
  | .assignElement array index value =>
      around.load array ++ index.code around ++ [.operate .add] ++ value.code around ++
        [.pop .temp 0, .pop .pointer 1, .push .temp 0, .pop .that 0]
  | .conditional condition body =>
      conditionalCode number (condition.code around) (body.code around (number + 1)) []
  | .alternative condition first second =>
      conditionalCode number (condition.code around) (first.code around (number + 1))
        (second.code around (number + 1 + first.numbers))
  | .loop condition body =>
      loopCode number (condition.code around) (body.code around (number + 1))
  | .call call => call.code around ++ [.pop .temp 0]
  | .returnNothing => [.push .constant 0, .return]
  | .returnValue value => value.code around ++ [.return]

def Statements.code (around : Surroundings) (number : Nat) : Statements → List Instruction
  | .nil => []
  | .cons first rest =>
      first.code around number ++ rest.code around (number + first.numbers)

end

/-- What a subroutine of a kind does first. -/
def SubroutineKind.entryCode (fields : Nat) : SubroutineKind → List Instruction
  | .constructor => [.push .constant fields, .call "Memory.alloc" 1, .pop .pointer 0]
  | .function => []
  | .method => [.push .argument 0, .pop .pointer 0]

/-- The code of a subroutine whose first conditional or loop has the given
number. -/
def Subroutine.code (className : String) (ofClass : List Declared) (number : Nat)
    (subroutine : Subroutine) : List Instruction :=
  let ofSubroutine := subroutine.declared className
  .function (className ++ "." ++ subroutine.name)
      (ofSubroutine.countP fun declared => declared.kind = .local) ::
    subroutine.kind.entryCode (ofClass.countP fun declared => declared.kind = .field) ++
    subroutine.body.code ⟨className, ofClass, ofSubroutine⟩ number

def subroutinesCode (className : String) (ofClass : List Declared) (number : Nat) :
    List Subroutine → List Instruction
  | [] => []
  | first :: others =>
      first.code className ofClass number ++
        subroutinesCode className ofClass (number + first.body.numbers) others

def ClassUnit.code (unit : ClassUnit) : List Instruction :=
  subroutinesCode unit.name unit.declared 0 unit.subroutines

end JackLang
