import JackLang.Proofs.Compilation.Permitted
import JackLang.Proofs.Vm.Machine

/-! # What a unit means

Values are words. Operators take their operands from left to right and have no
precedence; an array and a receiver are looked up before the index and the
arguments. A condition holds unless it is zero, but a loop goes on only while
all bits of its condition are set.
-/

set_option autoImplicit false

namespace JackLang

/-- The values of a subroutine's own variables, and the object it works on. -/
structure Frame where
  values : String → Value
  object : Value

namespace Frame

/-- The value that a name stands for. Fields are in the heap, one after the other. -/
def load (frame : Frame) (around : Surroundings) (name : String) (memory : Memory) : Value :=
  if name ∈ namesOf around.ofSubroutine then frame.values name
  else
    match variableOf? around.ofClass name with
    | some ⟨_, .static, index⟩ => memory.statics index
    | some ⟨_, .field, index⟩ => memory.heap (frame.object + BitVec.ofNat 16 index)
    | _ => 0

/-- Gives a value to the variable that a name stands for. -/
def store (frame : Frame) (around : Surroundings) (name : String) (value : Value)
    (memory : Memory) : Frame × Memory :=
  if name ∈ namesOf around.ofSubroutine then
    ({ frame with values := Function.update frame.values name value }, memory)
  else
    match variableOf? around.ofClass name with
    | some ⟨_, .static, index⟩ =>
        (frame, { memory with statics := Function.update memory.statics index value })
    | some ⟨_, .field, index⟩ =>
        (frame, memory.put (frame.object + BitVec.ofNat 16 index) value)
    | _ => (frame, memory)

/-- What a receiver adds to the arguments of a call: a variable its value, and the
name of a class nothing. -/
def receiver (frame : Frame) (around : Surroundings) (name : String) (memory : Memory) :
    List Value :=
  if around.Declares name then [frame.load around name memory] else []

end Frame

/-- The result of an operator. Products and quotients are left to subroutines. -/
def BinaryOperator.result (routines : Routines) (operator : BinaryOperator)
    (first last : Value) (memory : Memory) : Value × Memory :=
  match operator with
  | .add => (first + last, memory)
  | .sub => (first - last, memory)
  | .mul => routines.result "Math.multiply" [first, last] memory
  | .div => routines.result "Math.divide" [first, last] memory
  | .and => (first &&& last, memory)
  | .or => (first ||| last, memory)
  | .lt => (flag (first.toInt < last.toInt), memory)
  | .gt => (flag (last.toInt < first.toInt), memory)
  | .eq => (flag (first = last), memory)

def UnaryOperator.result : UnaryOperator → Value → Value
  | .neg, operand => -operand
  | .not, operand => ~~~operand

/-- Appends characters to a string one after the other. -/
def appendResult (routines : Routines) (characters : List Char) (built : Value × Memory) :
    Value × Memory :=
  characters.foldl
    (fun built c =>
      routines.result "String.appendChar" [built.1, BitVec.ofNat 16 c.toNat] built.2)
    built

/-- A new string of the given characters. -/
def stringResult (routines : Routines) (content : String) (memory : Memory) : Value × Memory :=
  appendResult routines content.toList
    (routines.result "String.new" [BitVec.ofNat 16 content.toList.length] memory)

section Operands

variable (routines : Routines) (around : Surroundings) (frame : Frame)

mutual

/-- The value of an expression, and the memory behind its evaluation. -/
def Expression.value : Expression → Memory → Value × Memory
  | .single term, memory => term.value memory
  | .operate first operator last, memory =>
      let before := first.value memory
      let behind := last.value before.2
      operator.result routines before.1 behind.1 behind.2

def Term.value : Term → Memory → Value × Memory
  | .integer digits, memory => (BitVec.ofNat 16 (decimalValue digits.toList), memory)
  | .string content, memory => stringResult routines content memory
  | .trueConstant, memory => (flag True, memory)
  | .falseConstant, memory => (flag False, memory)
  | .nullConstant, memory => (0, memory)
  | .thisConstant, memory => (frame.object, memory)
  | .parenthesized inner, memory => inner.value memory
  | .unary operator operand, memory =>
      let behind := operand.value memory
      (operator.result behind.1, behind.2)
  | .name name, memory => (frame.load around name memory, memory)
  | .element array index, memory =>
      let start := frame.load around array memory
      let behind := index.value memory
      (behind.2.heap (start + behind.1), behind.2)
  | .ownCall name arguments, memory =>
      let passed := arguments.values memory
      routines.result (around.className ++ "." ++ name) (frame.object :: passed.1) passed.2
  | .memberCall receiver name arguments, memory =>
      let object := frame.receiver around receiver memory
      let passed := arguments.values memory
      routines.result (around.receiverClass receiver ++ "." ++ name) (object ++ passed.1)
        passed.2

/-- The values of arguments in their order. -/
def Arguments.values : Arguments → Memory → List Value × Memory
  | .none, memory => ([], memory)
  | .some list, memory => list.values memory

def ArgumentList.values : ArgumentList → Memory → List Value × Memory
  | .single argument, memory =>
      let behind := argument.value memory
      ([behind.1], behind.2)
  | .append list last, memory =>
      let before := list.values memory
      let behind := last.value before.2
      (before.1 ++ [behind.1], behind.2)

end

def Call.value : Call → Memory → Value × Memory
  | .own name arguments => (Term.ownCall name arguments).value routines around frame
  | .member receiver name arguments =>
      (Term.memberCall receiver name arguments).value routines around frame

end Operands

/-- How the execution of statements ends. -/
inductive Ending where
  | finished (frame : Frame) (memory : Memory)
  | returned (value : Value) (frame : Frame) (memory : Memory)

section Execution

variable (routines : Routines) (around : Surroundings)

mutual

/-- Executing a statement comes to an end. -/
inductive Statement.Executes : Statement → Frame → Memory → Ending → Prop
  | assign {target : String} {value : Expression} {frame next : Frame}
      {memory behind left : Memory} {result : Value}
      (hvalue : value.value routines around frame memory = (result, behind))
      (hstore : frame.store around target result behind = (next, left)) :
      Statement.Executes (.assign target value) frame memory (.finished next left)
  | assignElement {array : String} {index value : Expression} {frame : Frame}
      {memory between behind : Memory} {place result : Value}
      (hindex : index.value routines around frame memory = (place, between))
      (hvalue : value.value routines around frame between = (result, behind)) :
      Statement.Executes (.assignElement array index value) frame memory
        (.finished frame (behind.put (frame.load around array memory + place) result))
  | taken {condition : Expression} {body : Statements} {frame : Frame}
      {memory behind : Memory} {test : Value} {ending : Ending}
      (hcondition : condition.value routines around frame memory = (test, behind))
      (htest : test ≠ 0) (hbody : Statements.Executes body frame behind ending) :
      Statement.Executes (.conditional condition body) frame memory ending
  | skipped {condition : Expression} {body : Statements} {frame : Frame}
      {memory behind : Memory}
      (hcondition : condition.value routines around frame memory = (0, behind)) :
      Statement.Executes (.conditional condition body) frame memory (.finished frame behind)
  | first {condition : Expression} {first second : Statements} {frame : Frame}
      {memory behind : Memory} {test : Value} {ending : Ending}
      (hcondition : condition.value routines around frame memory = (test, behind))
      (htest : test ≠ 0) (hbody : Statements.Executes first frame behind ending) :
      Statement.Executes (.alternative condition first second) frame memory ending
  | second {condition : Expression} {first second : Statements} {frame : Frame}
      {memory behind : Memory} {ending : Ending}
      (hcondition : condition.value routines around frame memory = (0, behind))
      (hbody : Statements.Executes second frame behind ending) :
      Statement.Executes (.alternative condition first second) frame memory ending
  | again {condition : Expression} {body : Statements} {frame next : Frame}
      {memory behind left : Memory} {ending : Ending}
      (hcondition : condition.value routines around frame memory = (flag True, behind))
      (hbody : Statements.Executes body frame behind (.finished next left))
      (hloop : Statement.Executes (.loop condition body) next left ending) :
      Statement.Executes (.loop condition body) frame memory ending
  | broken {condition : Expression} {body : Statements} {frame next : Frame}
      {memory behind left : Memory} {value : Value}
      (hcondition : condition.value routines around frame memory = (flag True, behind))
      (hbody : Statements.Executes body frame behind (.returned value next left)) :
      Statement.Executes (.loop condition body) frame memory (.returned value next left)
  | done {condition : Expression} {body : Statements} {frame : Frame}
      {memory behind : Memory} {test : Value}
      (hcondition : condition.value routines around frame memory = (test, behind))
      (htest : test ≠ flag True) :
      Statement.Executes (.loop condition body) frame memory (.finished frame behind)
  | call {call : Call} {frame : Frame} {memory behind : Memory} {result : Value}
      (hcall : call.value routines around frame memory = (result, behind)) :
      Statement.Executes (.call call) frame memory (.finished frame behind)
  | returnNothing (frame : Frame) (memory : Memory) :
      Statement.Executes .returnNothing frame memory (.returned 0 frame memory)
  | returnValue {value : Expression} {frame : Frame} {memory behind : Memory} {result : Value}
      (hvalue : value.value routines around frame memory = (result, behind)) :
      Statement.Executes (.returnValue value) frame memory (.returned result frame behind)

inductive Statements.Executes : Statements → Frame → Memory → Ending → Prop
  | nil (frame : Frame) (memory : Memory) :
      Statements.Executes .nil frame memory (.finished frame memory)
  | next {first : Statement} {rest : Statements} {frame next : Frame}
      {memory left : Memory} {ending : Ending}
      (hfirst : Statement.Executes first frame memory (.finished next left))
      (hrest : Statements.Executes rest next left ending) :
      Statements.Executes (.cons first rest) frame memory ending
  | stop {first : Statement} {rest : Statements} {frame next : Frame}
      {memory left : Memory} {value : Value}
      (hfirst : Statement.Executes first frame memory (.returned value next left)) :
      Statements.Executes (.cons first rest) frame memory (.returned value next left)

end

end Execution

end JackLang
