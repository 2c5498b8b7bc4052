import JackLang.Proofs.Compilation.Permitted

/-! # The instructions of expressions

The code of an expression is made of few kinds of instructions: constants, operations,
calls, variables that are in scope, the object itself, and what reads an element of an
array. What is to be known of all its instructions is known of these kinds.
-/

set_option autoImplicit false

namespace JackLang

/-- The kinds of instructions that the code of an expression is made of. -/
inductive Instruction.Plain (around : Surroundings) : Instruction → Prop
  | constant (value : Nat) : Plain around (.push .constant value)
  | operate (operation : Operation) : Plain around (.operate operation)
  | call (name : String) (count : Nat) : Plain around (.call name count)
  | load {name : String} {found : Variable} (h : around.resolve? name = some found) :
      Plain around (.push found.kind.segment found.index)
  | object : Plain around (.push .pointer 0)
  | address : Plain around (.pop .pointer 1)
  | element : Plain around (.push .that 0)

def AllPlain (around : Surroundings) (code : List Instruction) : Prop :=
  ∀ instruction ∈ code, instruction.Plain around

section AllPlain

variable {around : Surroundings}

@[simp] theorem allPlain_nil : AllPlain around [] := by
  simp [AllPlain]

@[simp] theorem allPlain_cons (instruction : Instruction) (code : List Instruction) :
    AllPlain around (instruction :: code) ↔
      instruction.Plain around ∧ AllPlain around code := by
  simp [AllPlain]

@[simp] theorem allPlain_append (first second : List Instruction) :
    AllPlain around (first ++ second) ↔ AllPlain around first ∧ AllPlain around second := by
  simp [AllPlain, or_imp, forall_and]

end AllPlain

/-- What holds of the instruction for each variable that a name stands for holds of the
code for the name. -/
theorem Surroundings.forall_mem_withVariable {around : Surroundings} {name : String}
    {code : Variable → Instruction} {P : Instruction → Prop}
    (h : ∀ found, around.resolve? name = some found → P (code found)) :
    ∀ instruction ∈ around.withVariable name code, P instruction := by
  intro instruction hmem
  rw [withVariable] at hmem
  split at hmem
  · rename_i found hfound
    rw [List.mem_singleton.mp hmem]
    exact h found hfound
  · cases hmem

/-- The code of characters appends them one after the other. -/
theorem forall_mem_characters {characters : List Char} {P : Instruction → Prop}
    (hcode : ∀ c ∈ characters, P (.push .constant c.toNat))
    (happend : P (.call "String.appendChar" 2)) :
    ∀ instruction ∈ characters.flatMap fun c =>
      [.push .constant c.toNat, .call "String.appendChar" 2], P instruction := by
  intro instruction hmem
  obtain ⟨c, hc, hinstruction⟩ := List.mem_flatMap.mp hmem
  rcases List.mem_cons.mp hinstruction with rfl | hlast
  · exact hcode c hc
  · rw [List.mem_singleton.mp hlast]
    exact happend

section Code

variable (around : Surroundings)

theorem plain_load (name : String) : AllPlain around (around.load name) :=
  Surroundings.forall_mem_withVariable fun _ hfound => .load hfound

theorem plain_charactersCode (content : String) : AllPlain around (charactersCode content) := by
  have hcharacters : AllPlain around (content.toList.flatMap fun c =>
      [.push .constant c.toNat, .call "String.appendChar" 2]) :=
    forall_mem_characters (fun c _ => .constant c.toNat) (.call _ 2)
  simp [charactersCode, hcharacters, Instruction.Plain.constant, Instruction.Plain.call]

theorem BinaryOperator.plain_code (operator : BinaryOperator) : operator.code.Plain around := by
  cases operator <;> constructor

theorem UnaryOperator.plain_code (operator : UnaryOperator) : operator.code.Plain around := by
  cases operator <;> constructor

mutual

theorem Expression.plain (expression : Expression) :
    AllPlain around (expression.code around) := by
  match expression with
  | .single term => exact term.plain
  | .operate first operator last =>
      simp [Expression.code, first.plain, last.plain, operator.plain_code]

theorem Term.plain (term : Term) : AllPlain around (term.code around) := by
  match term with
  | .integer _ | .falseConstant | .nullConstant =>
      simp [Term.code, Instruction.Plain.constant]
  | .trueConstant => simp [Term.code, Instruction.Plain.constant, Instruction.Plain.operate]
  | .thisConstant => simp [Term.code, Instruction.Plain.object]
  | .string content => exact plain_charactersCode around content
  | .parenthesized inner => exact inner.plain
  | .unary operator operand => simp [Term.code, operand.plain, operator.plain_code]
  | .name name => exact plain_load around name
  | .element array index =>
      simp [Term.code, plain_load, index.plain, Instruction.Plain.operate,
        Instruction.Plain.address, Instruction.Plain.element]
  | .ownCall name arguments =>
      simp [Term.code, ownCallCode, arguments.plain, Instruction.Plain.object,
        Instruction.Plain.call]
  | .memberCall receiver name arguments =>
      simp [Term.code, memberCallCode_eq, plain_load, arguments.plain, Instruction.Plain.call]

theorem Arguments.plain (arguments : Arguments) : AllPlain around (arguments.code around) := by
  match arguments with
  | .none => exact allPlain_nil
  | .some list => exact list.plain

theorem ArgumentList.plain (list : ArgumentList) : AllPlain around (list.code around) := by
  match list with
  | .single argument => exact argument.plain
  | .append before last => simp [ArgumentList.code, before.plain, last.plain]

end

theorem Call.plain (call : Call) : AllPlain around (call.code around) := by
  cases call with
  | own name arguments => exact Term.plain around (.ownCall name arguments)
  | member receiver name arguments => exact Term.plain around (.memberCall receiver name arguments)

end Code

end JackLang
