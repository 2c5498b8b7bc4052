import JackLang.Proofs.Meaning

/-! # The code of an expression computes its value

Run by the machine, the code of an expression puts the value on top of the stack
and leaves the memory that the evaluation leaves. The frame stays as it is;
pointer 1 and the `temp` segment may change.
-/

set_option autoImplicit false

namespace JackLang

/-- The declarations of the class and those of the subroutine are of their kinds. -/
structure Surroundings.Levelled (around : Surroundings) : Prop where
  ofClass : ∀ one ∈ around.ofClass, one.kind.isClassLevel = true
  ofSubroutine : ∀ one ∈ around.ofSubroutine, one.kind.isClassLevel = false

/-- A declared name stands for a variable of the subroutine or else for one of the
class. -/
theorem Surroundings.Declares.place {around : Surroundings} (haround : around.Levelled)
    {name : String} (h : around.Declares name) :
    ∃ found, around.resolve? name = some found ∧
      (name ∈ namesOf around.ofSubroutine ∧ variableOf? around.ofSubroutine name = some found ∧
          found.kind.isClassLevel = false ∨
        name ∉ namesOf around.ofSubroutine ∧ variableOf? around.ofClass name = some found ∧
          found.kind.isClassLevel = true) := by
  by_cases hown : name ∈ namesOf around.ofSubroutine
  · obtain ⟨found, hfound⟩ := exists_variableOf? hown
    obtain ⟨one, hmem, hkind⟩ := exists_kind_of_variableOf? hfound
    refine ⟨found, by simp [resolve?, hfound], .inl ⟨hown, hfound, ?_⟩⟩
    rw [← hkind]
    exact haround.ofSubroutine one hmem
  · obtain ⟨found, hfound⟩ := exists_variableOf? (h.resolve_left hown)
    obtain ⟨one, hmem, hkind⟩ := exists_kind_of_variableOf? hfound
    refine ⟨found, ?_, .inr ⟨hown, hfound, ?_⟩⟩
    · simp [resolve?, hfound, variableOf?_eq_none_iff.mpr hown]
    · rw [← hkind]
      exact haround.ofClass one hmem

/-- The value of a variable of the subroutine, which is an argument or a local. -/
def Machine.own (machine : Machine) : Option Variable → Value
  | some ⟨_, .argument, index⟩ => machine.arguments index
  | some ⟨_, .local, index⟩ => machine.locals index
  | _ => 0

/-- What the machine shows of the frame. -/
def Machine.frame (machine : Machine) (around : Surroundings) : Frame where
  values name := machine.own (variableOf? around.ofSubroutine name)
  object := machine.object

/-- Run in the frame of a machine, code leads from a stack and a memory to others,
whatever pointer 1 and the `temp` segment hold, and keeps the rest of the frame. -/
def Computes (routines : Routines) (base : Machine) (code : List Instruction)
    (stack : List Value) (memory : Memory) (last : List Value) (left : Memory) : Prop :=
  ∀ array temp, ∃ other more,
    Machine.run? routines
        { base with stack := stack, array := array, temp := temp, memory := memory } code =
      some { base with stack := last, array := other, temp := more, memory := left }

section Code

variable {routines : Routines} {base : Machine} {around : Surroundings}
variable {stack : List Value} {memory : Memory}

theorem computes_nil : Computes routines base [] stack memory stack memory :=
  fun array temp => ⟨array, temp, rfl⟩

theorem Computes.append {first second : List Instruction} {middle last : List Value}
    {between left : Memory} (h : Computes routines base first stack memory middle between)
    (hmore : Computes routines base second middle between last left) :
    Computes routines base (first ++ second) stack memory last left := by
  intro array temp
  obtain ⟨other, more, hfirst⟩ := h array temp
  obtain ⟨another, still, hsecond⟩ := hmore other more
  refine ⟨another, still, ?_⟩
  rw [Machine.run?_append, hfirst, Option.bind_some, hsecond]

/-- A call finds its arguments on the stack and puts its result there. -/
theorem computes_call (name : String) (passed : List Value) {count : Nat}
    (hcount : passed.length = count) :
    Computes routines base [.call name count] (passed.reverse ++ stack) memory
      ((routines.result name passed memory).1 :: stack)
      (routines.result name passed memory).2 := by
  intro array temp
  have hlength : passed.reverse.length = count := by rw [List.length_reverse, hcount]
  have hle : count ≤ (passed.reverse ++ stack).length := by
    rw [List.length_append, hlength]
    exact Nat.le_add_right ..
  refine ⟨array, routines.temp name passed memory temp, ?_⟩
  rw [Machine.run?, Machine.execute?, if_pos hle, Machine.call, ← hlength, List.take_left,
    List.drop_left, List.reverse_reverse]
  rfl

/-- A call finds what its receiver adds below the other arguments. -/
theorem computes_passed (name : String) (object : List Value) {passed : List Value}
    {count : Nat} (hcount : object.length + passed.length = count) :
    Computes routines base [.call name count] (passed.reverse ++ (object.reverse ++ stack))
      memory ((routines.result name (object ++ passed) memory).1 :: stack)
      (routines.result name (object ++ passed) memory).2 := by
  rw [← List.append_assoc, ← List.reverse_append]
  exact computes_call name _ (by rw [List.length_append, hcount])

theorem computes_binary (operator : BinaryOperator) (first last : Value) :
    Computes routines base [operator.code] (last :: first :: stack) memory
      ((operator.result routines first last memory).1 :: stack)
      (operator.result routines first last memory).2 := by
  cases operator with
  | mul | div => exact computes_call _ [first, last] rfl
  | _ => exact fun array temp => ⟨array, temp, rfl⟩

theorem computes_unary (operator : UnaryOperator) (operand : Value) :
    Computes routines base [operator.code] (operand :: stack) memory
      (operator.result operand :: stack) memory := by
  cases operator <;> exact fun array temp => ⟨array, temp, rfl⟩

/-- The address of an element gives way to what is there. Pointer 1 is set only once
the address is complete. -/
theorem computes_element (start place : Value) :
    Computes routines base [.operate .add, .pop .pointer 1, .push .that 0]
      (place :: start :: stack) memory (memory.heap (start + place) :: stack) memory := by
  intro array temp
  refine ⟨start + place, temp, ?_⟩
  simp [Machine.run?, Machine.execute?, Operation.perform?, Machine.write?, Machine.read?]

/-- Loading a name pushes what it stands for. -/
theorem computes_load (haround : around.Levelled) {name : String} (h : around.Declares name) :
    Computes routines base (around.load name) stack memory
      ((base.frame around).load around name memory :: stack) memory := by
  intro array temp
  refine ⟨array, temp, ?_⟩
  obtain ⟨⟨type, kind, index⟩, hresolve, hplace⟩ := h.place haround
  have hload : around.load name = [.push kind.segment index] := by
    simp [Surroundings.load, Surroundings.withVariable, hresolve]
  rw [hload, Frame.load]
  rcases hplace with ⟨hown, hfound, hlevel⟩ | ⟨hown, hfound, hlevel⟩
  · rw [if_pos hown]
    cases kind with
    | argument | «local» =>
        simp [Machine.frame, Machine.own, hfound, VariableKind.segment, Machine.run?,
          Machine.execute?, Machine.read?]
    | static | field => cases hlevel
  · rw [if_neg hown, hfound]
    cases kind with
    | static | field => rfl
    | argument | «local» => cases hlevel

theorem computes_receiver (haround : around.Levelled) (name : String) :
    Computes routines base (around.load name) stack memory
      (((base.frame around).receiver around name memory).reverse ++ stack) memory := by
  by_cases h : around.Declares name
  · rw [Frame.receiver, if_pos h]
    exact computes_load haround h
  · have hload : around.load name = [] := by
      simp [Surroundings.load, Surroundings.withVariable,
        Surroundings.resolve?_eq_none_iff.mpr h]
    rw [Frame.receiver, if_neg h, hload]
    exact computes_nil

theorem length_receiver (around : Surroundings) (frame : Frame) (name : String)
    (memory : Memory) :
    (frame.receiver around name memory).length = around.receiverCount name := by
  by_cases h : around.Declares name <;> simp [Frame.receiver, Surroundings.receiverCount, h]

theorem computes_appends (characters : List Char) (built : Value) :
    Computes routines base
      (characters.flatMap fun c => [.push .constant c.toNat, .call "String.appendChar" 2])
      (built :: stack) memory
      ((appendResult routines characters (built, memory)).1 :: stack)
      (appendResult routines characters (built, memory)).2 := by
  induction characters generalizing built memory with
  | nil => exact computes_nil
  | cons c others ih =>
      have hpush : Computes routines base [.push .constant c.toNat] (built :: stack) memory
          (BitVec.ofNat 16 c.toNat :: built :: stack) memory :=
        fun array temp => ⟨array, temp, rfl⟩
      have hcall : Computes routines base [.call "String.appendChar" 2]
          (BitVec.ofNat 16 c.toNat :: built :: stack) memory _ _ :=
        computes_call "String.appendChar" [built, BitVec.ofNat 16 c.toNat] rfl
      exact (hpush.append hcall).append (ih _)

theorem computes_string (content : String) :
    Computes routines base (charactersCode content) stack memory
      ((stringResult routines content memory).1 :: stack)
      (stringResult routines content memory).2 := by
  have hlength : Computes routines base [.push .constant content.toList.length] stack memory
      (BitVec.ofNat 16 content.toList.length :: stack) memory :=
    fun array temp => ⟨array, temp, rfl⟩
  have hnew : Computes routines base [.call "String.new" 1]
      (BitVec.ofNat 16 content.toList.length :: stack) memory _ _ :=
    computes_call "String.new" [BitVec.ofNat 16 content.toList.length] rfl
  exact (hlength.append hnew).append (computes_appends content.toList _)

end Code

section Operands

variable {routines : Routines} {around : Surroundings}

mutual

theorem Arguments.length_values (frame : Frame) (arguments : Arguments) (memory : Memory) :
    (arguments.values routines around frame memory).1.length = arguments.count := by
  match arguments with
  | .none => rfl
  | .some list => exact list.length_values frame memory

theorem ArgumentList.length_values (frame : Frame) (list : ArgumentList) (memory : Memory) :
    (list.values routines around frame memory).1.length = list.count := by
  match list with
  | .single argument => rfl
  | .append before last =>
      simp [ArgumentList.values, ArgumentList.count, before.length_values frame memory]

end

mutual

theorem Expression.computes (haround : around.Levelled) (base : Machine)
    (expression : Expression) (h : expression.Permitted around) (stack : List Value)
    (memory : Memory) :
    let result := expression.value routines around (base.frame around) memory
    Computes routines base (expression.code around) stack memory (result.1 :: stack)
      result.2 := by
  match expression with
  | .single term => exact term.computes haround base h stack memory
  | .operate first operator last =>
      have hfirst := first.computes haround base h.1 stack memory
      exact (hfirst.append (last.computes haround base h.2 _ _)).append
        (computes_binary operator _ _)

theorem Term.computes (haround : around.Levelled) (base : Machine) (term : Term)
    (h : term.Permitted around) (stack : List Value) (memory : Memory) :
    let result := term.value routines around (base.frame around) memory
    Computes routines base (term.code around) stack memory (result.1 :: stack) result.2 := by
  match term with
  | .integer _ | .falseConstant | .nullConstant | .thisConstant | .trueConstant =>
      exact fun array temp => ⟨array, temp, rfl⟩
  | .string content => exact computes_string content
  | .parenthesized inner => exact inner.computes haround base h stack memory
  | .unary operator operand =>
      exact (operand.computes haround base h stack memory).append (computes_unary operator _)
  | .name name => exact computes_load haround h
  | .element array index =>
      exact ((computes_load haround h.1).append (index.computes haround base h.2 _ _)).append
        (computes_element _ _)
  | .ownCall name arguments =>
      have hobject : Computes routines base [.push .pointer 0] stack memory
          ([base.object].reverse ++ stack) memory := fun array temp => ⟨array, temp, rfl⟩
      refine (hobject.append (arguments.computes haround base h.2 _ _)).append ?_
      refine computes_passed _ [base.object] ?_
      rw [Arguments.length_values, List.length_singleton, Nat.add_comm]
  | .memberCall receiver name arguments =>
      rw [Term.code, memberCallCode_eq]
      refine ((computes_receiver haround receiver).append
        (arguments.computes haround base h.2 _ _)).append ?_
      refine computes_passed _ _ ?_
      rw [length_receiver, Arguments.length_values]

theorem Arguments.computes (haround : around.Levelled) (base : Machine)
    (arguments : Arguments) (h : arguments.Permitted around) (stack : List Value)
    (memory : Memory) :
    let passed := arguments.values routines around (base.frame around) memory
    Computes routines base (arguments.code around) stack memory
      (passed.1.reverse ++ stack) passed.2 := by
  match arguments with
  | .none => exact computes_nil
  | .some list => exact list.computes haround base h stack memory

theorem ArgumentList.computes (haround : around.Levelled) (base : Machine)
    (list : ArgumentList) (h : list.Permitted around) (stack : List Value)
    (memory : Memory) :
    let passed := list.values routines around (base.frame around) memory
    Computes routines base (list.code around) stack memory (passed.1.reverse ++ stack)
      passed.2 := by
  match list with
  | .single argument => exact argument.computes haround base h stack memory
  | .append before last =>
      have hlast := (before.computes haround base h.1 stack memory).append
        (last.computes haround base h.2 _ _)
      simpa [ArgumentList.values, ArgumentList.code] using hlast

end

end Operands

end JackLang
