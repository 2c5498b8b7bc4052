import JackLang.Proofs.Compilation.Labels

/-! # Code with larger numbers

The number a statement starts with only shows in its labels. With a larger one the code is
the same, except that the number of every label is larger by as much.
-/

set_option autoImplicit false

namespace JackLang

/-- The label with a number that is larger by the amount. Its number are the digits that
it ends with. -/
def raisedLabel (amount : Nat) (name : String) : String :=
  let backwards := name.toList.reverse
  String.ofList (backwards.dropWhile Char.isDigit).reverse ++
    toString (decimalValue (backwards.takeWhile Char.isDigit).reverse + amount)

theorem raisedLabel_label (amount : Nat) (family : LabelFamily) (number : Nat) :
    raisedLabel amount (family.label number) = family.label (number + amount) := by
  have hchars : (family.label number).toList = family.text.toList ++ Nat.toDigits 10 number := by
    rw [LabelFamily.label, String.toList_append]
    exact congrArg (family.text.toList ++ ·) Nat.toList_repr
  have hdigits : ∀ c ∈ (Nat.toDigits 10 number).reverse, c.isDigit = true := by
    intro c hmem
    exact Nat.isDigit_of_mem_toDigits (by decide) (by decide) (List.mem_reverse.mp hmem)
  have htext : family.text.toList.reverse.takeWhile Char.isDigit = [] ∧
      family.text.toList.reverse.dropWhile Char.isDigit = family.text.toList.reverse := by
    cases family <;> decide
  have hvalue : decimalValue (Nat.toDigits 10 number) = number := Nat.ofDigitChars_ten_toDigits
  simp only [raisedLabel, hchars, List.reverse_append, List.takeWhile_append_of_pos hdigits,
    List.dropWhile_append_of_pos hdigits, htext, List.append_nil, List.reverse_reverse, hvalue,
    String.ofList_toList]
  rfl

/-- The instruction with a larger number in its label. -/
def Instruction.raised (amount : Nat) : Instruction → Instruction
  | .label name => .label (raisedLabel amount name)
  | .goto target => .goto (raisedLabel amount target)
  | .ifGoto target => .ifGoto (raisedLabel amount target)
  | instruction => instruction

theorem Straight.map_raised {code : List Instruction} (h : Straight code) (amount : Nat) :
    code.map (Instruction.raised amount) = code := by
  refine (List.map_congr_left fun instruction hmem => ?_).trans (List.map_id code)
  have hstraight := h instruction hmem
  cases instruction with
  | label name | goto target | ifGoto target => cases hstraight
  | _ => rfl

section Statements

variable (around : Surroundings) (amount : Nat)

theorem conditionalCode_raised (number : Nat) {condition : List Instruction}
    (hcondition : Straight condition) (first second : List Instruction) :
    (conditionalCode number condition first second).map (Instruction.raised amount) =
      conditionalCode (number + amount) condition (first.map (Instruction.raised amount))
        (second.map (Instruction.raised amount)) := by
  simp [conditionalCode, hcondition.map_raised, Instruction.raised, raisedLabel_label]

theorem loopCode_raised (number : Nat) {condition : List Instruction}
    (hcondition : Straight condition) (body : List Instruction) :
    (loopCode number condition body).map (Instruction.raised amount) =
      loopCode (number + amount) condition (body.map (Instruction.raised amount)) := by
  simp [loopCode, hcondition.map_raised, Instruction.raised, raisedLabel_label]

mutual

theorem Statement.code_raised (statement : Statement) (number : Nat) :
    (statement.code around number).map (Instruction.raised amount) =
      statement.code around (number + amount) := by
  match statement with
  | .assign target value =>
      simp [Statement.code, (value.straight around).map_raised,
        (straight_store around target).map_raised]
  | .assignElement array index value =>
      simp [Statement.code, (value.straight around).map_raised,
        (index.straight around).map_raised, (straight_load around array).map_raised,
        Instruction.raised]
  | .conditional condition body =>
      rw [Statement.code, conditionalCode_raised _ _ (condition.straight around),
        body.code_raised, Nat.add_right_comm, Statement.code]
      rfl
  | .alternative condition first second =>
      rw [Statement.code, conditionalCode_raised _ _ (condition.straight around),
        first.code_raised, second.code_raised, Statement.code]
      simp only [Nat.add_right_comm _ amount]
  | .loop condition body =>
      rw [Statement.code, loopCode_raised _ _ (condition.straight around), body.code_raised,
        Nat.add_right_comm, Statement.code]
  | .call call =>
      simp [Statement.code, (call.straight around).map_raised, Instruction.raised]
  | .returnNothing => rfl
  | .returnValue value =>
      simp [Statement.code, (value.straight around).map_raised, Instruction.raised]

theorem Statements.code_raised (statements : Statements) (number : Nat) :
    (statements.code around number).map (Instruction.raised amount) =
      statements.code around (number + amount) := by
  match statements with
  | .nil => rfl
  | .cons first rest =>
      rw [Statements.code, List.map_append, first.code_raised, rest.code_raised,
        Statements.code, Nat.add_right_comm]

end

end Statements

theorem Subroutine.code_raised (subroutine : Subroutine) (className : String)
    (ofClass : List Declared) (number amount : Nat) :
    (subroutine.code className ofClass number).map (Instruction.raised amount) =
      subroutine.code className ofClass (number + amount) := by
  have hcode : ∀ start, subroutine.code className ofClass start =
      subroutine.opening className ofClass ++
        subroutine.body.code ⟨className, ofClass, subroutine.declared className⟩ start :=
    fun _ => rfl
  rw [hcode, hcode, List.map_append, (subroutine.straight_opening className ofClass).map_raised,
    Statements.code_raised]

end JackLang
