import JackLang.Proofs.Compilation.Sections
import JackLang.Proofs.Vm.Machine

/-! # Ways through conditionals and loops

The code of a conditional or loop stands in the code of a function whose labels
are distinct. Depending on the value of the condition, the machine gets to one
of the branches, into the body or behind the statement.
-/

set_option autoImplicit false

namespace JackLang

variable {routines : Routines} {code front condition first second body : List Instruction}
variable {number : Nat} {machine : Machine} {value : Value} {rest : List Value}

section Conditional

variable (hlabels : (labelsOf code).Nodup)
variable (hcode : front ++ conditionalCode number condition first second <+: code)

include hcode

theorem prefix_condition : front ++ condition <+: code := by
  refine List.IsPrefix.trans ?_ hcode
  simp [conditionalCode_eq]

theorem prefix_first : front ++ condition ++ testCode number ++ first <+: code := by
  refine List.IsPrefix.trans ?_ hcode
  simp [conditionalCode_eq]

theorem prefix_second :
    front ++ condition ++ testCode number ++ first ++ elseCode number ++ second <+: code := by
  refine List.IsPrefix.trans ?_ hcode
  simp [conditionalCode_eq]

theorem prefix_ifGoto :
    front ++ condition ++ [.ifGoto (LabelFamily.ifTrue.label number)] <+: code := by
  refine List.IsPrefix.trans ?_ hcode
  simp [conditionalCode_eq, testCode]

theorem prefix_elseLabel :
    front ++ condition ++ testCode number ++ first ++
      [.goto (LabelFamily.ifEnd.label number)] ++
      [.label (LabelFamily.ifFalse.label number)] <+: code := by
  refine List.IsPrefix.trans ?_ hcode
  simp [conditionalCode_eq, elseCode]

theorem prefix_endLabel :
    front ++ condition ++ testCode number ++ first ++ elseCode number ++ second ++
      [.label (LabelFamily.ifEnd.label number)] <+: code := by
  refine List.IsPrefix.trans ?_ hcode
  simp [conditionalCode_eq]

include hlabels

/-- A value other than zero leads to the first branch. -/
theorem reaches_first (hstack : machine.stack = value :: rest) (hvalue : value ≠ 0) :
    Reaches routines code ((front ++ condition).length, machine)
      ((front ++ condition ++ testCode number).length, { machine with stack := rest }) := by
  have hlabel : front ++ condition ++
      [.ifGoto (LabelFamily.ifTrue.label number), .goto (LabelFamily.ifFalse.label number)] ++
      [.label (LabelFamily.ifTrue.label number)] <+: code := by
    refine List.IsPrefix.trans ?_ hcode
    simp [conditionalCode_eq, testCode]
  have hjump : Reaches routines code (_, machine) _ :=
    .of_ifGoto hlabels hlabel hvalue hstack (prefix_ifGoto hcode)
  simpa [testCode] using hjump

/-- Zero leads to the second branch. -/
theorem reaches_second (hstack : machine.stack = 0 :: rest) :
    Reaches routines code ((front ++ condition).length, machine)
      ((front ++ condition ++ testCode number ++ first ++ elseCode number).length,
        { machine with stack := rest }) := by
  have hgoto : front ++ condition ++ [.ifGoto (LabelFamily.ifTrue.label number)] ++
      [.goto (LabelFamily.ifFalse.label number)] <+: code := by
    refine List.IsPrefix.trans ?_ hcode
    simp [conditionalCode_eq, testCode]
  have htest : Reaches routines code (_, machine) _ :=
    .of_ifGoto_zero hstack (prefix_ifGoto hcode)
  have hjump := htest.trans (.of_goto_label hlabels (prefix_elseLabel hcode) hgoto)
  rw [List.append_assoc _ [_] [_]] at hjump
  exact hjump

/-- The first branch leads to the end. -/
theorem reaches_end_first :
    Reaches routines code ((front ++ condition ++ testCode number ++ first).length, machine)
      ((front ++ conditionalCode number condition first second).length, machine) := by
  have hgoto := (List.prefix_append _ _).trans (prefix_elseLabel hcode)
  have hjump : Reaches routines code (_, machine) _ :=
    .of_goto_label hlabels (prefix_endLabel hcode) hgoto
  simpa [conditionalCode_eq] using hjump

omit hlabels in
/-- The second branch leads to the end. -/
theorem reaches_end_second :
    Reaches routines code
      ((front ++ condition ++ testCode number ++ first ++ elseCode number ++ second).length,
        machine)
      ((front ++ conditionalCode number condition first second).length, machine) := by
  have hlabel : Reaches routines code (_, machine) _ := .of_label (prefix_endLabel hcode)
  simpa [conditionalCode_eq] using hlabel

end Conditional

section Loop

variable (hlabels : (labelsOf code).Nodup)
variable (hcode : front ++ loopCode number condition body <+: code)

include hcode

theorem prefix_startLabel : front ++ startCode number <+: code := by
  refine List.IsPrefix.trans ?_ hcode
  simp [loopCode_eq]

theorem prefix_loopCondition : front ++ startCode number ++ condition <+: code := by
  refine List.IsPrefix.trans ?_ hcode
  simp [loopCode_eq]

theorem prefix_body :
    front ++ startCode number ++ condition ++ exitCode number ++ body <+: code := by
  refine List.IsPrefix.trans ?_ hcode
  simp [loopCode_eq]

theorem prefix_exitCode :
    front ++ startCode number ++ condition ++ [Instruction.operate .not] ++
      [.ifGoto (LabelFamily.whileEnd.label number)] <+: code := by
  refine List.IsPrefix.trans ?_ hcode
  simp [loopCode_eq, exitCode]

theorem prefix_repeatCode :
    front ++ startCode number ++ condition ++ exitCode number ++
      body ++ [.goto (LabelFamily.whileStart.label number)] ++
      [.label (LabelFamily.whileEnd.label number)] <+: code := by
  refine List.IsPrefix.trans ?_ hcode
  simp [loopCode_eq, repeatCode]

/-- The condition of a loop is negated before it is tested. -/
theorem reaches_test (hstack : machine.stack = value :: rest) :
    Reaches routines code
      ((front ++ startCode number ++ condition).length, machine)
      ((front ++ startCode number ++ condition ++
        [Instruction.operate .not]).length, { machine with stack := ~~~value :: rest }) := by
  apply Reaches.of_execute ((List.prefix_append _ _).trans (prefix_exitCode hcode))
  rw [Machine.execute?, hstack]
  rfl

/-- A value with all bits set leads into the body. -/
theorem reaches_body (hstack : machine.stack = flag True :: rest) :
    Reaches routines code
      ((front ++ startCode number ++ condition).length, machine)
      ((front ++ startCode number ++ condition ++
        exitCode number).length, { machine with stack := rest }) := by
  have hnot : Reaches routines code (_, machine) _ := reaches_test hcode hstack
  have htest := hnot.trans (.of_ifGoto_zero rfl (prefix_exitCode hcode))
  rw [List.append_assoc _ [_] [_]] at htest
  exact htest

include hlabels

/-- Any other value leads behind the loop. -/
theorem reaches_exit (hstack : machine.stack = value :: rest) (hvalue : value ≠ flag True) :
    Reaches routines code
      ((front ++ startCode number ++ condition).length, machine)
      ((front ++ loopCode number condition body).length, { machine with stack := rest }) := by
  have hne : ~~~value ≠ 0 := by
    intro hzero
    apply hvalue
    rw [← BitVec.not_not (b := value), hzero]
    rfl
  have hnot : Reaches routines code (_, machine) _ := reaches_test hcode hstack
  have hexit := hnot.trans
    (.of_ifGoto hlabels (prefix_repeatCode hcode) hne rfl (prefix_exitCode hcode))
  simpa [loopCode_eq, repeatCode] using hexit

/-- The body leads back to the start. -/
theorem reaches_start :
    Reaches routines code
      ((front ++ startCode number ++ condition ++
        exitCode number ++ body).length, machine)
      (front.length, machine) :=
  Reaches.of_goto hlabels (prefix_startLabel hcode)
    ((List.prefix_append _ _).trans (prefix_repeatCode hcode))

end Loop

end JackLang
