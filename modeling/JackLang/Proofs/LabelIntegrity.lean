import JackLang.Proofs.Compilation.Extents
import JackLang.Proofs.Compilation.Labels
import JackLang.Proofs.PartialPrograms
import Mathlib.Data.List.Nodup

/-! # Labels of programs

No label is defined twice in what is written for a source, since the subroutines of
a unit number their conditionals and loops one behind the other. In a program that
is whole, each jump stays in its function and has the label that it goes to.
-/

set_option autoImplicit false

namespace JackLang

/-- The families and numbers of the labels of subroutines, in their order. -/
def marksFrom (number : Nat) (subroutines : List Subroutine) : List (LabelFamily × Nat) :=
  (numberedFrom number subroutines).flatMap fun numbered => numbered.1.body.marks numbered.2

theorem marksFrom_cons (number : Nat) (first : Subroutine) (others : List Subroutine) :
    marksFrom number (first :: others) =
      first.body.marks number ++ marksFrom (number + first.body.numbers) others := by
  simp [marksFrom, numberedFrom]

theorem le_of_mem_marksFrom {number : Nat} {subroutines : List Subroutine}
    {mark : LabelFamily × Nat} (h : mark ∈ marksFrom number subroutines) :
    number ≤ mark.2 := by
  induction subroutines generalizing number with
  | nil => cases h
  | cons first others ih =>
      rw [marksFrom_cons] at h
      rcases List.mem_append.mp h with hfirst | hothers
      · exact (first.body.marks_bounds number mark hfirst).1
      · exact Nat.le_of_add_right_le (ih hothers)

/-- The numbers of a subroutine end where those of the next one start. -/
theorem marksFrom_nodup (number : Nat) (subroutines : List Subroutine) :
    (marksFrom number subroutines).Nodup := by
  induction subroutines generalizing number with
  | nil => exact List.nodup_nil
  | cons first others ih =>
      rw [marksFrom_cons]
      refine List.nodup_append.mpr ⟨first.body.marks_nodup number, ih _, ?_⟩
      rintro mark hfirst _ hothers rfl
      have hless := (first.body.marks_bounds number mark hfirst).2
      have hle := le_of_mem_marksFrom hothers
      omega

theorem ClassUnit.labelsOf_code_nodup (unit : ClassUnit) : (labelsOf unit.code).Nodup := by
  have hlabels : labelsOf unit.code =
      (marksFrom 0 unit.subroutines).map LabelFamily.labelOf := by
    rw [unit.code_eq_flatMap, numbered, marksFrom]
    induction numberedFrom 0 unit.subroutines with
    | nil => rfl
    | cons first others ih => simp [ih, unit.labelsOf_section]
  rw [hlabels]
  exact nodup_labels (marksFrom_nodup 0 unit.subroutines)

section Jumps

variable {around : Surroundings} {condition first second body : List Instruction}

theorem targetsOf_conditionalCode_subset (number : Nat) (hcondition : Straight condition)
    (hfirst : targetsOf first ⊆ labelsOf first) (hsecond : targetsOf second ⊆ labelsOf second) :
    targetsOf (conditionalCode number condition first second) ⊆
      labelsOf (conditionalCode number condition first second) := by
  have htargets : targetsOf (conditionalCode number condition first second) =
      LabelFamily.ifTrue.label number :: LabelFamily.ifFalse.label number ::
        (targetsOf first ++ LabelFamily.ifEnd.label number :: targetsOf second) := by
    simp [conditionalCode, Instruction.target?, hcondition.targetsOf_eq_nil]
  have hlabels : labelsOf (conditionalCode number condition first second) =
      LabelFamily.ifTrue.label number :: (labelsOf first ++
        LabelFamily.ifFalse.label number ::
          (labelsOf second ++ [LabelFamily.ifEnd.label number])) := by
    simp [conditionalCode, Instruction.label?, hcondition.labelsOf_eq_nil]
  rw [htargets, hlabels]
  intro target hmem
  grind

theorem targetsOf_loopCode_subset (number : Nat) (hcondition : Straight condition)
    (hbody : targetsOf body ⊆ labelsOf body) :
    targetsOf (loopCode number condition body) ⊆ labelsOf (loopCode number condition body) := by
  have htargets : targetsOf (loopCode number condition body) =
      LabelFamily.whileEnd.label number ::
        (targetsOf body ++ [LabelFamily.whileStart.label number]) := by
    simp [loopCode, Instruction.target?, hcondition.targetsOf_eq_nil]
  have hlabels : labelsOf (loopCode number condition body) =
      LabelFamily.whileStart.label number ::
        (labelsOf body ++ [LabelFamily.whileEnd.label number]) := by
    simp [loopCode, Instruction.label?, hcondition.labelsOf_eq_nil]
  rw [htargets, hlabels]
  intro target hmem
  grind

mutual

/-- A statement has all the labels that it jumps to. -/
theorem Statement.targetsOf_subset (statement : Statement) (number : Nat) :
    targetsOf (statement.code around number) ⊆ labelsOf (statement.code around number) := by
  match statement with
  | .conditional condition body =>
      exact targetsOf_conditionalCode_subset number (condition.straight around)
        (body.targetsOf_subset (number + 1)) (List.nil_subset _)
  | .alternative condition first second =>
      exact targetsOf_conditionalCode_subset number (condition.straight around)
        (first.targetsOf_subset (number + 1))
        (second.targetsOf_subset (number + 1 + first.numbers))
  | .loop condition body =>
      exact targetsOf_loopCode_subset number (condition.straight around)
        (body.targetsOf_subset (number + 1))
  | .assign target value =>
      have hcode : Straight ((Statement.assign target value).code around number) := by
        simp [Statement.code, value.straight, straight_store]
      exact hcode.targetsOf_subset _
  | .assignElement array index value =>
      have hcode : Straight ((Statement.assignElement array index value).code around number) := by
        simp [Statement.code, straight_load, index.straight, value.straight,
          Instruction.isStraight]
      exact hcode.targetsOf_subset _
  | .call call =>
      have hcode : Straight ((Statement.call call).code around number) := by
        simp [Statement.code, call.straight, Instruction.isStraight]
      exact hcode.targetsOf_subset _
  | .returnNothing => exact List.nil_subset _
  | .returnValue value =>
      have hcode : Straight ((Statement.returnValue value).code around number) := by
        simp [Statement.code, value.straight, Instruction.isStraight]
      exact hcode.targetsOf_subset _

theorem Statements.targetsOf_subset (statements : Statements) (number : Nat) :
    targetsOf (statements.code around number) ⊆ labelsOf (statements.code around number) := by
  match statements with
  | .nil => exact List.nil_subset _
  | .cons first rest =>
      have hfirst := first.targetsOf_subset number
      have hrest := rest.targetsOf_subset (number + first.numbers)
      rw [Statements.code, targetsOf_append, labelsOf_append]
      exact List.append_subset.mpr ⟨List.Subset.trans hfirst (List.subset_append_left _ _),
        List.Subset.trans hrest (List.subset_append_right _ _)⟩

end

end Jumps

/-- The jumps of a subroutine stay in it. -/
theorem ClassUnit.targetsOf_section_subset (unit : ClassUnit) (numbered : Subroutine × Nat) :
    targetsOf (unit.section numbered) ⊆ labelsOf (unit.section numbered) := by
  have hopening := numbered.1.straight_opening unit.name unit.declared
  rw [unit.section_eq, targetsOf_append, labelsOf_append, hopening.targetsOf_eq_nil,
    hopening.labelsOf_eq_nil]
  exact numbered.1.body.targetsOf_subset numbered.2

section Compile

variable (source taken : String) (tree : Option String)

end Compile

end JackLang
