import JackLang.Proofs.Compilation.Instructions
import JackLang.Proofs.Compilation.Sections
import JackLang.Proofs.Vm.Height
import JackLang.Proofs.Vm.Machine
import Std.Data.String.ToNat

/-! # Labels of code

A statement's labels bear numbers that start with its own, as many as there are
conditionals and loops in it. Labels of different families or numbers differ,
and so do those of a subroutine.
-/

set_option autoImplicit false

namespace JackLang

theorem LabelFamily.label_inj {family other : LabelFamily} {number count : Nat}
    (h : family.label number = other.label count) : family = other ∧ number = count := by
  have hchars := congrArg String.toList h
  rw [label, label, String.toList_append, String.toList_append] at hchars
  by_cases hfamily : family = other
  · subst hfamily
    have hnumber := List.append_cancel_left hchars
    exact ⟨rfl, Nat.repr_injective (String.toList_injective hnumber)⟩
  · refine absurd hchars ?_
    cases family <;> cases other <;>
      first | exact absurd rfl hfamily | simp [LabelFamily.text]

@[simp] theorem labelsOf_nil : labelsOf [] = [] := rfl

@[simp] theorem labelsOf_append (first second : List Instruction) :
    labelsOf (first ++ second) = labelsOf first ++ labelsOf second :=
  List.filterMap_append

@[simp] theorem labelsOf_cons (instruction : Instruction) (rest : List Instruction) :
    labelsOf (instruction :: rest) = instruction.label?.toList ++ labelsOf rest := by
  rw [labelsOf, labelsOf, List.filterMap_cons]
  cases instruction.label? <;> rfl

/-- The labels that code jumps to. -/
def targetsOf (code : List Instruction) : List String :=
  code.filterMap Instruction.target?

@[simp] theorem targetsOf_nil : targetsOf [] = [] := rfl

@[simp] theorem targetsOf_append (first second : List Instruction) :
    targetsOf (first ++ second) = targetsOf first ++ targetsOf second :=
  List.filterMap_append

@[simp] theorem targetsOf_cons (instruction : Instruction) (rest : List Instruction) :
    targetsOf (instruction :: rest) = instruction.target?.toList ++ targetsOf rest := by
  rw [targetsOf, targetsOf, List.filterMap_cons]
  cases instruction.target? <;> rfl

/-- The instruction is no label, and jumps to none. -/
def Instruction.isStraight : Instruction → Bool
  | .label _ => false
  | .goto _ => false
  | .ifGoto _ => false
  | _ => true

def Straight (code : List Instruction) : Prop :=
  ∀ instruction ∈ code, instruction.isStraight = true

@[simp] theorem straight_nil : Straight [] := by
  simp [Straight]

@[simp] theorem straight_cons (instruction : Instruction) (rest : List Instruction) :
    Straight (instruction :: rest) ↔ instruction.isStraight = true ∧ Straight rest := by
  simp [Straight]

@[simp] theorem straight_append (first second : List Instruction) :
    Straight (first ++ second) ↔ Straight first ∧ Straight second := by
  simp [Straight, or_imp, forall_and]

theorem Straight.labelsOf_eq_nil {code : List Instruction} (h : Straight code) :
    labelsOf code = [] := by
  rw [labelsOf, List.filterMap_eq_nil_iff]
  intro instruction hmem
  have hstraight := h instruction hmem
  cases instruction with
  | label name => cases hstraight
  | _ => rfl

theorem Straight.targetsOf_eq_nil {code : List Instruction} (h : Straight code) :
    targetsOf code = [] := by
  rw [targetsOf, List.filterMap_eq_nil_iff]
  intro instruction hmem
  have hstraight := h instruction hmem
  cases instruction with
  | goto name | ifGoto name => cases hstraight
  | _ => rfl

theorem Straight.targetsOf_subset {code : List Instruction} (h : Straight code)
    (labels : List String) : targetsOf code ⊆ labels := by
  rw [h.targetsOf_eq_nil]
  exact List.nil_subset labels

theorem AllPlain.straight {around : Surroundings} {code : List Instruction}
    (h : AllPlain around code) : Straight code := by
  intro instruction hmem
  cases h instruction hmem <;> rfl

section Operands

variable (around : Surroundings)

theorem straight_load (name : String) : Straight (around.load name) :=
  (plain_load around name).straight

theorem straight_store (name : String) : Straight (around.store name) :=
  Surroundings.forall_mem_withVariable fun _ _ => rfl

theorem Expression.straight (expression : Expression) : Straight (expression.code around) :=
  (expression.plain around).straight

theorem Call.straight (call : Call) : Straight (call.code around) :=
  (call.plain around).straight

@[simp] theorem labelsOf_load (name : String) : labelsOf (around.load name) = [] :=
  (straight_load around name).labelsOf_eq_nil

@[simp] theorem labelsOf_store (name : String) : labelsOf (around.store name) = [] :=
  (straight_store around name).labelsOf_eq_nil

theorem Expression.labelsOf_code (expression : Expression) :
    labelsOf (expression.code around) = [] :=
  (expression.straight around).labelsOf_eq_nil

theorem Call.labelsOf_code (call : Call) : labelsOf (call.code around) = [] :=
  (call.straight around).labelsOf_eq_nil

end Operands

mutual

/-- The families and numbers of a statement's labels, in their order. -/
def Statement.marks (number : Nat) : Statement → List (LabelFamily × Nat)
  | .conditional _ body =>
      (.ifTrue, number) :: body.marks (number + 1) ++ [(.ifFalse, number), (.ifEnd, number)]
  | .alternative _ first second =>
      (.ifTrue, number) :: first.marks (number + 1) ++
        (.ifFalse, number) :: second.marks (number + 1 + first.numbers) ++ [(.ifEnd, number)]
  | .loop _ body =>
      (.whileStart, number) :: body.marks (number + 1) ++ [(.whileEnd, number)]
  | .assign _ _ => []
  | .assignElement _ _ _ => []
  | .call _ => []
  | .returnNothing => []
  | .returnValue _ => []

def Statements.marks (number : Nat) : Statements → List (LabelFamily × Nat)
  | .nil => []
  | .cons first rest => first.marks number ++ rest.marks (number + first.numbers)

end

mutual

theorem Statement.marks_bounds (statement : Statement) (number : Nat) :
    ∀ mark ∈ statement.marks number,
      number ≤ mark.2 ∧ mark.2 < number + statement.numbers := by
  match statement with
  | .conditional _ body | .loop _ body =>
      have hbody := body.marks_bounds (number + 1)
      intro mark hmem
      simp only [Statement.marks, List.cons_append, List.mem_cons, List.mem_append,
        List.not_mem_nil, or_false] at hmem
      simp only [Statement.numbers]
      grind
  | .alternative _ first second =>
      have hfirst := first.marks_bounds (number + 1)
      have hsecond := second.marks_bounds (number + 1 + first.numbers)
      intro mark hmem
      simp only [Statement.marks, List.cons_append, List.mem_cons, List.mem_append,
        List.not_mem_nil, or_false] at hmem
      simp only [Statement.numbers]
      grind
  | .assign _ _ | .assignElement _ _ _ | .call _ | .returnNothing | .returnValue _ =>
      intro mark hmem
      cases hmem

theorem Statements.marks_bounds (statements : Statements) (number : Nat) :
    ∀ mark ∈ statements.marks number,
      number ≤ mark.2 ∧ mark.2 < number + statements.numbers := by
  match statements with
  | .nil =>
      intro mark hmem
      cases hmem
  | .cons first rest =>
      have hfirst := first.marks_bounds number
      have hrest := rest.marks_bounds (number + first.numbers)
      intro mark hmem
      rw [Statements.marks, List.mem_append] at hmem
      simp only [Statements.numbers]
      grind

end

mutual

theorem Statement.marks_nodup (statement : Statement) (number : Nat) :
    (statement.marks number).Nodup := by
  match statement with
  | .conditional _ body | .loop _ body =>
      have hbody := body.marks_nodup (number + 1)
      have hbounds := body.marks_bounds (number + 1)
      simp only [Statement.marks, List.cons_append, List.nodup_cons, List.nodup_append]
      grind
  | .alternative _ first second =>
      have hfirst := first.marks_nodup (number + 1)
      have hsecond := second.marks_nodup (number + 1 + first.numbers)
      have hfirstBounds := first.marks_bounds (number + 1)
      have hsecondBounds := second.marks_bounds (number + 1 + first.numbers)
      simp only [Statement.marks, List.cons_append, List.nodup_cons, List.nodup_append]
      grind
  | .assign _ _ | .assignElement _ _ _ | .call _ | .returnNothing | .returnValue _ =>
      exact List.nodup_nil

theorem Statements.marks_nodup (statements : Statements) (number : Nat) :
    (statements.marks number).Nodup := by
  match statements with
  | .nil => exact List.nodup_nil
  | .cons first rest =>
      have hfirst := first.marks_bounds number
      have hrest := rest.marks_bounds (number + first.numbers)
      refine List.nodup_append.mpr ⟨first.marks_nodup number, rest.marks_nodup _, ?_⟩
      rintro mark hmem _ hother rfl
      have := (hfirst mark hmem).2
      have := (hrest mark hother).1
      omega

end

def LabelFamily.labelOf (mark : LabelFamily × Nat) : String :=
  mark.1.label mark.2

section Statements

variable (around : Surroundings)

mutual

theorem Statement.labelsOf_code (statement : Statement) (number : Nat) :
    labelsOf (statement.code around number) =
      (statement.marks number).map LabelFamily.labelOf := by
  match statement with
  | .conditional condition body =>
      simp [Statement.code, conditionalCode, Statement.marks, LabelFamily.labelOf,
        Instruction.label?, condition.labelsOf_code, body.labelsOf_code]
  | .alternative condition first second =>
      simp [Statement.code, conditionalCode, Statement.marks, LabelFamily.labelOf,
        Instruction.label?, condition.labelsOf_code, first.labelsOf_code,
        second.labelsOf_code]
  | .loop condition body =>
      simp [Statement.code, loopCode, Statement.marks, LabelFamily.labelOf,
        Instruction.label?, condition.labelsOf_code, body.labelsOf_code]
  | .assign target value =>
      simp [Statement.code, Statement.marks, value.labelsOf_code]
  | .assignElement array index value =>
      simp [Statement.code, Statement.marks, Instruction.label?, index.labelsOf_code,
        value.labelsOf_code]
  | .call call => simp [Statement.code, Statement.marks, Instruction.label?, call.labelsOf_code]
  | .returnNothing => rfl
  | .returnValue value =>
      simp [Statement.code, Statement.marks, Instruction.label?, value.labelsOf_code]

theorem Statements.labelsOf_code (statements : Statements) (number : Nat) :
    labelsOf (statements.code around number) =
      (statements.marks number).map LabelFamily.labelOf := by
  match statements with
  | .nil => rfl
  | .cons first rest =>
      simp [Statements.code, Statements.marks, first.labelsOf_code, rest.labelsOf_code]

end

end Statements

theorem Subroutine.straight_opening (subroutine : Subroutine) (className : String)
    (ofClass : List Declared) : Straight (subroutine.opening className ofClass) := by
  rw [Subroutine.opening]
  cases subroutine.kind <;> simp [SubroutineKind.entryCode, Instruction.isStraight]

theorem ClassUnit.labelsOf_section (unit : ClassUnit) (numbered : Subroutine × Nat) :
    labelsOf (unit.section numbered) =
      (numbered.1.body.marks numbered.2).map LabelFamily.labelOf := by
  rw [unit.section_eq, labelsOf_append, (numbered.1.straight_opening _ _).labelsOf_eq_nil,
    List.nil_append, Statements.labelsOf_code]

/-- Marks that differ have labels that differ. -/
theorem nodup_labels {marks : List (LabelFamily × Nat)} (h : marks.Nodup) :
    (marks.map LabelFamily.labelOf).Nodup := by
  refine List.Pairwise.map LabelFamily.labelOf ?_ h
  rintro ⟨family, number⟩ ⟨other, count⟩ hne hlabel
  obtain ⟨rfl, rfl⟩ := LabelFamily.label_inj hlabel
  exact hne rfl

theorem ClassUnit.labelsOf_section_nodup (unit : ClassUnit) (numbered : Subroutine × Nat) :
    (labelsOf (unit.section numbered)).Nodup := by
  rw [unit.labelsOf_section]
  exact nodup_labels (numbered.1.body.marks_nodup numbered.2)

end JackLang
