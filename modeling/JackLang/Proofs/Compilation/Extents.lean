import JackLang.Proofs.Compilation.Instructions
import JackLang.Proofs.Compilation.Sections
import JackLang.Proofs.Compilation.Units
import JackLang.Proofs.Compilation.Values
import Mathlib.Data.List.Forall2

/-! # Operands stay within their segments

Each segment that the code of a subroutine uses has an extent: as many locals as its
`function` instruction asks for, as many arguments as the subroutine takes, and as
many fields and statics as its class declares. No instruction of the subroutine goes
beyond them.
-/

set_option autoImplicit false

namespace JackLang

/-- How far the segments of a subroutine reach. -/
structure Extent where
  locals : Nat
  arguments : Nat
  fields : Nat
  statics : Nat

/-- Whether there is a word at the index of a segment. -/
def Extent.Has (extent : Extent) (index : Nat) : Segment → Prop
  | .constant => True
  | .argument => index < extent.arguments
  | .local => index < extent.locals
  | .static => index < extent.statics
  | .this => index < extent.fields
  | .that => index = 0
  | .pointer => index = 0 ∨ index = 1
  | .temp => index = 0

/-- What an instruction inside a subroutine may do: it stays within the segments, and
pops nothing to a constant. -/
def Instruction.Within (extent : Extent) : Instruction → Prop
  | .push segment index => extent.Has index segment
  | .pop segment index => segment ≠ .constant ∧ extent.Has index segment
  | .function _ _ => False
  | _ => True

def AllWithin (extent : Extent) (code : List Instruction) : Prop :=
  ∀ instruction ∈ code, instruction.Within extent

section AllWithin

variable {extent : Extent}

@[simp] theorem allWithin_nil : AllWithin extent [] := by
  simp [AllWithin]

@[simp] theorem allWithin_cons (instruction : Instruction) (code : List Instruction) :
    AllWithin extent (instruction :: code) ↔
      instruction.Within extent ∧ AllWithin extent code := by
  simp [AllWithin]

@[simp] theorem allWithin_append (first second : List Instruction) :
    AllWithin extent (first ++ second) ↔ AllWithin extent first ∧ AllWithin extent second := by
  simp [AllWithin, or_imp, forall_and]

theorem AllWithin.of_isPrefix {code part : List Instruction} (h : AllWithin extent code)
    (hstarts : part <+: code) : AllWithin extent part :=
  fun instruction hmem => h instruction (hstarts.subset hmem)

theorem AllWithin.isFunction_eq_false {code : List Instruction} (h : AllWithin extent code) :
    ∀ instruction ∈ code, instruction.isFunction = false := by
  intro instruction hmem
  have hwithin := h instruction hmem
  cases instruction with
  | function name locals => exact hwithin.elim
  | _ => rfl

end AllWithin

def Surroundings.extent (around : Surroundings) : Extent where
  locals := countOf .local around.ofSubroutine
  arguments := countOf .argument around.ofSubroutine
  fields := countOf .field around.ofClass
  statics := countOf .static around.ofClass

section Code

variable {around : Surroundings}

theorem Surroundings.Levelled.has_resolve? (haround : around.Levelled) {name : String}
    {found : Variable} (h : around.resolve? name = some found) :
    around.extent.Has found.index found.kind.segment := by
  rw [resolve?] at h
  split at h
  · rename_i own hown
    cases h
    have hless := index_lt_countOf hown
    obtain ⟨one, hmem, hkind⟩ := exists_kind_of_variableOf? hown
    have hlevel := haround.ofSubroutine one hmem
    rw [hkind] at hlevel
    cases hfound : found.kind with
    | static | field =>
        rw [hfound] at hlevel
        cases hlevel
    | argument | «local» => rwa [hfound] at hless
  · have hless := index_lt_countOf h
    obtain ⟨one, hmem, hkind⟩ := exists_kind_of_variableOf? h
    have hlevel := haround.ofClass one hmem
    rw [hkind] at hlevel
    cases hfound : found.kind with
    | static | field => rwa [hfound] at hless
    | argument | «local» =>
        rw [hfound] at hlevel
        cases hlevel

theorem VariableKind.segment_ne_constant (kind : VariableKind) : kind.segment ≠ .constant := by
  cases kind <;> decide

theorem AllPlain.within (haround : around.Levelled) {code : List Instruction}
    (h : AllPlain around code) : AllWithin around.extent code := by
  intro instruction hmem
  cases h instruction hmem with
  | constant value | operate operation | call name count => trivial
  | load hfound => exact haround.has_resolve? hfound
  | object => exact .inl rfl
  | address => exact ⟨by decide, .inr rfl⟩
  | element => exact rfl

theorem Surroundings.Levelled.within_store (haround : around.Levelled) (name : String) :
    AllWithin around.extent (around.store name) :=
  forall_mem_withVariable fun found hfound =>
    ⟨found.kind.segment_ne_constant, haround.has_resolve? hfound⟩

theorem Expression.within (haround : around.Levelled) (expression : Expression) :
    AllWithin around.extent (expression.code around) :=
  (expression.plain around).within haround

mutual

theorem Statement.within (haround : around.Levelled) (statement : Statement) (number : Nat) :
    AllWithin around.extent (statement.code around number) := by
  match statement with
  | .assign target value =>
      simp [Statement.code, value.within haround, haround.within_store target]
  | .assignElement array index value =>
      simp [Statement.code, (plain_load around array).within haround, index.within haround,
        value.within haround, Instruction.Within, Extent.Has]
  | .conditional condition body =>
      simp [Statement.code, conditionalCode, condition.within haround, body.within haround,
        Instruction.Within]
  | .alternative condition first second =>
      simp [Statement.code, conditionalCode, condition.within haround, first.within haround,
        second.within haround, Instruction.Within]
  | .loop condition body =>
      simp [Statement.code, loopCode, condition.within haround, body.within haround,
        Instruction.Within]
  | .call call =>
      simp [Statement.code, (call.plain around).within haround, Instruction.Within, Extent.Has]
  | .returnNothing => simp [Statement.code, Instruction.Within, Extent.Has]
  | .returnValue value => simp [Statement.code, value.within haround, Instruction.Within]

theorem Statements.within (haround : around.Levelled) (statements : Statements)
    (number : Nat) : AllWithin around.extent (statements.code around number) := by
  match statements with
  | .nil => exact allWithin_nil
  | .cons first rest =>
      simp [Statements.code, first.within haround, rest.within haround]

end

end Code

theorem ClassUnit.levelled (unit : ClassUnit) (subroutine : Subroutine) :
    (unit.around subroutine).Levelled :=
  ⟨unit.isClassLevel_declared, subroutine.isClassLevel_declared unit.name⟩

def ClassUnit.extent (unit : ClassUnit) (subroutine : Subroutine) : Extent where
  locals := subroutine.localCount
  arguments := subroutine.argumentCount
  fields := countOf .field unit.declared
  statics := countOf .static unit.declared

theorem ClassUnit.extent_around (unit : ClassUnit) (subroutine : Subroutine) :
    (unit.around subroutine).extent = unit.extent subroutine := by
  obtain ⟨harguments, hlocals⟩ := subroutine.countOf_declared unit.name
  rw [Surroundings.extent, extent, ← harguments, ← hlocals]
  rfl

/-- The code of a subroutine behind its `function` instruction. -/
def ClassUnit.inner (unit : ClassUnit) (numbered : Subroutine × Nat) : List Instruction :=
  numbered.1.kind.entryCode (countOf .field unit.declared) ++
    numbered.1.body.code (unit.around numbered.1) numbered.2

theorem ClassUnit.section_eq_cons (unit : ClassUnit) (numbered : Subroutine × Nat) :
    unit.section numbered =
      .function (unit.name ++ "." ++ numbered.1.name) numbered.1.localCount ::
        unit.inner numbered := by
  rw [← (numbered.1.countOf_declared unit.name).2]
  rfl

theorem ClassUnit.within_inner (unit : ClassUnit) (numbered : Subroutine × Nat) :
    AllWithin (unit.extent numbered.1) (unit.inner numbered) := by
  have hbody := numbered.1.body.within (unit.levelled numbered.1) numbered.2
  rw [unit.extent_around] at hbody
  have hentry : AllWithin (unit.extent numbered.1)
      (numbered.1.kind.entryCode (countOf .field unit.declared)) := by
    cases hkind : numbered.1.kind with
    | constructor => simp [SubroutineKind.entryCode, Instruction.Within, Extent.Has]
    | function => simp [SubroutineKind.entryCode]
    | method =>
        have harguments : 0 < (unit.extent numbered.1).arguments := by
          simp only [extent, Subroutine.argumentCount, hkind, if_true]
          omega
        simpa [SubroutineKind.entryCode, Instruction.Within, Extent.Has] using harguments
  exact (allWithin_append _ _).mpr ⟨hentry, hbody⟩

theorem ClassUnit.isSection (unit : ClassUnit) (numbered : Subroutine × Nat) :
    IsSection (unit.section numbered) :=
  ⟨_, _, unit.section_eq_cons numbered, rfl, (unit.within_inner numbered).isFunction_eq_false⟩

/-- A section that is cut short is a section too, unless nothing is left. -/
theorem IsSection.of_isPrefix {part cut : List Instruction} (h : IsSection part)
    (hstarts : cut <+: part) (hne : cut ≠ []) : IsSection cut := by
  obtain ⟨first, rest, rfl, hfirst, hrest⟩ := h
  obtain ⟨one, others, rfl⟩ := List.exists_cons_of_ne_nil hne
  obtain ⟨rfl, hothers⟩ := List.cons_prefix_cons.mp hstarts
  exact ⟨one, others, rfl, hfirst, fun instruction hmem =>
    hrest instruction (hothers.subset hmem)⟩

theorem prefix_append_cases {program part rest : List Instruction}
    (h : program <+: part ++ rest) :
    program <+: part ∨ ∃ more, program = part ++ more := by
  rcases List.prefix_or_prefix_of_prefix h (List.prefix_append part rest) with hshort | hlong
  · exact .inl hshort
  · obtain ⟨more, rfl⟩ := hlong
    exact .inr ⟨more, rfl⟩

/-- The beginning of a program falls into the first of its sections, of which the last
one may be cut short. -/
theorem sections_of_prefix {parts : List (List Instruction)}
    (h : ∀ part ∈ parts, IsSection part) {program : List Instruction}
    (hstarts : program <+: parts.flatten) :
    (sections program).flatten = program ∧ (∀ cut ∈ sections program, IsSection cut) ∧
      ∃ begun, begun <+: parts ∧ List.Forall₂ (· <+: ·) (sections program) begun := by
  -- the program is cut along the sections first, and the cuts are what `sections` finds
  have hcuts : ∃ cuts begun, cuts.flatten = program ∧ begun <+: parts ∧
      List.Forall₂ (· <+: ·) cuts begun ∧ ∀ cut ∈ cuts, IsSection cut := by
    induction parts generalizing program with
    | nil =>
        rw [List.flatten_nil, List.prefix_nil] at hstarts
        exact ⟨[], [], hstarts.symm, List.nil_prefix, .nil, by simp⟩
    | cons part others ih =>
        have hpart := h part (.head others)
        rw [List.flatten_cons] at hstarts
        rcases prefix_append_cases hstarts with hshort | ⟨more, rfl⟩
        · by_cases hne : program = []
          · exact ⟨[], [], hne.symm, List.nil_prefix, .nil, by simp⟩
          · refine ⟨[program], [part], by simp, by simp, .cons hshort .nil, ?_⟩
            simpa using hpart.of_isPrefix hshort hne
        · obtain ⟨cuts, begun, rfl, hbegun, hall, hcuts⟩ :=
            ih (fun other hmem => h other (.tail part hmem))
              ((List.prefix_append_right_inj part).mp hstarts)
          refine ⟨part :: cuts, part :: begun, rfl, by simpa using hbegun,
            .cons List.prefix_rfl hall, ?_⟩
          rintro cut (_ | ⟨_, hmem⟩)
          · exact hpart
          · exact hcuts cut hmem
  obtain ⟨cuts, begun, rfl, hbegun, hall, hsections⟩ := hcuts
  rw [sections_flatten hsections]
  exact ⟨rfl, hsections, begun, hbegun, hall⟩

theorem ClassUnit.sections_code (unit : ClassUnit) :
    sections unit.code = unit.numbered.map unit.section := by
  rw [unit.code_eq_flatMap, List.flatMap_def]
  apply sections_flatten
  intro part hpart
  obtain ⟨numbered, _, rfl⟩ := List.mem_map.mp hpart
  exact unit.isSection numbered

end JackLang
