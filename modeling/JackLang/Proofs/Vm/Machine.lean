import JackLang.Vm.Instruction
import Mathlib.Logic.Function.Basic
import Mathlib.Logic.Relation

/-! # Runs of the stack machine

The machine works on words of sixteen bits. What the subroutines do that are
called is left open: a call takes its arguments from the stack, puts the result
there, and may change the memory and the `temp` segment, but it gives the frame
of its caller back as it was.
-/

set_option autoImplicit false

namespace JackLang

abbrev Value := BitVec 16

/-- The memory that the subroutines share. -/
structure Memory where
  heap : Value → Value
  statics : Nat → Value

def Memory.put (memory : Memory) (address value : Value) : Memory :=
  { memory with heap := Function.update memory.heap address value }

/-- The machine in the frame of a subroutine. The top of the stack comes first;
`object` and `array` are what the `this` and `that` segments start at. -/
structure Machine where
  stack : List Value
  arguments : Nat → Value
  locals : Nat → Value
  object : Value
  array : Value
  temp : Nat → Value
  memory : Memory

/-- What the subroutines do that can be called: their results and the memory they
leave, and the `temp` segment that they leave. -/
structure Routines where
  result : String → List Value → Memory → Value × Memory
  temp : String → List Value → Memory → (Nat → Value) → Nat → Value

/-- The word for a truth value: all of its bits are set, or none. -/
def flag (holds : Prop) [Decidable holds] : Value :=
  if holds then -1 else 0

/-- The stack behind an operation, if its operands are there. -/
def Operation.perform? : Operation → List Value → Option (List Value)
  | .neg, operand :: rest => some (-operand :: rest)
  | .not, operand :: rest => some (~~~operand :: rest)
  | .add, last :: first :: rest => some ((first + last) :: rest)
  | .sub, last :: first :: rest => some ((first - last) :: rest)
  | .and, last :: first :: rest => some ((first &&& last) :: rest)
  | .or, last :: first :: rest => some ((first ||| last) :: rest)
  | .eq, last :: first :: rest => some (flag (first = last) :: rest)
  | .gt, last :: first :: rest => some (flag (last.toInt < first.toInt) :: rest)
  | .lt, last :: first :: rest => some (flag (first.toInt < last.toInt) :: rest)
  | _, _ => none

namespace Machine

def read? (machine : Machine) (index : Nat) : Segment → Option Value
  | .constant => some (BitVec.ofNat 16 index)
  | .argument => some (machine.arguments index)
  | .local => some (machine.locals index)
  | .static => some (machine.memory.statics index)
  | .this => some (machine.memory.heap (machine.object + BitVec.ofNat 16 index))
  | .that => some (machine.memory.heap (machine.array + BitVec.ofNat 16 index))
  | .pointer =>
      match index with
      | 0 => some machine.object
      | 1 => some machine.array
      | _ => none
  | .temp => some (machine.temp index)

def write? (machine : Machine) (index : Nat) (value : Value) : Segment → Option Machine
  | .constant => none
  | .argument =>
      some { machine with arguments := Function.update machine.arguments index value }
  | .local => some { machine with locals := Function.update machine.locals index value }
  | .static =>
      some { machine with
        memory :=
          { machine.memory with
            statics := Function.update machine.memory.statics index value } }
  | .this =>
      some { machine with
        memory := machine.memory.put (machine.object + BitVec.ofNat 16 index) value }
  | .that =>
      some { machine with
        memory := machine.memory.put (machine.array + BitVec.ofNat 16 index) value }
  | .pointer =>
      match index with
      | 0 => some { machine with object := value }
      | 1 => some { machine with array := value }
      | _ => none
  | .temp => some { machine with temp := Function.update machine.temp index value }

/-- Calls a subroutine with arguments that lie on the stack, the last one on top. -/
def call (routines : Routines) (machine : Machine) (name : String) (count : Nat) : Machine :=
  let passed := (machine.stack.take count).reverse
  let result := routines.result name passed machine.memory
  { machine with
    stack := result.1 :: machine.stack.drop count
    temp := routines.temp name passed machine.memory machine.temp
    memory := result.2 }

/-- Carries out an instruction that does not jump. -/
def execute? (routines : Routines) (machine : Machine) : Instruction → Option Machine
  | .push segment index =>
      (machine.read? index segment).map fun value =>
        { machine with stack := value :: machine.stack }
  | .pop segment index =>
      match machine.stack with
      | [] => none
      | value :: rest => { machine with stack := rest }.write? index value segment
  | .operate operation =>
      (operation.perform? machine.stack).map fun stack => { machine with stack := stack }
  | .label _ => some machine
  | .call name count =>
      if count ≤ machine.stack.length then some (machine.call routines name count) else none
  | .goto _ => none
  | .ifGoto _ => none
  | .function _ _ => none
  | .return => none

/-- Carries out code without jumps. -/
def run? (routines : Routines) (machine : Machine) : List Instruction → Option Machine
  | [] => some machine
  | instruction :: rest =>
      (machine.execute? routines instruction).bind fun next => next.run? routines rest

theorem run?_append (routines : Routines) (machine : Machine)
    (first second : List Instruction) :
    machine.run? routines (first ++ second) =
      (machine.run? routines first).bind fun next => next.run? routines second := by
  induction first generalizing machine with
  | nil => rfl
  | cons instruction rest ih =>
      rw [List.cons_append, run?, run?]
      cases machine.execute? routines instruction with
      | none => rfl
      | some next => exact ih next

end Machine

/-- Where a label stands in the code of a function. -/
def landing? (code : List Instruction) (target : String) : Option Nat :=
  code.idxOf? (.label target)

/-- One step in the code of a function, from a position in it. A conditional jump
takes place unless the word on top of the stack is zero. -/
def step? (routines : Routines) (code : List Instruction) (position : Nat)
    (machine : Machine) : Option (Nat × Machine) :=
  match code[position]? with
  | none => none
  | some (.goto target) => (landing? code target).map fun landing => (landing, machine)
  | some (.ifGoto target) =>
      match machine.stack with
      | [] => none
      | value :: rest =>
          if value = 0 then some (position + 1, { machine with stack := rest })
          else (landing? code target).map fun landing => (landing, { machine with stack := rest })
  | some instruction =>
      (machine.execute? routines instruction).map fun next => (position + 1, next)

/-- The machine gets from one position in the code of a function to another. -/
def Reaches (routines : Routines) (code : List Instruction) :
    Nat × Machine → Nat × Machine → Prop :=
  Relation.ReflTransGen fun before behind =>
    step? routines code before.1 before.2 = some behind

def Instruction.label? : Instruction → Option String
  | .label name => some name
  | _ => none

def labelsOf (code : List Instruction) : List String :=
  code.filterMap Instruction.label?

theorem mem_labelsOf {code : List Instruction} {name : String} :
    name ∈ labelsOf code ↔ .label name ∈ code := by
  rw [labelsOf, List.mem_filterMap]
  constructor
  · rintro ⟨instruction, hmem, hname⟩
    cases instruction with
    | label other =>
        cases hname
        exact hmem
    | _ => cases hname
  · intro hmem
    exact ⟨_, hmem, rfl⟩

/-- Among distinct labels, a jump lands where its target stands. -/
theorem landing?_eq {code before : List Instruction} {target : String}
    (hlabels : (labelsOf code).Nodup) (h : before ++ [Instruction.label target] <+: code) :
    landing? code target = some before.length := by
  obtain ⟨behind, rfl⟩ := h
  have hnew : .label target ∉ before := by
    intro hmem
    rw [labelsOf, List.filterMap_append, List.filterMap_append, List.append_assoc,
      List.nodup_append] at hlabels
    exact hlabels.2.2 target (mem_labelsOf.mpr hmem) target (by simp [Instruction.label?]) rfl
  rw [landing?, List.idxOf?, List.append_assoc, List.findIdx?_append,
    List.findIdx?_eq_none_iff.mpr]
  · simp [List.findIdx?_cons]
  · intro instruction hmem
    have hne : instruction ≠ .label target := by
      rintro rfl
      exact hnew hmem
    simpa using hne

theorem getElem?_of_prefix {code front : List Instruction} {instruction : Instruction}
    (h : front ++ [instruction] <+: code) : code[front.length]? = some instruction := by
  obtain ⟨back, rfl⟩ := h
  simp

namespace Reaches

variable {routines : Routines} {code front before : List Instruction}
variable {machine : Machine} {target : String}

theorem refl (configuration : Nat × Machine) :
    Reaches routines code configuration configuration :=
  Relation.ReflTransGen.refl

theorem trans {first second third : Nat × Machine} (h : Reaches routines code first second)
    (hmore : Reaches routines code second third) : Reaches routines code first third :=
  Relation.ReflTransGen.trans h hmore

theorem of_step {next : Nat × Machine} {position : Nat}
    (h : step? routines code position machine = some next) :
    Reaches routines code (position, machine) next :=
  Relation.ReflTransGen.single h

/-- An instruction that does not jump leads to the next one. -/
theorem of_execute {instruction : Instruction} {next : Machine}
    (hcode : front ++ [instruction] <+: code)
    (h : machine.execute? routines instruction = some next) :
    Reaches routines code (front.length, machine) ((front ++ [instruction]).length, next) := by
  apply of_step
  rw [step?, getElem?_of_prefix hcode, List.length_append, List.length_singleton]
  cases instruction with
  | goto name | ifGoto name => cases h
  | _ => simp [h]

theorem of_label (hcode : front ++ [Instruction.label target] <+: code) :
    Reaches routines code (front.length, machine)
      ((front ++ [Instruction.label target]).length, machine) :=
  of_execute hcode rfl

/-- Code without jumps leads to its end. -/
theorem of_run {part : List Instruction} {last : Machine} (hcode : front ++ part <+: code)
    (h : machine.run? routines part = some last) :
    Reaches routines code (front.length, machine) ((front ++ part).length, last) := by
  induction part generalizing front machine with
  | nil =>
      cases h
      rw [List.append_nil]
      exact refl _
  | cons instruction rest ih =>
      rw [Machine.run?, Option.bind_eq_some_iff] at h
      obtain ⟨next, hnext, hrest⟩ := h
      have hsplit : front ++ instruction :: rest = front ++ [instruction] ++ rest := by simp
      rw [hsplit] at hcode ⊢
      have hfirst := (List.prefix_append (front ++ [instruction]) rest).trans hcode
      exact (of_execute hfirst hnext).trans (ih hcode hrest)

section Jumps

variable (hlabels : (labelsOf code).Nodup)
variable (htarget : before ++ [Instruction.label target] <+: code)

include hlabels htarget

theorem of_goto (hjump : front ++ [Instruction.goto target] <+: code) :
    Reaches routines code (front.length, machine) (before.length, machine) := by
  apply of_step
  simp only [step?, getElem?_of_prefix hjump, landing?_eq hlabels htarget, Option.map_some]

theorem of_goto_label (hjump : front ++ [Instruction.goto target] <+: code) :
    Reaches routines code (front.length, machine)
      ((before ++ [Instruction.label target]).length, machine) :=
  (of_goto hlabels htarget hjump).trans (of_label htarget)

theorem of_ifGoto {value : Value} {rest : List Value} (hvalue : value ≠ 0)
    (hstack : machine.stack = value :: rest)
    (hjump : front ++ [Instruction.ifGoto target] <+: code) :
    Reaches routines code (front.length, machine)
      ((before ++ [Instruction.label target]).length, { machine with stack := rest }) := by
  refine trans (of_step ?_) (of_label htarget)
  simp only [step?, getElem?_of_prefix hjump, hstack, if_neg hvalue,
    landing?_eq hlabels htarget, Option.map_some]

end Jumps

theorem of_ifGoto_zero {rest : List Value} (hstack : machine.stack = 0 :: rest)
    (hjump : front ++ [Instruction.ifGoto target] <+: code) :
    Reaches routines code (front.length, machine)
      ((front ++ [Instruction.ifGoto target]).length, { machine with stack := rest }) := by
  apply of_step
  simp only [step?, getElem?_of_prefix hjump, hstack, if_true, List.length_append,
    List.length_singleton]

end Reaches

end JackLang
