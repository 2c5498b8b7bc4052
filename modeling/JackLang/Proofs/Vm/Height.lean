import JackLang.Vm.Instruction

/-! # Heights of the operand stack

How many operands an instruction takes from the stack of its frame and leaves
there. Code that climbs from one height to another finds the operands it needs,
and all the ways to a label agree, since labels stand where the stack is empty.
-/

set_option autoImplicit false

namespace JackLang

namespace Operation

/-- How many operands an operation takes. It leaves one. -/
def arity : Operation → Nat
  | .neg => 1
  | .not => 1
  | _ => 2

end Operation

namespace Instruction

def takes : Instruction → Nat
  | .push _ _ => 0
  | .pop _ _ => 1
  | .operate operation => operation.arity
  | .label _ => 0
  | .goto _ => 0
  | .ifGoto _ => 1
  | .call _ arguments => arguments
  | .function _ _ => 0
  | .return => 1

def leaves : Instruction → Nat
  | .push _ _ => 1
  | .operate _ => 1
  | .call _ _ => 1
  | _ => 0

/-- The height behind an instruction. -/
def after (instruction : Instruction) (height : Nat) : Nat :=
  height - instruction.takes + instruction.leaves

def target? : Instruction → Option String
  | .goto target => some target
  | .ifGoto target => some target
  | _ => none

/-- Whether the next instruction may follow. -/
def fallsThrough : Instruction → Bool
  | .goto _ => false
  | .return => false
  | _ => true

/-- Whether an instruction inside a function may stand at a height: it finds its
operands, and jumps, labels and returns leave nothing else on the stack. -/
def Fits (height : Nat) : Instruction → Prop
  | .label _ => height = 0
  | .goto _ => height = 0
  | .ifGoto _ => height = 1
  | .return => height = 1
  | .function _ _ => False
  | .push _ _ => True
  | .pop _ _ => 1 ≤ height
  | .operate operation => operation.arity ≤ height
  | .call _ arguments => arguments ≤ height

theorem Fits.takes_le {height : Nat} {instruction : Instruction}
    (h : instruction.Fits height) : instruction.takes ≤ height := by
  cases instruction with
  | push | label | goto => exact Nat.zero_le _
  | pop | operate | call => exact h
  | ifGoto | «return» => exact Nat.le_of_eq h.symm
  | function => exact h.elim

end Instruction

/-- Operand heights at the positions of a function's code, the first of which is
that of its `function` instruction. -/
structure Heights (code : List Instruction) (height : Nat → Nat) : Prop where
  start : height 1 = 0
  takes : ∀ {position : Nat} {instruction : Instruction},
    code[position]? = some instruction → instruction.takes ≤ height position
  falls : ∀ {position : Nat} {instruction : Instruction},
    code[position]? = some instruction → instruction.fallsThrough = true →
      height (position + 1) = instruction.after (height position)
  jumps : ∀ {position landing : Nat} {instruction : Instruction} {target : String},
    code[position]? = some instruction → instruction.target? = some target →
      code[landing]? = some (.label target) →
        height landing = instruction.after (height position)
  label : ∀ {position : Nat} {name : String},
    code[position]? = some (.label name) → height position = 0
  «return» : ∀ {position : Nat}, code[position]? = some .return → height position = 1

/-- Code that leads from one height to another. -/
def Climbs (height : Nat) : List Instruction → Nat → Prop
  | [], last => last = height
  | instruction :: rest, last =>
      instruction.Fits height ∧ Climbs (instruction.after height) rest last

namespace Climbs

@[simp] theorem nil_iff {height last : Nat} : Climbs height [] last ↔ last = height := Iff.rfl

@[simp] theorem cons_iff {height last : Nat} {instruction : Instruction}
    {rest : List Instruction} :
    Climbs height (instruction :: rest) last ↔
      instruction.Fits height ∧ Climbs (instruction.after height) rest last := Iff.rfl

theorem append_iff {height last : Nat} {first second : List Instruction} :
    Climbs height (first ++ second) last ↔
      ∃ middle, Climbs height first middle ∧ Climbs middle second last := by
  induction first generalizing height with
  | nil => simp
  | cons instruction rest ih => simp [ih, and_assoc]

theorem append {height middle last : Nat} {first second : List Instruction}
    (h : Climbs height first middle) (hmore : Climbs middle second last) :
    Climbs height (first ++ second) last :=
  append_iff.mpr ⟨middle, h, hmore⟩

end Climbs

/-- The height at a position, if each instruction follows the one before it. -/
def heightAt (code : List Instruction) (position : Nat) : Nat :=
  (code.take position).foldl (fun height instruction => instruction.after height) 0

theorem heightAt_succ {code : List Instruction} {position : Nat} {instruction : Instruction}
    (h : code[position]? = some instruction) :
    heightAt code (position + 1) = instruction.after (heightAt code position) := by
  rw [heightAt, heightAt, List.take_add_one, h]
  simp

theorem Climbs.foldl_eq {height last : Nat} {code : List Instruction}
    (h : Climbs height code last) :
    code.foldl (fun height instruction => instruction.after height) height = last := by
  induction code generalizing height with
  | nil => exact (nil_iff.mp h).symm
  | cons instruction rest ih => exact ih h.2

section Frame

variable {name : String} {locals : Nat} {body front back : List Instruction} {last : Nat}

theorem heightAt_of_climbs (h : Climbs 0 front last) :
    heightAt (.function name locals :: front ++ back)
      (Instruction.function name locals :: front).length = last := by
  rw [heightAt, List.take_left, List.foldl_cons]
  exact h.foldl_eq

theorem Climbs.fits_heightAt (h : Climbs 0 body last) {position : Nat}
    {instruction : Instruction} (hposition : body[position]? = some instruction) :
    instruction.Fits (heightAt (.function name locals :: body) (position + 1)) := by
  obtain ⟨hlength, hinstruction⟩ := List.getElem?_eq_some_iff.mp hposition
  have hsplit : body = body.take position ++ instruction :: body.drop (position + 1) := by
    rw [← hinstruction, ← List.drop_eq_getElem_cons hlength, List.take_append_drop]
  rw [hsplit] at h
  obtain ⟨middle, hfront, hback⟩ := append_iff.mp h
  have hheight : heightAt (.function name locals :: body) (position + 1) = middle := by
    have hfold := hfront.foldl_eq
    rw [heightAt, List.take_succ_cons, List.foldl_cons]
    exact hfold
  rw [hheight]
  exact hback.1

/-- A body that climbs from an empty stack has heights at all positions of its
function. -/
theorem Climbs.heights (h : Climbs 0 body last) :
    Heights (.function name locals :: body) (heightAt (.function name locals :: body)) := by
  have hfits : ∀ {position : Nat} {instruction : Instruction},
      (Instruction.function name locals :: body)[position]? = some instruction →
      instruction = .function name locals ∨
        instruction.Fits (heightAt (.function name locals :: body) position) := by
    intro position instruction hposition
    cases position with
    | zero => exact .inl (Option.some.inj hposition).symm
    | succ position => exact .inr (h.fits_heightAt hposition)
  constructor
  · rfl
  · intro position instruction hposition
    rcases hfits hposition with rfl | hfit
    · exact Nat.zero_le _
    · exact hfit.takes_le
  · intro position instruction hposition _
    exact heightAt_succ hposition
  · intro position landing instruction target hposition htarget hlanding
    rcases hfits hlanding with hfunction | hlabel
    · cases hfunction
    · rcases hfits hposition with rfl | hfit
      · cases htarget
      · rw [show heightAt _ landing = 0 from hlabel]
        cases instruction with
        | goto name =>
            rw [show heightAt _ position = 0 from hfit]
            rfl
        | ifGoto name =>
            rw [show heightAt _ position = 1 from hfit]
            rfl
        | _ => cases htarget
  · intro position name hposition
    rcases hfits hposition with hfunction | hlabel
    · cases hfunction
    · exact hlabel
  · intro position hposition
    rcases hfits hposition with hfunction | hreturn
    · cases hfunction
    · exact hreturn

end Frame

end JackLang
