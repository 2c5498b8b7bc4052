import JackLang.Proofs.Output.Lines
import JackLang.Proofs.Output.Unlimited
import JackLang.Text.Blank

/-! # Programs, read back

An instruction is read from the parts that the blanks of its line keep apart. The first
part tells which form it has, and what follows is taken for what this form calls for, so
a name may look like an opcode, a segment or a number. A program whose names have no
blanks in them is read back from its text as it is.
-/

set_option autoImplicit false

namespace JackLang

/-- The parts of a line between its blanks. -/
def partsOf (line : String) : List String :=
  ((line.toList.splitOnP isBlank).filter (· ≠ [])).map String.ofList

def Segment.ofText? (text : String) : Option Segment :=
  [.constant, .argument, .local, .static, .this, .that, .pointer, .temp].find? (·.text = text)

def Operation.ofText? (text : String) : Option Operation :=
  [.add, .sub, .neg, .eq, .gt, .lt, .and, .or, .not].find? (·.text = text)

/-- The number that decimal digits stand for. -/
def readNumber? (text : String) : Option Nat :=
  if text ≠ "" ∧ text.toList.all Char.isDigit then some (decimalValue text.toList) else none

def readParts? : List String → Option Instruction
  | ["push", segment, index] => do pure (.push (← Segment.ofText? segment) (← readNumber? index))
  | ["pop", segment, index] => do pure (.pop (← Segment.ofText? segment) (← readNumber? index))
  | ["call", name, arguments] => do pure (.call name (← readNumber? arguments))
  | ["function", name, locals] => do pure (.function name (← readNumber? locals))
  | ["label", name] => some (.label name)
  | ["goto", target] => some (.goto target)
  | ["if-goto", target] => some (.ifGoto target)
  | ["return"] => some .return
  | [operation] => do pure (.operate (← Operation.ofText? operation))
  | _ => none

/-- Reads a line as the instruction that the grammar of the machine takes it for. -/
def readInstruction? (line : String) : Option Instruction :=
  readParts? (partsOf line)

/-- The text has characters, and no blank is one of them. -/
def Solid (text : String) : Prop :=
  text ≠ "" ∧ ∀ c ∈ text.toList, isBlank c = false

instance (text : String) : Decidable (Solid text) :=
  decidable_of_iff (text ≠ "" ∧ text.toList.all (isBlank · = false) = true) (by simp [Solid])

namespace Instruction

/-- The parts that an instruction is written with. -/
def parts : Instruction → List String
  | .push segment index => ["push", segment.text, toString index]
  | .pop segment index => ["pop", segment.text, toString index]
  | .operate operation => [operation.text]
  | .label name => ["label", name]
  | .goto target => ["goto", target]
  | .ifGoto target => ["if-goto", target]
  | .call name arguments => ["call", name, toString arguments]
  | .function name locals => ["function", name, toString locals]
  | .return => ["return"]

/-- The name or the label that an instruction bears. -/
def name? : Instruction → Option String
  | .label name => some name
  | .goto target => some target
  | .ifGoto target => some target
  | .call name _ => some name
  | .function name _ => some name
  | _ => none

end Instruction

section Parts

variable {first second third : String}

theorem Solid.unbroken (h : Solid first) : Unbroken first := by
  intro hmem
  have hblank := h.2 '\n' hmem
  revert hblank
  decide

theorem Solid.toList_ne_nil (h : Solid first) : first.toList ≠ [] :=
  fun hnil => h.1 (String.toList_eq_nil_iff.mp hnil)

theorem partsOf_solid (h : Solid first) : partsOf first = [first] := by
  rw [partsOf, List.splitOnP_eq_singleton h.2]
  simp [h.toList_ne_nil]

/-- A blank ends the first part of a line. -/
theorem partsOf_append (h : Solid first) (rest : String) :
    partsOf (first ++ " " ++ rest) = first :: partsOf rest := by
  have hline : (first ++ " " ++ rest).toList = first.toList ++ ' ' :: rest.toList := by simp
  rw [partsOf, hline,
    List.splitOnP_append_cons_of_forall_mem h.2 ' ' (by decide) rest.toList]
  simp [h.toList_ne_nil, partsOf]

/-- What has been joined with blanks falls into its parts again. -/
theorem partsOf_intercalate {parts : List String} (hne : parts ≠ [])
    (h : ∀ part ∈ parts, Solid part) : partsOf (" ".intercalate parts) = parts := by
  induction parts with
  | nil => exact absurd rfl hne
  | cons part rest ih =>
      obtain ⟨hpart, hrest⟩ := List.forall_mem_cons.mp h
      cases rest with
      | nil => rw [String.intercalate_singleton, partsOf_solid hpart]
      | cons next others =>
          rw [String.intercalate_cons_cons, partsOf_append hpart, ih (by simp) hrest]

theorem unbroken_intercalate {parts : List String} (h : ∀ part ∈ parts, Solid part) :
    Unbroken (" ".intercalate parts) := by
  induction parts with
  | nil => decide
  | cons part rest ih =>
      obtain ⟨hpart, hrest⟩ := List.forall_mem_cons.mp h
      cases rest with
      | nil =>
          rw [String.intercalate_singleton]
          exact hpart.unbroken
      | cons next others =>
          rw [String.intercalate_cons_cons, unbroken_append, unbroken_append]
          exact ⟨⟨hpart.unbroken, by decide⟩, ih hrest⟩

end Parts

section Numbers

theorem toList_toString (number : Nat) : (toString number).toList = Nat.toDigits 10 number := by
  rw [Nat.toString_eq_repr, Nat.repr_eq_ofList_toDigits, String.toList_ofList]

theorem isDigit_of_mem_toString {number : Nat} {c : Char} (h : c ∈ (toString number).toList) :
    c.isDigit = true := by
  rw [toList_toString] at h
  exact Nat.isDigit_of_mem_toDigits (by decide) (by decide) h

theorem toString_ne_empty (number : Nat) : toString number ≠ "" := by
  intro hempty
  have hdigits := toList_toString number
  rw [hempty] at hdigits
  exact Nat.toDigits_ne_nil hdigits.symm

theorem solid_toString (number : Nat) : Solid (toString number) :=
  ⟨toString_ne_empty number, fun _ hmem =>
    isBlank_of_isWordPart (isWordPart_of_isDigit (isDigit_of_mem_toString hmem))⟩

theorem readNumber?_toString (number : Nat) : readNumber? (toString number) = some number := by
  have hdigits : (toString number).toList.all Char.isDigit = true :=
    List.all_eq_true.mpr fun _ hmem => isDigit_of_mem_toString hmem
  have hvalue : decimalValue (toString number).toList = number := by
    rw [toList_toString]
    exact Nat.ofDigitChars_toDigits (by decide) (by decide)
  rw [readNumber?, if_pos ⟨toString_ne_empty number, hdigits⟩, hvalue]

end Numbers

namespace Instruction

variable {instruction : Instruction}

/-- The names and labels in a program have no blanks in them. -/
def AllSolid (program : List Instruction) : Prop :=
  ∀ instruction ∈ program, ∀ name, instruction.name? = some name → Solid name

theorem solid_segment (segment : Segment) : Solid segment.text := by
  cases segment <;> decide

theorem solid_operation (operation : Operation) : Solid operation.text := by
  cases operation <;> decide

theorem parts_ne_nil (instruction : Instruction) : instruction.parts ≠ [] := by
  cases instruction <;> exact List.cons_ne_nil _ _

theorem text_eq (instruction : Instruction) :
    instruction.text = " ".intercalate instruction.parts := by
  cases instruction with
  | operate operation => cases operation <;> rfl
  | «return» => rfl
  | _ =>
      simp [text, pieces, parts, String.join_cons, String.intercalate_cons_cons,
        ← String.append_assoc]

theorem solid_parts (h : ∀ name, instruction.name? = some name → Solid name) :
    ∀ part ∈ instruction.parts, Solid part := by
  have hopcode : ∀ opcode ∈ ["push", "pop", "label", "goto", "if-goto", "call", "function",
      "return"], Solid opcode := by decide
  have hnumber : ∀ number : Nat, Solid number.repr := solid_toString
  cases instruction <;> simp_all [parts, name?, solid_segment, solid_operation]

theorem readParts?_parts (instruction : Instruction) :
    readParts? instruction.parts = some instruction := by
  cases instruction with
  | push segment index =>
      have hsegment : Segment.ofText? segment.text = some segment := by cases segment <;> rfl
      rw [parts, readParts?, hsegment, readNumber?_toString]
      rfl
  | pop segment index =>
      have hsegment : Segment.ofText? segment.text = some segment := by cases segment <;> rfl
      rw [parts, readParts?, hsegment, readNumber?_toString]
      rfl
  | operate operation => cases operation <;> rfl
  | label name | goto target | ifGoto target | «return» => rfl
  | call name arguments | function name locals =>
      rw [parts, readParts?, readNumber?_toString]
      rfl

theorem readInstruction?_text (h : ∀ name, instruction.name? = some name → Solid name) :
    readInstruction? instruction.text = some instruction := by
  rw [readInstruction?, text_eq, partsOf_intercalate instruction.parts_ne_nil (solid_parts h),
    readParts?_parts]

theorem unbroken_text (h : ∀ name, instruction.name? = some name → Solid name) :
    Unbroken instruction.text := by
  rw [text_eq]
  exact unbroken_intercalate (solid_parts h)

end Instruction

/-- The text falls into complete lines, and each of them is read as the instruction of the
program in its place. -/
def ReadsAs (text : String) (program : List Instruction) : Prop :=
  text = String.join ((completeLines text).map (· ++ "\n")) ∧
    (completeLines text).map readInstruction? = program.map some

open Instruction (AllSolid)

section Programs

variable {program : List Instruction}

theorem listing_eq_join (program : List Instruction) :
    listing program = String.join ((program.map Instruction.text).map (· ++ "\n")) := by
  rw [listing, List.map_map]
  rfl

theorem completeLines_listing (h : AllSolid program) :
    completeLines (listing program) = program.map Instruction.text := by
  rw [listing_eq_join, completeLines_join]
  intro line hmem
  obtain ⟨instruction, hinstruction, rfl⟩ := List.mem_map.mp hmem
  exact Instruction.unbroken_text (h instruction hinstruction)

theorem listing_readsAs (h : AllSolid program) : ReadsAs (listing program) program := by
  rw [ReadsAs, completeLines_listing h]
  refine ⟨listing_eq_join program, ?_⟩
  rw [List.map_map]
  apply List.map_congr_left
  intro instruction hmem
  exact Instruction.readInstruction?_text (h instruction hmem)

end Programs

namespace ProgramWriter

/-- Writes instructions one behind the other, up to the first one that fails. -/
def writeEach (writer : ProgramWriter) : List Instruction → ProgramWriter × Bool
  | [] => (writer, true)
  | instruction :: rest =>
      match writer.write instruction with
      | (next, true) => next.writeEach rest
      | (next, false) => (next, false)

theorem written_of_write {writer next : ProgramWriter} {instruction : Instruction}
    (h : writer.write instruction = (next, true)) : next.written = writer.written + 1 := by
  rw [write] at h
  split at h <;> cases h
  rfl

theorem writeEach_of_unlimited {writer : ProgramWriter} (h : writer.outlet.sink.room = none)
    (program : List Instruction) :
    ∃ next, writer.writeEach program = (next, true) ∧
      next.written = writer.written + program.length ∧
      writer.outlet.Takes (listing program) next.outlet := by
  induction program generalizing writer with
  | nil => exact ⟨writer, rfl, rfl, .nothing h⟩
  | cons instruction rest ih =>
      obtain ⟨second, hsecond, htakes⟩ := write_of_unlimited h instruction
      obtain ⟨last, hlast, hcount, hmore⟩ := ih htakes.unlimited
      refine ⟨last, by rw [writeEach, hsecond]; exact hlast, ?_, ?_⟩
      · rw [hcount, written_of_write hsecond, List.length_cons]
        omega
      · rw [← List.singleton_append, listing_append]
        exact htakes.trans hmore

/-- A sink that works takes the listing of the program, and the writer has counted it. -/
theorem writeEach_toSink (program : List Instruction) :
    ∃ written closed, (toSink .unlimited).writeEach program = (written, true) ∧
      written.written = program.length ∧ written.flush = (closed, true) ∧
      closed.written = program.length ∧ closed.outlet.taken = listing program := by
  have hroom : (toSink .unlimited).outlet.sink.room = none := rfl
  obtain ⟨written, hwritten, hcount, htakes⟩ := writeEach_of_unlimited hroom program
  have hzero : (toSink .unlimited).written = 0 := rfl
  rw [hzero, Nat.zero_add] at hcount
  have hflush : written.flush = (⟨⟨⟨written.outlet.held, none⟩, ""⟩, written.written⟩, true) := by
    rw [flush, Outlet.flush_of_unlimited htakes.unlimited]
  refine ⟨written, _, hwritten, hcount, hflush, hcount, ?_⟩
  rw [Outlet.taken, htakes.held_eq]
  exact String.empty_append

end ProgramWriter

end JackLang
