import JackLang.Proofs.Compilation.Instructions
import JackLang.Proofs.Compilation.Sections
import JackLang.Proofs.PartialPrograms
import JackLang.Proofs.Printing
import JackLang.Proofs.Vm.Reading

/-! # Names in programs

The names that a program is given are put together from the words of its source: that of a
function from the class and an identifier, that of a call from a class, a declared type or
a receiver and an identifier. So each of them is two words with a dot between them, also
where the program is cut short.
-/

set_option autoImplicit false

namespace JackLang

/-- Letters, digits and underscores. -/
def IsName (text : String) : Prop :=
  text ≠ "" ∧ ∀ c ∈ text.toList, isWordPart c = true

instance (text : String) : Decidable (IsName text) :=
  decidable_of_iff (text ≠ "" ∧ text.toList.all isWordPart = true) (by simp [IsName])

/-- Two words joined by a dot. -/
def IsQualified (text : String) : Prop :=
  ∃ first second, IsName first ∧ IsName second ∧ text = first ++ "." ++ second

/-- What an instruction of a class is named: a function by an identifier of the class, and
what is called by two words. Labels are single words. -/
def Instruction.Named (className : String) : Instruction → Prop
  | .function name _ =>
      ∃ own, (Word.identifier own).Printable ∧ name = className ++ "." ++ own
  | .call name _ => IsQualified name
  | .label name => IsName name
  | .goto target => IsName target
  | .ifGoto target => IsName target
  | _ => True

def AllNamed (className : String) (code : List Instruction) : Prop :=
  ∀ instruction ∈ code, instruction.Named className

/-- The words are valid tokens of the language. -/
def AllPrintable (words : List Word) : Prop := ∀ word ∈ words, word.Printable

section Lists

variable {className : String}

@[simp] theorem allNamed_nil : AllNamed className [] := by
  simp [AllNamed]

@[simp] theorem allNamed_cons (instruction : Instruction) (code : List Instruction) :
    AllNamed className (instruction :: code) ↔
      instruction.Named className ∧ AllNamed className code := by
  simp [AllNamed]

@[simp] theorem allNamed_append (first second : List Instruction) :
    AllNamed className (first ++ second) ↔
      AllNamed className first ∧ AllNamed className second := by
  simp [AllNamed, or_imp, forall_and]

@[simp] theorem allPrintable_cons (word : Word) (words : List Word) :
    AllPrintable (word :: words) ↔ word.Printable ∧ AllPrintable words := by
  simp [AllPrintable]

@[simp] theorem allPrintable_append (first second : List Word) :
    AllPrintable (first ++ second) ↔ AllPrintable first ∧ AllPrintable second := by
  simp [AllPrintable, or_imp, forall_and]

@[simp] theorem allPrintable_nil : AllPrintable [] := by
  simp [AllPrintable]

@[simp] theorem allPrintable_flatMap {α : Type} (items : List α) (words : α → List Word) :
    AllPrintable (items.flatMap words) ↔ ∀ item ∈ items, AllPrintable (words item) := by
  simp only [AllPrintable, List.mem_flatMap, forall_exists_index, and_imp]
  exact ⟨fun h item hitem word hword => h word item hitem hword,
    fun h word item hitem hword => h item hitem word hword⟩

end Lists

attribute [simp] Word.Printable.keyword Word.Printable.symbol

namespace IsName

variable {text : String}

theorem solid (h : IsName text) : Solid text :=
  ⟨h.1, fun c hmem => isBlank_of_isWordPart (h.2 c hmem)⟩

theorem of_identifier {name : String} (h : (Word.identifier name).Printable) : IsName name := by
  generalize hword : Word.identifier name = word at h
  cases h with
  | keyword reserved | symbol mark | integer hne hdigits hvalue | string hcontent => cases hword
  | @identifier first rest hfirst hrest hname =>
      obtain rfl : name = String.ofList (first :: rest) := by cases hword; rfl
      refine ⟨by simp, ?_⟩
      rw [String.toList_ofList]
      exact List.forall_mem_cons.mpr ⟨isWordPart_of_isWordStart hfirst, hrest⟩

theorem of_type {type : TypeName} (h : type.word.Printable) : IsName type.text := by
  cases type with
  | int | char | boolean => decide
  | named name => exact of_identifier h

theorem label (family : LabelFamily) (number : Nat) : IsName (family.label number) := by
  have hfamily : IsName family.text := by cases family <;> decide
  constructor
  · rw [LabelFamily.label, ne_eq, String.append_eq_empty_iff]
    exact fun hempty => hfamily.1 hempty.1
  · intro c hmem
    rw [LabelFamily.label, String.toList_append, List.mem_append] at hmem
    rcases hmem with hmem | hmem
    · exact hfamily.2 c hmem
    · exact isWordPart_of_isDigit (isDigit_of_mem_toString hmem)

end IsName

theorem IsQualified.solid {text : String} (h : IsQualified text) : Solid text := by
  obtain ⟨first, second, hfirst, hsecond, rfl⟩ := h
  refine ⟨by simp, ?_⟩
  intro c hmem
  simp only [String.toList_append, List.mem_append] at hmem
  rcases hmem with (hmem | hmem) | hmem
  · exact hfirst.solid.2 c hmem
  · rw [List.mem_singleton.mp hmem]
    decide
  · exact hsecond.solid.2 c hmem

theorem AllNamed.allSolid {className : String} {code : List Instruction}
    (hclass : IsName className) (h : AllNamed className code) : Instruction.AllSolid code := by
  intro instruction hmem name hname
  have hnamed := h instruction hmem
  cases instruction with
  | push segment index | pop segment index | operate operation | «return» => cases hname
  | label own | goto own | ifGoto own =>
      cases hname
      exact IsName.solid hnamed
  | call own count =>
      cases hname
      exact IsQualified.solid hnamed
  | function own count =>
      cases hname
      obtain ⟨identifier, hidentifier, rfl⟩ := hnamed
      exact IsQualified.solid ⟨className, identifier, hclass, .of_identifier hidentifier, rfl⟩

/-- The class and the types of the variables in scope are words. -/
structure Surroundings.Named (around : Surroundings) : Prop where
  className : IsName around.className
  types : ∀ {name found}, around.resolve? name = some found → IsName found.type

section Code

variable {around : Surroundings} {className : String}

theorem allNamed_withVariable {name : String} {code : Variable → Instruction}
    (h : ∀ found, (code found).Named className) :
    AllNamed className (around.withVariable name code) :=
  Surroundings.forall_mem_withVariable fun found _ => h found

theorem allNamed_load (name : String) : AllNamed className (around.load name) :=
  allNamed_withVariable fun _ => trivial

theorem allNamed_store (name : String) : AllNamed className (around.store name) :=
  allNamed_withVariable fun _ => trivial

theorem IsQualified.runtime {name : String}
    (h : name ∈ ["Math.multiply", "Math.divide", "Memory.alloc", "String.new",
      "String.appendChar"]) : IsQualified name := by
  simp only [List.mem_cons, List.not_mem_nil, or_false] at h
  rcases h with rfl | rfl | rfl | rfl | rfl
  · exact ⟨"Math", "multiply", by decide, by decide, rfl⟩
  · exact ⟨"Math", "divide", by decide, by decide, rfl⟩
  · exact ⟨"Memory", "alloc", by decide, by decide, rfl⟩
  · exact ⟨"String", "new", by decide, by decide, rfl⟩
  · exact ⟨"String", "appendChar", by decide, by decide, rfl⟩

theorem allNamed_charactersCode (content : String) :
    AllNamed className (charactersCode content) := by
  have hcharacters : AllNamed className (content.toList.flatMap fun c =>
      [.push .constant c.toNat, .call "String.appendChar" 2]) :=
    forall_mem_characters (fun _ _ => trivial) (IsQualified.runtime (by simp))
  simp [charactersCode, hcharacters, Instruction.Named, IsQualified.runtime]

theorem BinaryOperator.named_code (operator : BinaryOperator) :
    operator.code.Named className := by
  cases operator <;> first | trivial | exact IsQualified.runtime (by simp)

theorem UnaryOperator.named_code (operator : UnaryOperator) :
    operator.code.Named className := by
  cases operator <;> trivial

theorem Surroundings.Named.receiverClass (haround : around.Named) {receiver : String}
    (h : (Word.identifier receiver).Printable) : IsName (around.receiverClass receiver) := by
  rw [Surroundings.receiverClass]
  split
  · rename_i found hfound
    exact haround.types hfound
  · exact .of_identifier h

mutual

theorem Expression.named (haround : around.Named) (expression : Expression)
    (h : AllPrintable expression.words) : AllNamed className (expression.code around) := by
  match expression with
  | .single term => exact term.named haround (by simpa using h)
  | .operate first operator last =>
      obtain ⟨hfirst, hlast⟩ : AllPrintable first.words ∧ AllPrintable last.words := by
        simpa using h
      simp [Expression.code, first.named haround hfirst, last.named haround hlast,
        operator.named_code]

theorem Term.named (haround : around.Named) (term : Term) (h : AllPrintable term.words) :
    AllNamed className (term.code around) := by
  match term with
  | .integer _ | .falseConstant | .nullConstant | .trueConstant | .thisConstant =>
      simp [Term.code, Instruction.Named]
  | .string content => exact allNamed_charactersCode content
  | .parenthesized inner => exact inner.named haround (by simpa using h)
  | .unary operator operand =>
      have hoperand : AllPrintable operand.words := by simpa using h
      simp [Term.code, operand.named haround hoperand, operator.named_code]
  | .name name => exact allNamed_load name
  | .element array index =>
      obtain ⟨_, hindex⟩ : (Word.identifier array).Printable ∧ AllPrintable index.words := by
        simpa using h
      simp [Term.code, allNamed_load, index.named haround hindex, Instruction.Named]
  | .ownCall name arguments =>
      obtain ⟨hname, harguments⟩ :
          (Word.identifier name).Printable ∧ AllPrintable arguments.words := by simpa using h
      have hcalled : IsQualified (around.className ++ "." ++ name) :=
        ⟨_, _, haround.className, .of_identifier hname, rfl⟩
      simp [Term.code, ownCallCode, arguments.named haround harguments, Instruction.Named, hcalled]
  | .memberCall receiver name arguments =>
      obtain ⟨hreceiver, hname, harguments⟩ : (Word.identifier receiver).Printable ∧
          (Word.identifier name).Printable ∧ AllPrintable arguments.words := by simpa using h
      have hcalled : IsQualified (around.receiverClass receiver ++ "." ++ name) :=
        ⟨_, _, haround.receiverClass hreceiver, .of_identifier hname, rfl⟩
      simp [Term.code, memberCallCode_eq, allNamed_load, arguments.named haround harguments,
        Instruction.Named, hcalled]

theorem Arguments.named (haround : around.Named) (arguments : Arguments)
    (h : AllPrintable arguments.words) : AllNamed className (arguments.code around) := by
  match arguments with
  | .none => exact allNamed_nil
  | .some list => exact list.named haround (by simpa using h)

theorem ArgumentList.named (haround : around.Named) (list : ArgumentList)
    (h : AllPrintable list.words) : AllNamed className (list.code around) := by
  match list with
  | .single argument => exact argument.named haround (by simpa using h)
  | .append before last =>
      obtain ⟨hbefore, hlast⟩ : AllPrintable before.words ∧ AllPrintable last.words := by
        simpa using h
      simp [ArgumentList.code, before.named haround hbefore, last.named haround hlast]

end

theorem Call.named (haround : around.Named) (call : Call) (h : AllPrintable call.words) :
    AllNamed className (call.code around) := by
  cases call with
  | own name arguments => exact Term.named haround (.ownCall name arguments) h
  | member receiver name arguments =>
      exact Term.named haround (.memberCall receiver name arguments) h

mutual

theorem Statement.named (haround : around.Named) (statement : Statement) (number : Nat)
    (h : AllPrintable statement.words) : AllNamed className (statement.code around number) := by
  match statement with
  | .assign target value =>
      obtain ⟨_, hvalue⟩ : (Word.identifier target).Printable ∧ AllPrintable value.words := by
        simpa using h
      simp [Statement.code, value.named haround hvalue, allNamed_store]
  | .assignElement array index value =>
      obtain ⟨_, hindex, hvalue⟩ : (Word.identifier array).Printable ∧
          AllPrintable index.words ∧ AllPrintable value.words := by simpa using h
      simp [Statement.code, allNamed_load, index.named haround hindex,
        value.named haround hvalue, Instruction.Named]
  | .conditional condition body =>
      obtain ⟨hcondition, hbody⟩ : AllPrintable condition.words ∧ AllPrintable body.words := by
        simpa using h
      simp [Statement.code, conditionalCode, condition.named haround hcondition,
        body.named haround _ hbody, Instruction.Named, IsName.label]
  | .alternative condition first second =>
      obtain ⟨hcondition, hfirst, hsecond⟩ : AllPrintable condition.words ∧
          AllPrintable first.words ∧ AllPrintable second.words := by simpa using h
      simp [Statement.code, conditionalCode, condition.named haround hcondition,
        first.named haround _ hfirst, second.named haround _ hsecond, Instruction.Named,
        IsName.label]
  | .loop condition body =>
      obtain ⟨hcondition, hbody⟩ : AllPrintable condition.words ∧ AllPrintable body.words := by
        simpa using h
      simp [Statement.code, loopCode, condition.named haround hcondition,
        body.named haround _ hbody, Instruction.Named, IsName.label]
  | .call call =>
      simp [Statement.code, call.named haround (by simpa using h), Instruction.Named]
  | .returnNothing => simp [Statement.code, Instruction.Named]
  | .returnValue value =>
      simp [Statement.code, value.named haround (by simpa using h), Instruction.Named]

theorem Statements.named (haround : around.Named) (statements : Statements) (number : Nat)
    (h : AllPrintable statements.words) :
    AllNamed className (statements.code around number) := by
  match statements with
  | .nil => exact allNamed_nil
  | .cons first rest =>
      obtain ⟨hfirst, hrest⟩ : AllPrintable first.words ∧ AllPrintable rest.words := by
        simpa using h
      simp [Statements.code, first.named haround number hfirst, rest.named haround _ hrest]

end

end Code

section Units

variable {unit : ClassUnit} {subroutine : Subroutine}

/-- What is printable of a unit: its name, its declarations and its subroutines. -/
theorem ClassUnit.allPrintable_words :
    AllPrintable unit.words ↔ (Word.identifier unit.name).Printable ∧
      (∀ declaration ∈ unit.declarations, AllPrintable declaration.words) ∧
      ∀ subroutine ∈ unit.subroutines, AllPrintable subroutine.words := by
  simp [unit.words_eq]

theorem printable_of_parameterWords {parameters : List Parameter}
    (h : AllPrintable (parameterWords parameters)) :
    ∀ parameter ∈ parameters, parameter.type.word.Printable := by
  cases parameters with
  | nil => simp
  | cons first others =>
      simp only [parameterWords, moreParameterWords, allPrintable_cons, allPrintable_flatMap] at h
      exact List.forall_mem_cons.mpr ⟨h.1, fun parameter hmem => (h.2.2 parameter hmem).2.1⟩

/-- What is printable of a subroutine: its name, its declarations and its body. -/
theorem Subroutine.printable_of_words (h : AllPrintable subroutine.words) :
    (Word.identifier subroutine.name).Printable ∧
      (∀ parameter ∈ subroutine.parameters, parameter.type.word.Printable) ∧
      (∀ group ∈ subroutine.locals, AllPrintable group.words) ∧
      AllPrintable subroutine.body.words := by
  simp only [words, localWords, List.cons_append, allPrintable_cons, allPrintable_append,
    allPrintable_flatMap] at h
  obtain ⟨_, _, hname, _, ⟨⟨hparameters, _, _, hlocals⟩, hbody⟩, _⟩ := h
  exact ⟨hname, printable_of_parameterWords hparameters, fun group hmem => (hlocals group hmem).2,
    hbody⟩

theorem VariableGroup.isName_type {group : VariableGroup} (h : AllPrintable group.words)
    (kind : VariableKind) : ∀ one ∈ group.declared kind, IsName one.type := by
  intro one hmem
  obtain ⟨_, _, rfl⟩ := List.mem_map.mp hmem
  exact .of_type (h group.type.word (.head _))

theorem ClassUnit.isName_type (h : AllPrintable unit.words) :
    ∀ one ∈ unit.declared, IsName one.type := by
  intro one hmem
  obtain ⟨declaration, hdeclaration, hone⟩ := List.mem_flatMap.mp hmem
  have hwords := (allPrintable_words.mp h).2.1 declaration hdeclaration
  exact VariableGroup.isName_type ((allPrintable_cons _ _).mp hwords).2 _ one hone

theorem Subroutine.isName_type (h : AllPrintable subroutine.words) {className : String}
    (hclass : IsName className) : ∀ one ∈ subroutine.declared className, IsName one.type := by
  obtain ⟨_, hparameters, hlocals, _⟩ := printable_of_words h
  intro one hmem
  simp only [declared, List.mem_append] at hmem
  rcases hmem with (hmem | hmem) | hmem
  · split at hmem
    · rw [List.mem_singleton.mp hmem]
      exact hclass
    · cases hmem
  · obtain ⟨parameter, hparameter, rfl⟩ := List.mem_map.mp hmem
    exact .of_type (hparameters parameter hparameter)
  · obtain ⟨group, hgroup, hone⟩ := List.mem_flatMap.mp hmem
    exact VariableGroup.isName_type (hlocals group hgroup) .local one hone

theorem ClassUnit.named_around (h : AllPrintable unit.words)
    (hmem : subroutine ∈ unit.subroutines) : (unit.around subroutine).Named := by
  obtain ⟨hname, _, hsubroutines⟩ := allPrintable_words.mp h
  refine ⟨.of_identifier hname, ?_⟩
  intro name found hfound
  have hdeclared : ∃ one ∈ subroutine.declared unit.name ++ unit.declared,
      one.type = found.type := by
    rw [Surroundings.resolve?] at hfound
    split at hfound
    · rename_i own hown
      cases hfound
      obtain ⟨one, hone, _, htype⟩ := exists_declared_of_variableOf? hown
      exact ⟨one, List.mem_append_left _ hone, htype⟩
    · obtain ⟨one, hone, _, htype⟩ := exists_declared_of_variableOf? hfound
      exact ⟨one, List.mem_append_right _ hone, htype⟩
  obtain ⟨one, hone, htype⟩ := hdeclared
  rw [← htype]
  rcases List.mem_append.mp hone with hone | hone
  · exact Subroutine.isName_type (hsubroutines subroutine hmem) (.of_identifier hname) one hone
  · exact ClassUnit.isName_type h one hone

theorem SubroutineKind.named_entryCode (kind : SubroutineKind) (fields : Nat)
    {className : String} : AllNamed className (kind.entryCode fields) := by
  cases kind <;> simp [entryCode, Instruction.Named, IsQualified.runtime]

theorem ClassUnit.named_code (h : AllPrintable unit.words) : AllNamed unit.name unit.code := by
  rw [unit.code_eq_flatMap]
  intro instruction hmem
  obtain ⟨numbered, hnumbered, hinstruction⟩ := List.mem_flatMap.mp hmem
  have hsubroutine := fst_mem_of_mem_numberedFrom hnumbered
  have hwords := (allPrintable_words.mp h).2.2 numbered.1 hsubroutine
  obtain ⟨hname, _, _, hbody⟩ := Subroutine.printable_of_words hwords
  rw [unit.section_eq, List.mem_append, Subroutine.opening, List.mem_cons] at hinstruction
  rcases hinstruction with (rfl | hentry) | hinstruction
  · exact ⟨numbered.1.name, hname, rfl⟩
  · exact numbered.1.kind.named_entryCode _ instruction hentry
  · exact numbered.1.body.named (unit.named_around h hsubroutine) numbered.2 hbody instruction
      hinstruction

end Units

end JackLang
