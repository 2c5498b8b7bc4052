import JackLang.Proofs.Acceptance
import JackLang.Proofs.Compilation.Extents
import JackLang.Proofs.Compilation.Parts
import JackLang.Proofs.Vm.Height

/-! # The stack discipline of programs

The code of an expression leaves one more operand than it found, and that of a
statement starts and ends with an empty stack. So there is a height at every
position of a function's section.
-/

set_option autoImplicit false

namespace JackLang

open Instruction (after takes leaves Fits)

variable {around : Surroundings}

/-- Loading a variable pushes one operand. -/
theorem climbs_load {name : String} (h : around.Declares name) (height : Nat) :
    Climbs height (around.load name) (height + 1) := by
  obtain ⟨found, hfound⟩ := h.exists_resolve?
  simp [Surroundings.load, Surroundings.withVariable, hfound, Fits, after, takes, leaves]

theorem climbs_store {name : String} (h : around.Declares name) (height : Nat) :
    Climbs (height + 1) (around.store name) height := by
  obtain ⟨found, hfound⟩ := h.exists_resolve?
  simp [Surroundings.store, Surroundings.withVariable, hfound, Fits, after, takes, leaves]

/-- A receiver pushes as many operands as it counts for. -/
theorem climbs_receiver (receiver : String) (height : Nat) :
    Climbs height (around.load receiver) (height + around.receiverCount receiver) := by
  by_cases h : around.Declares receiver
  · simpa [Surroundings.receiverCount, h] using climbs_load h height
  · simp [Surroundings.receiverCount, h, Surroundings.load, Surroundings.withVariable,
      Surroundings.resolve?_eq_none_iff.mpr h]

theorem climbs_characters (content : String) (height : Nat) :
    Climbs height (charactersCode content) (height + 1) := by
  have hcharacters : ∀ characters : List Char,
      Climbs (height + 1)
        (characters.flatMap fun c => [.push .constant c.toNat, .call "String.appendChar" 2])
        (height + 1) := by
    intro characters
    induction characters with
    | nil => simp
    | cons c rest ih =>
        rw [List.flatMap_cons]
        refine Climbs.append ?_ ih
        simp [Fits, after, takes, leaves]
  refine Climbs.append ?_ (hcharacters content.toList)
  simp [Fits, after, takes, leaves]

/-- A call takes its arguments and leaves its result. -/
theorem climbs_call (name : String) (count height : Nat) :
    Climbs (height + count) [.call name count] (height + 1) := by
  simp [Fits, after, takes, leaves]

theorem climbs_binary (operator : BinaryOperator) (height : Nat) :
    Climbs (height + 2) [operator.code] (height + 1) := by
  cases operator <;>
    simp [BinaryOperator.code, Fits, after, takes, leaves, Operation.arity]

theorem climbs_unary (operator : UnaryOperator) (height : Nat) :
    Climbs (height + 1) [operator.code] (height + 1) := by
  cases operator <;>
    simp [UnaryOperator.code, Fits, after, takes, leaves, Operation.arity]

mutual

theorem Expression.climbs (expression : Expression) (h : expression.Permitted around)
    (height : Nat) : Climbs height (expression.code around) (height + 1) := by
  match expression with
  | .single term => exact term.climbs h height
  | .operate first operator last =>
      rw [Expression.code]
      exact ((first.climbs h.1 height).append (last.climbs h.2 (height + 1))).append
        (climbs_binary operator height)

theorem Term.climbs (term : Term) (h : term.Permitted around) (height : Nat) :
    Climbs height (term.code around) (height + 1) := by
  match term with
  | .integer _ | .trueConstant | .falseConstant | .nullConstant | .thisConstant =>
      simp [Term.code, Fits, after, takes, leaves, Operation.arity]
  | .string content => exact climbs_characters content height
  | .parenthesized inner => exact inner.climbs h height
  | .unary operator operand =>
      exact (operand.climbs h height).append (climbs_unary operator height)
  | .name name => exact climbs_load h height
  | .element array index =>
      refine ((climbs_load h.1 height).append (index.climbs h.2 (height + 1))).append ?_
      simp [Fits, after, takes, leaves, Operation.arity]
  | .ownCall name arguments =>
      have hreceiver : Climbs height [.push .pointer 0] (height + 1) := by
        simp [Fits, after, takes, leaves]
      have hcall := climbs_call (around.className ++ "." ++ name) (arguments.count + 1) height
      rw [Nat.add_comm arguments.count, ← Nat.add_assoc] at hcall
      exact (hreceiver.append (arguments.climbs h.2 (height + 1))).append
        (by rw [Nat.add_comm arguments.count]; exact hcall)
  | .memberCall receiver name arguments =>
      rw [Term.code, memberCallCode_eq]
      have harguments := arguments.climbs h.2 (height + around.receiverCount receiver)
      have hcall := climbs_call (around.receiverClass receiver ++ "." ++ name)
        (around.receiverCount receiver + arguments.count) height
      rw [← Nat.add_assoc] at hcall
      exact ((climbs_receiver receiver height).append harguments).append hcall

theorem Arguments.climbs (arguments : Arguments) (h : arguments.Permitted around)
    (height : Nat) : Climbs height (arguments.code around) (height + arguments.count) := by
  match arguments with
  | .none => exact rfl
  | .some list => exact list.climbs h height

theorem ArgumentList.climbs (list : ArgumentList) (h : list.Permitted around) (height : Nat) :
    Climbs height (list.code around) (height + list.count) := by
  match list with
  | .single argument => exact argument.climbs h height
  | .append before last =>
      exact (before.climbs h.1 height).append (last.climbs h.2 (height + before.count))

end

theorem Call.climbs (call : Call) (h : call.Permitted around) (height : Nat) :
    Climbs height (call.code around) (height + 1) := by
  cases call with
  | own name arguments => exact Term.climbs (.ownCall name arguments) h height
  | member receiver name arguments =>
      exact Term.climbs (.memberCall receiver name arguments) h height

theorem climbs_testCode (number : Nat) : Climbs 1 (testCode number) 0 := by
  simp [testCode, Fits, after, takes, leaves]

theorem climbs_elseCode (number : Nat) : Climbs 0 (elseCode number) 0 := by
  simp [elseCode, Fits, after, takes, leaves]

theorem climbs_exitCode (number : Nat) : Climbs 1 (exitCode number) 0 := by
  simp [exitCode, Fits, after, takes, leaves, Operation.arity]

theorem climbs_repeatCode (number : Nat) : Climbs 0 (repeatCode number) 0 := by
  simp [repeatCode, Fits, after, takes, leaves]

theorem climbs_label (name : String) : Climbs 0 [.label name] 0 := by
  simp [Fits, after, takes, leaves]

theorem climbs_conditional (number : Nat) {condition first second : List Instruction}
    (hcondition : Climbs 0 condition 1) (hfirst : Climbs 0 first 0)
    (hsecond : Climbs 0 second 0) :
    Climbs 0 (conditionalCode number condition first second) 0 := by
  have htest := hcondition.append (climbs_testCode number)
  have helse := (htest.append hfirst).append (climbs_elseCode number)
  exact (helse.append hsecond).append (climbs_label _)

theorem climbs_loop (number : Nat) {condition body : List Instruction}
    (hcondition : Climbs 0 condition 1) (hbody : Climbs 0 body 0) :
    Climbs 0 (loopCode number condition body) 0 := by
  have hstart := climbs_label (LabelFamily.whileStart.label number)
  have htest := (hstart.append hcondition).append (climbs_exitCode number)
  exact (htest.append hbody).append (climbs_repeatCode number)

mutual

theorem Statement.climbs (statement : Statement) (h : statement.Permitted around)
    (number : Nat) : Climbs 0 (statement.code around number) 0 := by
  match statement with
  | .assign target value => exact (value.climbs h.2 0).append (climbs_store h.1 0)
  | .assignElement array index value =>
      have haddress : Climbs 2 [.operate .add] 1 := by
        simp [Fits, after, takes, leaves, Operation.arity]
      have hstore : Climbs 2
          [.pop .temp 0, .pop .pointer 1, .push .temp 0, .pop .that 0] 0 := by
        simp [Fits, after, takes, leaves]
      exact ((((climbs_load h.1 0).append (index.climbs h.2.1 1)).append haddress).append
        (value.climbs h.2.2 1)).append hstore
  | .conditional condition body =>
      exact climbs_conditional number (condition.climbs h.1 0) (body.climbs h.2 _) rfl
  | .alternative condition first second =>
      exact climbs_conditional number (condition.climbs h.1 0) (first.climbs h.2.1 _)
        (second.climbs h.2.2 _)
  | .loop condition body =>
      exact climbs_loop number (condition.climbs h.1 0) (body.climbs h.2 _)
  | .call call =>
      refine (call.climbs h 0).append ?_
      simp [Fits, after, takes, leaves]
  | .returnNothing => simp [Statement.code, Fits, after, takes, leaves]
  | .returnValue value =>
      refine (value.climbs h 0).append ?_
      simp [Fits, after, takes, leaves]

theorem Statements.climbs (statements : Statements) (h : statements.Permitted around)
    (number : Nat) : Climbs 0 (statements.code around number) 0 := by
  match statements with
  | .nil => exact rfl
  | .cons first rest => exact (first.climbs h.1 number).append (rest.climbs h.2 _)

end

/-- The code in front of a block starts and ends with an empty stack. -/
theorem Statement.climbs_front {statement : Statement} (h : statement.Permitted around)
    {number : Nat} {block : Block} (hblock : block ∈ statement.blocks around number) :
    Climbs 0 block.front 0 := by
  cases statement with
  | conditional condition body =>
      rw [List.mem_singleton.mp hblock]
      exact (condition.climbs h.1 0).append (climbs_testCode number)
  | alternative condition first second =>
      have htest := (condition.climbs h.1 0).append (climbs_testCode number)
      rcases List.mem_cons.mp hblock with rfl | hlast
      · exact htest
      · rw [List.mem_singleton.mp hlast]
        exact (htest.append (first.climbs h.2.1 (number + 1))).append (climbs_elseCode number)
  | loop condition body =>
      rw [List.mem_singleton.mp hblock]
      exact ((climbs_label _).append (condition.climbs h.1 0)).append (climbs_exitCode number)
  | _ => cases hblock

theorem Occurs.climbs {statement : Statement} {number start : Nat}
    {front back : List Instruction} {statements : Statements}
    (h : Occurs around statement number front back start statements)
    (hpermitted : statements.Permitted around) : Climbs 0 front 0 := by
  induction h with
  | head rest => exact rfl
  | tail first h ih => exact (first.climbs hpermitted.1 _).append (ih hpermitted.2)
  | inside rest hblock h ih =>
      exact (Statement.climbs_front hpermitted.1 hblock).append
        (ih (Statement.permitted_of_mem_blocks hpermitted.1 hblock))

theorem climbs_entryCode (kind : SubroutineKind) (fields : Nat) :
    Climbs 0 (kind.entryCode fields) 0 := by
  cases kind <;> simp [SubroutineKind.entryCode, Fits, after, takes, leaves]

/-- Heights of a section, with an empty stack in front of each statement and
behind it. -/
structure SectionHeights (unit : ClassUnit) (numbered : Subroutine × Nat)
    (height : Nat → Nat) : Prop extends Heights (unit.section numbered) height where
  statement : ∀ {statement : Statement} {number : Nat} {front back : List Instruction},
    Occurs (unit.around numbered.1) statement number front back numbered.2 numbered.1.body →
      height (numbered.1.opening unit.name unit.declared ++ front).length = 0 ∧
        height (numbered.1.opening unit.name unit.declared ++ front ++
          statement.code (unit.around numbered.1) number).length = 0

theorem ClassUnit.sectionHeights {unit : ClassUnit} (h : unit.Permitted)
    {numbered : Subroutine × Nat} (hmem : numbered ∈ unit.numbered) :
    SectionHeights unit numbered (heightAt (unit.section numbered)) := by
  have hbody : numbered.1.body.Permitted (unit.around numbered.1) :=
    (h.subroutines _ (fst_mem_of_mem_numberedFrom hmem)).body
  have hentry := climbs_entryCode numbered.1.kind
    (unit.declared.countP fun declared => declared.kind = .field)
  have hclimbs := hentry.append (numbered.1.body.climbs hbody numbered.2)
  constructor
  · exact hclimbs.heights
  · intro statement number front back hoccurs
    have hbefore := hentry.append (hoccurs.climbs hbody)
    have hbehind := hbefore.append (statement.climbs (hoccurs.permitted hbody) number)
    rw [unit.section_eq, hoccurs.code_eq, List.append_assoc, ← List.append_assoc]
    refine ⟨heightAt_of_climbs hbefore, ?_⟩
    rw [← List.append_assoc]
    exact heightAt_of_climbs hbehind

section Compile

variable (source taken : String) (tree : Option String)

/-- What is written for a source that compiles has heights in each of its
sections. -/
theorem compile_sections_have_heights
    (h : (compile source (.working taken) (tree.map .working)).error = none) :
    (∃ unit : ClassUnit, unit.Derives source) ∧
      ∀ unit : ClassUnit, unit.Derives source →
        (compile source (.working taken) (tree.map .working)).writers.program.outlet.taken =
          taken ++ listing unit.code ∧
        sections unit.code = unit.numbered.map unit.section ∧
        ∀ numbered ∈ unit.numbered, ∃ height, SectionHeights unit numbered height := by
  refine ⟨exists_derives_of_failure_eq_none (failure_of_compiles source taken tree h), ?_⟩
  intro unit hderives
  obtain ⟨hpermitted, htaken⟩ := taken_of_compiles source taken tree h hderives
  refine ⟨htaken, unit.sections_code, ?_⟩
  intro numbered hmem
  exact ⟨_, ClassUnit.sectionHeights hpermitted hmem⟩

end Compile

theorem compile_sections_have_heights_of_loop :
    (compile loopSource (.working "") none).error = none ∧
      (∃ unit : ClassUnit, unit.Derives loopSource) ∧
      ∀ unit : ClassUnit, unit.Derives loopSource →
        (compile loopSource (.working "") none).writers.program.outlet.taken =
          "" ++ listing unit.code ∧
        sections unit.code = unit.numbered.map unit.section ∧
        ∀ numbered ∈ unit.numbered, ∃ height, SectionHeights unit numbered height :=
  ⟨loopSource_compiles, compile_sections_have_heights loopSource "" none loopSource_compiles⟩

end JackLang
