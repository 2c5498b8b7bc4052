import JackLang.Proofs.Compilation.Instructions
import JackLang.Proofs.Compilation.Runs
import JackLang.Proofs.Token.Regular
import Mathlib.Data.List.Infix
import Mathlib.Data.List.TakeWhile

/-! # Courses run to code

The course of a derivation gives its code up to its first fault. Expressions leave
the context as it is, and statements only use up numbers.
-/

set_option autoImplicit false

namespace JackLang

open Step (node takes symbol keyword identifier emit)

/-- There are not too many variables of a kind. -/
structure Surroundings.Small (around : Surroundings) : Prop where
  ofClass : ∀ kind, countOf kind around.ofClass ≤ maxConstant
  ofSubroutine : ∀ kind, countOf kind around.ofSubroutine ≤ maxConstant

theorem Surroundings.Small.index_le {around : Surroundings} (h : around.Small) {name : String}
    {found : Variable} (hfound : around.resolve? name = some found) :
    found.index ≤ maxConstant := by
  rw [resolve?] at hfound
  split at hfound
  · rename_i own hown
    cases hfound
    exact Nat.le_of_lt (Nat.lt_of_lt_of_le (index_lt_countOf hown) (h.ofSubroutine _))
  · exact Nat.le_of_lt (Nat.lt_of_lt_of_le (index_lt_countOf hfound) (h.ofClass _))

theorem Surroundings.Small.bounded_load {around : Surroundings} (h : around.Small)
    (name : String) : Bounded (around.load name) :=
  forall_mem_withVariable fun _ hfound => h.index_le hfound

theorem Surroundings.Small.bounded_store {around : Surroundings} (h : around.Small)
    (name : String) : Bounded (around.store name) :=
  forall_mem_withVariable fun _ hfound => h.index_le hfound

theorem bounded_binary (operator : BinaryOperator) : operator.code.operand ≤ maxConstant := by
  cases operator <;> decide

theorem bounded_unary (operator : UnaryOperator) : operator.code.operand ≤ maxConstant := by
  cases operator <;> decide

theorem bounded_stringCode {characters : List Char} (h : characters.length ≤ maxConstant) :
    Bounded (stringCode characters) := by
  have hone : 1 ≤ maxConstant := by decide
  have htwo : 2 ≤ maxConstant := by decide
  have hcodes : ∀ c ∈ characters.takeWhile (fun c => c.toNat ≤ maxConstant),
      c.toNat ≤ maxConstant := by
    intro c hc
    have hle := List.mem_takeWhile_imp hc
    exact of_decide_eq_true hle
  have hcharacters : Bounded ((characters.takeWhile fun c => c.toNat ≤ maxConstant).flatMap
      fun c => [.push .constant c.toNat, .call "String.appendChar" 2]) :=
    forall_mem_characters hcodes htwo
  exact (bounded_cons _ _).mpr ⟨h, (bounded_cons _ _).mpr ⟨hone, hcharacters⟩⟩

theorem stringCode_prefix (content : String) :
    stringCode content.toList <+: charactersCode content := by
  have hcodes := List.IsPrefix.flatMap
    (List.takeWhile_prefix (l := content.toList) fun c => decide (c.toNat ≤ maxConstant))
    fun c => [Instruction.push .constant c.toNat, .call "String.appendChar" 2]
  exact (List.prefix_append_right_inj
    [Instruction.push .constant content.toList.length, .call "String.new" 1]).mpr hcodes

/-- The context knows what the code of a subroutine depends on. -/
structure Context.Sees (context : Context) (around : Surroundings) : Prop where
  className : context.className = around.className
  lookup : ∀ name, context.scope.lookup? name = around.resolve? name

namespace Context.Sees

variable {context : Context} {around : Surroundings}

theorem withVariable_eq (h : context.Sees around) (name : String)
    (code : Variable → List Instruction) :
    context.withVariable (nameToken name) code =
      match around.resolve? name with
      | some found => Effect.give context (code found)
      | none => Effect.fail context (.undeclared (nameToken name)) := by
  have hlookup : context.scope.lookup? (nameToken name).lexeme = around.resolve? name :=
    h.lookup name
  cases hfound : around.resolve? name with
  | none => simp only [Context.withVariable, hlookup, hfound]
  | some found => simp only [Context.withVariable, hlookup, hfound]

theorem act?_withVariable (h : context.Sees around) {action : Action} {name : String}
    {code : Variable → List Instruction} {found : Variable}
    (haction : context.perform action = context.withVariable (nameToken name) code)
    (hfound : around.resolve? name = some found) :
    context.act? action = some (context, code found) := by
  apply Context.act?_of_give
  rw [haction, h.withVariable_eq, hfound]

theorem act?_load (h : context.Sees around) {name : String} (hdeclared : around.Declares name) :
    context.act? (.load (nameToken name)) = some (context, around.load name) := by
  obtain ⟨found, hfound⟩ := hdeclared.exists_resolve?
  rw [h.act?_withVariable rfl hfound, Surroundings.load, Surroundings.withVariable, hfound]
  rfl

theorem act?_store (h : context.Sees around) {name : String} (hdeclared : around.Declares name) :
    context.act? (.store (nameToken name)) = some (context, around.store name) := by
  obtain ⟨found, hfound⟩ := hdeclared.exists_resolve?
  rw [h.act?_withVariable rfl hfound, Surroundings.store, Surroundings.withVariable, hfound]
  rfl

/-- A name is taken, and an action on its variable follows at once. -/
theorem runs_withVariable (h : context.Sees around) {action : Action} {name : String}
    {code : Variable → List Instruction} {given : List Instruction} (start : Nat)
    (haction : context.perform action = context.withVariable (nameToken name) code)
    (hnumber : ∀ position, action.number? position = some position.name)
    (hgiven : around.Declares name → context.act? action = some (context, given))
    (hbounded : Bounded given) (hplain : Step.counts (.act action) = false := by rfl) :
    Runs context start [identifier name, .act action] context given
      (around.nameFaults start name) := by
  by_cases hdeclared : around.Declares name
  · rw [Surroundings.nameFaults, if_pos hdeclared]
    exact Runs.plain start (by
      simp [Context.carry?, identifier, takes, hgiven hdeclared]) hbounded
      (by rw [List.any_cons, List.any_cons, hplain]; rfl)
  · have hfail : context.perform action =
        Effect.fail context (.undeclared (nameToken name)) := by
      rw [haction, h.withVariable_eq, Surroundings.resolve?_eq_none_iff.mpr hdeclared]
    refine Runs.of_fail hfail ?_ ?_ hplain
    · intro position hposition
      simp [hnumber, Position.after, hposition]
    · rw [Surroundings.nameFaults, if_neg hdeclared]
      rfl

theorem runs_load (h : context.Sees around) (hsmall : around.Small) (start : Nat)
    (name : String) :
    Runs context start [identifier name, .act (.load (nameToken name))] context
      (around.load name) (around.nameFaults start name) :=
  h.runs_withVariable start rfl (fun _ => rfl) h.act?_load (hsmall.bounded_load name)

theorem runs_require (h : context.Sees around) (start : Nat) (name : String) :
    Runs context start [identifier name, .act (.require (nameToken name))] context []
      (around.nameFaults start name) := by
  refine h.runs_withVariable start rfl (fun _ => rfl) ?_ bounded_nil
  intro hdeclared
  obtain ⟨found, hfound⟩ := hdeclared.exists_resolve?
  have haction : context.perform (.require (nameToken name)) =
      context.withVariable (nameToken name) fun _ => [] := rfl
  exact h.act?_withVariable haction hfound

theorem runs_base (h : context.Sees around) (hsmall : around.Small) (start : Nat)
    (array : String) :
    Runs context start
      [identifier array, .act (.require (nameToken array)), symbol .leftBracket,
        .act (.load (nameToken array))]
      context (around.load array) (around.nameFaults start array) := by
  have hloaded : around.nameFaults start array = [] →
      Runs context (start + 1) [symbol .leftBracket, .act (.load (nameToken array))] context
        (around.load array) [] := by
    intro hnone
    have hact := h.act?_load (Surroundings.nameFaults_eq_nil_iff.mp hnone)
    exact Runs.plain _ (by simp [Context.carry?, symbol, takes, hact])
      (hsmall.bounded_load array)
  exact ((h.runs_require start array).append rfl hloaded).of_eq rfl rfl
    (List.append_nil _).symm

theorem runs_integer (context : Context) (start : Nat) {digits : String}
    (h : decimalValue digits.toList ≤ maxConstant) :
    Runs context start
      [takes ⟨.integerConstant, digits⟩, .act (.integer (Word.token ⟨.integerConstant, digits⟩))]
      context [.push .constant (decimalValue digits.toList)] [] := by
  refine Runs.plain start ?_ ?_
  · simp [Context.carry?, Context.act?, Context.perform, h, Effect.give, Event.instruction?,
      takes]
  · simpa [Instruction.operand] using h

theorem runs_string (context : Context) (start : Nat) (content : String) :
    Runs context start
      [takes ⟨.stringConstant, content⟩,
        .act (.string (Word.token ⟨.stringConstant, content⟩))]
      context (charactersCode content) (stringFaults start content) := by
  by_cases hlength : maxConstant < content.toList.length
  · have hfail : context.perform (.string (Word.token ⟨.stringConstant, content⟩)) =
        Effect.fail context (.stringTooLong (Word.token ⟨.stringConstant, content⟩)) := by
      simp [Context.perform, Context.string, hlength]
    refine Runs.of_fail hfail ?_ ?_
    · intro position hposition
      simp [Action.number?, Position.after, hposition]
    · simp [stringFaults, hlength, StaticError.fault]
  · have houtput : context.output
        [takes ⟨.stringConstant, content⟩,
          .act (.string (Word.token ⟨.stringConstant, content⟩))] =
        stringCode content.toList := by
      cases hfind : content.toList.find? (fun c => maxConstant < c.toNat) <;>
        simp only [Context.output, takes, Context.perform, Context.string, Word.lexeme_token,
          hlength, hfind, if_false, Option.map_none, Option.map_some,
          filterMap_instruction?_emitted, List.append_nil]
    refine ⟨?_, ?_, ?_, ?_, fun hsmall => Context.counted_plain hsmall rfl⟩
    · intro hnone
      have hcodes := (stringFaults_eq_nil_iff.mp hnone).2
      have hfind : content.toList.find? (fun c => maxConstant < c.toNat) = none := by
        simpa using hcodes
      have htake : content.toList.takeWhile (fun c => c.toNat ≤ maxConstant) =
          content.toList := by
        simpa [List.takeWhile_eq_self_iff] using hcodes
      have hgive : context.perform (.string (Word.token ⟨.stringConstant, content⟩)) =
          Effect.give context (charactersCode content) := by
        simp [Context.perform, Context.string, hlength, hfind, stringCode, htake,
          charactersCode, Effect.give]
      simp [Context.carry?, takes, Context.act?_of_give hgive]
    · intro position hposition
      cases hfind : content.toList.find? (fun c => maxConstant < c.toNat) <;>
        simp [Context.blame?, takes, Context.perform, Context.string, hlength, hfind,
          stringFaults, Action.number?, Position.after, StaticError.fault, hposition]
    · rw [houtput]
      exact stringCode_prefix content
    · rw [houtput]
      exact bounded_stringCode (Nat.le_of_not_lt hlength)

/-- The check in front of an argument behind not too many others. -/
theorem runs_argument (context : Context) (start : Nat) (callee : Callee) (count : Nat)
    (first : Token) (h : context.receiverCount callee + count ≤ maxConstant) :
    Runs context start [.act (.argument callee count first)] context []
      (argumentFaults start (context.receiverCount callee + count)) := by
  by_cases hcount : context.receiverCount callee + count = maxConstant
  · have hfail : context.perform (.argument callee count first) =
        Effect.fail context (.tooManyArguments first) := by
      simp [Context.perform, hcount]
    rw [argumentFaults, if_pos hcount]
    refine ⟨?_, ?_, ?_, ?_, ?_⟩
    · intro hnone
      cases hnone
    · intro position hposition
      simp [Context.blame?, hfail, Effect.fail, Action.number?, StaticError.fault, hposition]
    · simp [Context.output, hfail, Effect.fail]
    · simp [Context.output, hfail, Effect.fail]
    · intro hsmall
      exact ⟨hsmall, h, by rw [hfail]; trivial⟩
  · have hless : context.receiverCount callee + count < maxConstant := by omega
    have hpass : context.perform (.argument callee count first) = Effect.pass context := by
      simp [Context.perform, hless]
    rw [argumentFaults, if_neg hcount]
    refine Runs.of_carry? start ?_ bounded_nil ?_
    · simp [Context.carry?, Context.act?, hpass, Effect.pass]
    · intro hsmall
      exact ⟨hsmall, h, by rw [hpass]; exact hsmall⟩

theorem receiverCount_member (h : context.Sees around) (receiver name : String) :
    context.receiverCount (.member receiver name) = around.receiverCount receiver := by
  rw [Context.receiverCount, Surroundings.receiverCount, h.lookup]
  by_cases hdeclared : around.Declares receiver
  · obtain ⟨found, hfound⟩ := hdeclared.exists_resolve?
    simp [hdeclared, hfound]
  · simp [hdeclared, Surroundings.resolve?_eq_none_iff.mpr hdeclared]

theorem carry?_invoke_own (h : context.Sees around) (name : String) (count : Nat) :
    context.carry? [symbol .rightParen, .act (.invoke (.own name) count)] =
      some (context, [.call (around.className ++ "." ++ name) (count + 1)]) := by
  simp [Context.carry?, Context.act?, Context.perform, Context.calleeName,
    Context.receiverCount, h.className, Effect.give, Event.instruction?, symbol, takes,
    Nat.add_comm]

theorem calleeName_member (h : context.Sees around) (receiver name : String) :
    context.calleeName (.member receiver name) =
      around.receiverClass receiver ++ "." ++ name := by
  rw [Context.calleeName, h.lookup, Surroundings.receiverClass]
  cases around.resolve? receiver <;> rfl

theorem carry?_invoke_member (h : context.Sees around) (receiver name : String)
    (count : Nat) :
    context.carry? [symbol .rightParen, .act (.invoke (.member receiver name) count)] =
      some (context, [.call (around.receiverClass receiver ++ "." ++ name)
        (around.receiverCount receiver + count)]) := by
  simp [Context.carry?, Context.act?, Context.perform, h.calleeName_member,
    h.receiverCount_member, Effect.give, Event.instruction?, symbol, takes]

theorem carry?_receive (h : context.Sees around) (receiver name : String) :
    context.carry? [identifier receiver, symbol .dot, identifier name,
        .act (.receive (.member receiver name)), symbol .leftParen] =
      some (context, around.load receiver) := by
  simp only [Context.carry?, Context.act?, Context.perform, Context.receiver?, h.lookup,
    Effect.give, Surroundings.load, Surroundings.withVariable, identifier, symbol, takes]
  cases around.resolve? receiver <;> simp [Event.instruction?, Variable.segment]

end Context.Sees

section Expressions

variable {context : Context} {around : Surroundings}

mutual

theorem Expression.runs (h : context.Sees around) (hsmall : around.Small)
    (expression : Expression) (start : Nat) (hwords : AllRegular expression.words) :
    Runs context start expression.course context (expression.code around)
      (expression.faults around start) := by
  match expression with
  | .single term =>
      exact (term.runs h hsmall start (by simpa using hwords)).node .term
  | .operate first operator last =>
      simp only [Expression.words_operate, allRegular_append, allRegular_cons] at hwords
      have hfirst := first.runs h hsmall start hwords.1
      have hlast := (last.runs h hsmall (start + first.words.length + 1) hwords.2.2).node .term
      have hcode := hlast.postpend [emit operator.code] [operator.code] rfl
        fun _ => by simpa using bounded_binary operator
      have hnext := hcode.prepend (start + first.words.length) [symbol operator.symbol] [] rfl
        rfl bounded_nil
      exact (hfirst.append (by simp) fun _ => hnext).of_eq (by simp [Expression.course, node])
        (by simp [Expression.code]) rfl

theorem Term.runs (h : context.Sees around) (hsmall : around.Small) (term : Term)
    (start : Nat) (hwords : AllRegular term.words) :
    Runs context start term.course context (term.code around) (term.faults around start) := by
  match term with
  | .integer digits =>
      rw [Term.words_integer, allRegular_cons] at hwords
      exact Context.Sees.runs_integer context start hwords.1
  | .string content => exact Context.Sees.runs_string context start content
  | .trueConstant | .falseConstant | .nullConstant | .thisConstant =>
      exact Runs.plain start rfl (by simp [Term.code, Instruction.operand])
  | .parenthesized inner =>
      simp only [Term.words_parenthesized, List.cons_append, allRegular_cons, allRegular_append]
        at hwords
      have hinner := (inner.runs h hsmall (start + 1) hwords.2.1).node .expression
      have hclosed := hinner.postpend [symbol .rightParen] [] rfl fun _ => bounded_nil
      have hwhole := hclosed.prepend start [symbol .leftParen] [] rfl rfl bounded_nil
      exact hwhole.of_eq (by simp [Term.course, node]) (by simp [Term.code]) rfl
  | .unary operator operand =>
      simp only [Term.words_unary, allRegular_cons] at hwords
      have hoperand := (operand.runs h hsmall (start + 1) hwords.2).node .term
      have hcode := hoperand.postpend [emit operator.code] [operator.code] rfl
        fun _ => by simpa using bounded_unary operator
      have hwhole := hcode.prepend start [symbol operator.symbol] [] rfl rfl bounded_nil
      exact hwhole.of_eq (by simp [Term.course, node]) (by simp [Term.code]) rfl
  | .name read => exact h.runs_load hsmall start read
  | .element array index =>
      simp only [Term.words_element, List.cons_append, allRegular_cons, allRegular_append]
        at hwords
      have hindex := (index.runs h hsmall (start + 2) hwords.2.2.1).node .expression
      have hread := hindex.postpend
        [symbol .rightBracket, emit (.operate .add), emit (.pop .pointer 1),
          emit (.push .that 0)]
        [.operate .add, .pop .pointer 1, .push .that 0] rfl
        fun _ => by simp [Instruction.operand, maxConstant]
      have hwhole := (h.runs_base hsmall start array).append rfl fun _ => hread
      exact hwhole.of_eq (by simp [Term.course, node]) (by simp [Term.code]) rfl
  | .ownCall called arguments =>
      simp only [Term.words_ownCall, List.cons_append, allRegular_cons, allRegular_append]
        at hwords
      have harguments := (arguments.runs h hsmall (.own called) rfl (Nat.le_refl 1) (start + 2)
        hwords.2.2.1).node .expressionList
      have hcall := harguments.postpend
        [symbol .rightParen, .act (.invoke (.own called) arguments.count)] _
        (h.carry?_invoke_own called arguments.count) fun hnone => by
          have hcount := ((arguments.faults_eq_nil_iff (Nat.le_refl 1) _).mp hnone).1
          simpa [Instruction.operand, Nat.add_comm] using hcount
      have hwhole := hcall.prepend start
        [identifier called, symbol .leftParen, emit (.push .pointer 0)] [.push .pointer 0] rfl rfl
        (by simp [Instruction.operand])
      exact hwhole.of_eq (by simp [Term.course, node]) (by simp [Term.code, ownCallCode]) rfl
  | .memberCall receiver called arguments =>
      simp only [Term.words_memberCall, List.cons_append, allRegular_cons, allRegular_append]
        at hwords
      have hle := around.receiverCount_le receiver
      have harguments := (arguments.runs h hsmall (.member receiver called)
        (h.receiverCount_member receiver called) hle (start + 4) hwords.2.2.2.2.1).node
          .expressionList
      have hcall := harguments.postpend
        [symbol .rightParen, .act (.invoke (.member receiver called) arguments.count)] _
        (h.carry?_invoke_member receiver called arguments.count) fun hnone => by
          have hcount := ((arguments.faults_eq_nil_iff hle _).mp hnone).1
          simpa [Instruction.operand] using hcount
      have hwhole := hcall.prepend start
        [identifier receiver, symbol .dot, identifier called,
          .act (.receive (.member receiver called)), symbol .leftParen] _
        (h.carry?_receive receiver called) rfl (hsmall.bounded_load receiver)
      exact hwhole.of_eq (by simp [Term.course, node]) (by simp [Term.code, memberCallCode_eq])
        rfl

theorem Arguments.runs (h : context.Sees around) (hsmall : around.Small)
    (arguments : Arguments) (callee : Callee) {receivers : Nat}
    (hreceivers : context.receiverCount callee = receivers) (hle : receivers ≤ 1) (start : Nat)
    (hwords : AllRegular arguments.words) :
    Runs context start (arguments.course callee) context (arguments.code around)
      (arguments.faults around receivers start) := by
  match arguments with
  | .none => exact Runs.plain start rfl bounded_nil
  | .some list => exact list.runs h hsmall callee hreceivers hle start (by simpa using hwords)

theorem ArgumentList.runs (h : context.Sees around) (hsmall : around.Small)
    (list : ArgumentList) (callee : Callee) {receivers : Nat}
    (hreceivers : context.receiverCount callee = receivers) (hle : receivers ≤ 1) (start : Nat)
    (hwords : AllRegular list.words) :
    Runs context start (list.course callee) context (list.code around)
      (list.faults around receivers start) := by
  match list with
  | .single argument =>
      have hargument := (argument.runs h hsmall start (by simpa using hwords)).node .expression
      have hcheck := Context.Sees.runs_argument context start callee 0 argument.first.token
        (by rw [hreceivers]; exact Nat.le_trans hle (by decide))
      rw [hreceivers] at hcheck
      exact hcheck.append rfl fun _ => hargument
  | .append before last =>
      simp only [ArgumentList.words_append, allRegular_append, allRegular_cons] at hwords
      have hbefore := before.runs h hsmall callee hreceivers hle start hwords.1
      have hlast := (last.runs h hsmall (start + before.words.length + 1) hwords.2.2).node
        .expression
      have hnext : before.faults around receivers start = [] →
          Runs context (start + before.words.length)
            ([symbol .comma] ++ ([.act (.argument callee before.count last.first.token)] ++
              (.opened .expression :: last.course ++ [.closed .expression]))) context
            ([] ++ ([] ++ last.code around))
            (argumentFaults (start + before.words.length + 1) (receivers + before.count) ++
              last.faults around (start + before.words.length + 1)) := by
        intro hnone
        have hcount := ((before.faults_eq_nil_iff hle start).mp hnone).1
        have hcheck := Context.Sees.runs_argument context (start + before.words.length + 1)
          callee before.count last.first.token (by rwa [hreceivers])
        rw [hreceivers] at hcheck
        exact (hcheck.append rfl fun _ => hlast).prepend _ [symbol .comma] [] rfl rfl
          bounded_nil
      exact (hbefore.append (by simp) hnext).of_eq (by simp [ArgumentList.course, node])
        (by simp [ArgumentList.code]) (by simp [ArgumentList.faults])

end

theorem Call.runs (h : context.Sees around) (hsmall : around.Small) (call : Call)
    (start : Nat) (hwords : AllRegular call.words) :
    Runs context start call.course context (call.code around) (call.faults around start) := by
  cases call with
  | own name arguments => exact Term.runs h hsmall (.ownCall name arguments) start hwords
  | member receiver name arguments =>
      exact Term.runs h hsmall (.memberCall receiver name arguments) start hwords

end Expressions

/-- The context with the given number for the next conditional or loop. -/
def Context.numbered (context : Context) (number : Nat) : Context :=
  { context with numbers := number }

theorem Context.Sees.numbered {context : Context} {around : Surroundings}
    (h : context.Sees around) (number : Nat) : (context.numbered number).Sees around :=
  ⟨h.className, h.lookup⟩

theorem Runs.number {context third : Context} {number start : Nat} {steps : List Step}
    {code : List Instruction} {faults : List (Nat × Fault)}
    (h : Runs (context.numbered (number + 1)) start steps third code faults) :
    Runs (context.numbered number) start (.act (.number number) :: steps) third code faults :=
  h.act (show (context.numbered number).act? (.number number) =
    some (context.numbered (number + 1), []) from rfl) bounded_nil

section Statements

variable {context : Context} {around : Surroundings}

mutual

theorem Statement.runs (h : context.Sees around) (hsmall : around.Small)
    (statement : Statement) (number start : Nat) (hwords : AllRegular statement.words) :
    Runs (context.numbered number) start (statement.course number)
      (context.numbered (number + statement.numbers)) (statement.code around number)
      (statement.faults around start) := by
  have hsees := h.numbered number
  match statement with
  | .assign target value =>
      simp only [Statement.words_assign, List.cons_append, allRegular_cons, allRegular_append]
        at hwords
      have hrequire := (hsees.runs_require (start + 1) target).prepend start [keyword .let] []
        rfl rfl bounded_nil
      have hvalue := (value.runs hsees hsmall (start + 3) hwords.2.2.2.1).node .expression
      have hassigned : around.nameFaults (start + 1) target = [] →
          Runs (context.numbered number) (start + 2)
            ([symbol .equal] ++ ((.opened .expression :: value.course ++ [.closed .expression]) ++
              [symbol .semicolon, .act (.store (nameToken target))]))
            (context.numbered number) ([] ++ (value.code around ++ around.store target))
            (value.faults around (start + 3)) := by
        intro hnone
        have hstore := hsees.act?_store (Surroundings.nameFaults_eq_nil_iff.mp hnone)
        exact (hvalue.postpend _ _ (by simp [Context.carry?, symbol, takes, hstore])
          fun _ => hsmall.bounded_store target).prepend _ [symbol .equal] [] rfl rfl bounded_nil
      exact ((hrequire.append rfl hassigned).node .letStatement).of_eq
        (by simp [Statement.course, Expression.nodeCourse, node]) (by simp [Statement.code]) rfl
  | .assignElement array index value =>
      simp only [Statement.words_assignElement, List.cons_append, List.append_assoc,
        allRegular_cons, allRegular_append] at hwords
      have hbase := (hsees.runs_base hsmall (start + 1) array).prepend start [keyword .let] []
        rfl rfl bounded_nil
      have hindex := (index.runs hsees hsmall (start + 3) hwords.2.2.2.1).node .expression
      have hvalue := (value.runs hsees hsmall (start + 3 + index.words.length + 2)
        hwords.2.2.2.2.2.2.1).node .expression
      have hstored := hvalue.postpend
        [symbol .semicolon, emit (.pop .temp 0), emit (.pop .pointer 1),
          emit (.push .temp 0), emit (.pop .that 0)]
        [.pop .temp 0, .pop .pointer 1, .push .temp 0, .pop .that 0] rfl
        fun _ => by simp [Instruction.operand, maxConstant]
      have hassigned := hstored.prepend (start + 3 + index.words.length)
        [symbol .rightBracket, emit (.operate .add), symbol .equal] [.operate .add] rfl rfl
        (by simp [Instruction.operand])
      have hwhole := hbase.append rfl fun _ => hindex.append
        (show _ = start + 3 + index.words.length by simp) fun _ => hassigned
      exact (hwhole.node .letStatement).of_eq
        (by simp [Statement.course, Expression.nodeCourse, node]) (by simp [Statement.code])
        (by simp [Statement.faults])
  | .conditional condition body =>
      simp only [Statement.words_conditional, List.cons_append, List.append_assoc,
        allRegular_cons, allRegular_append] at hwords
      have hcondition := (condition.runs (h.numbered (number + 1)) hsmall (start + 2)
        hwords.2.2.1).node .expression
      have hbody := (body.runs h hsmall (number + 1) (start + 2 + condition.words.length + 2)
        hwords.2.2.2.2.2.1).node .statements
      have hnumbered := (hcondition.prepend (start + 1) [symbol .leftParen] [] rfl rfl
        bounded_nil).number
      have hstart := hnumbered.prepend start [keyword .if] [] rfl rfl bounded_nil
      have hentered := hbody.prepend (start + 2 + condition.words.length)
        [symbol .rightParen, emit (.ifGoto (LabelFamily.ifTrue.label number)),
          emit (.goto (LabelFamily.ifFalse.label number)),
          emit (.label (LabelFamily.ifTrue.label number)), symbol .leftBrace]
        [.ifGoto (LabelFamily.ifTrue.label number), .goto (LabelFamily.ifFalse.label number),
          .label (LabelFamily.ifTrue.label number)] rfl rfl (by simp [Instruction.operand])
      have hended := hentered.postpend
        [symbol .rightBrace, emit (.goto (LabelFamily.ifEnd.label number)),
          emit (.label (LabelFamily.ifFalse.label number)),
          emit (.label (LabelFamily.ifEnd.label number))]
        [.goto (LabelFamily.ifEnd.label number), .label (LabelFamily.ifFalse.label number),
          .label (LabelFamily.ifEnd.label number)] rfl fun _ => by simp [Instruction.operand]
      rw [Statement.numbers, ← Nat.add_assoc]
      exact ((hstart.append (by simp; omega) fun _ => hended).node .ifStatement).of_eq
        (by simp [Statement.course, Expression.nodeCourse, node])
        (by simp [Statement.code, conditionalCode]) rfl
  | .alternative condition first second =>
      simp only [Statement.words_alternative, List.cons_append, List.append_assoc,
        allRegular_cons, allRegular_append] at hwords
      have hcondition := (condition.runs (h.numbered (number + 1)) hsmall (start + 2)
        hwords.2.2.1).node .expression
      have hfirst := (first.runs h hsmall (number + 1) (start + 2 + condition.words.length + 2)
        hwords.2.2.2.2.2.1).node .statements
      have hsecond := (second.runs h hsmall (number + 1 + first.numbers)
        (start + 2 + condition.words.length + 2 + first.words.length + 3)
        hwords.2.2.2.2.2.2.2.2.2.1).node .statements
      have hnumbered := (hcondition.prepend (start + 1) [symbol .leftParen] [] rfl rfl
        bounded_nil).number
      have hstart := hnumbered.prepend start [keyword .if] [] rfl rfl bounded_nil
      have hentered := hfirst.prepend (start + 2 + condition.words.length)
        [symbol .rightParen, emit (.ifGoto (LabelFamily.ifTrue.label number)),
          emit (.goto (LabelFamily.ifFalse.label number)),
          emit (.label (LabelFamily.ifTrue.label number)), symbol .leftBrace]
        [.ifGoto (LabelFamily.ifTrue.label number), .goto (LabelFamily.ifFalse.label number),
          .label (LabelFamily.ifTrue.label number)] rfl rfl (by simp [Instruction.operand])
      have helse := hsecond.prepend
        (start + 2 + condition.words.length + 2 + first.words.length)
        [symbol .rightBrace, emit (.goto (LabelFamily.ifEnd.label number)),
          emit (.label (LabelFamily.ifFalse.label number)), keyword .else, symbol .leftBrace]
        [.goto (LabelFamily.ifEnd.label number), .label (LabelFamily.ifFalse.label number)] rfl
        rfl (by simp [Instruction.operand])
      have hended := helse.postpend
        [symbol .rightBrace, emit (.label (LabelFamily.ifEnd.label number))]
        [.label (LabelFamily.ifEnd.label number)] rfl fun _ => by simp [Instruction.operand]
      have hbranches := hentered.append
        (show _ = start + 2 + condition.words.length + 2 + first.words.length by simp; omega)
        fun _ => hended
      rw [Statement.numbers, ← Nat.add_assoc, ← Nat.add_assoc]
      exact ((hstart.append (by simp; omega) fun _ => hbranches).node .ifStatement).of_eq
        (by simp [Statement.course, Expression.nodeCourse, node])
        (by simp [Statement.code, conditionalCode]) (by simp [Statement.faults])
  | .loop condition body =>
      simp only [Statement.words_loop, List.cons_append, List.append_assoc,
        allRegular_cons, allRegular_append] at hwords
      have hcondition := (condition.runs (h.numbered (number + 1)) hsmall (start + 2)
        hwords.2.2.1).node .expression
      have hbody := (body.runs h hsmall (number + 1) (start + 2 + condition.words.length + 2)
        hwords.2.2.2.2.2.1).node .statements
      have hnumbered := (hcondition.prepend (start + 1)
        [emit (.label (LabelFamily.whileStart.label number)), symbol .leftParen]
        [.label (LabelFamily.whileStart.label number)] rfl rfl
        (by simp [Instruction.operand])).number
      have hstart := hnumbered.prepend start [keyword .while] [] rfl rfl bounded_nil
      have hentered := hbody.prepend (start + 2 + condition.words.length)
        [symbol .rightParen, emit (.operate .not),
          emit (.ifGoto (LabelFamily.whileEnd.label number)), symbol .leftBrace]
        [.operate .not, .ifGoto (LabelFamily.whileEnd.label number)] rfl rfl
        (by simp [Instruction.operand])
      have hended := hentered.postpend
        [symbol .rightBrace, emit (.goto (LabelFamily.whileStart.label number)),
          emit (.label (LabelFamily.whileEnd.label number))]
        [.goto (LabelFamily.whileStart.label number),
          .label (LabelFamily.whileEnd.label number)] rfl fun _ => by
            simp [Instruction.operand]
      rw [Statement.numbers, ← Nat.add_assoc]
      exact ((hstart.append (by simp; omega) fun _ => hended).node .whileStatement).of_eq
        (by simp [Statement.course, Expression.nodeCourse, node])
        (by simp [Statement.code, loopCode]) rfl
  | .call called =>
      simp only [Statement.words_call, List.cons_append, allRegular_cons, allRegular_append]
        at hwords
      have hcalled := (called.runs hsees hsmall (start + 1) hwords.2.1).postpend
        [symbol .semicolon, emit (.pop .temp 0)] [.pop .temp 0] rfl
        fun _ => by simp [Instruction.operand]
      exact ((hcalled.prepend start [keyword .do] [] rfl rfl bounded_nil).node
        .doStatement).of_eq (by simp [Statement.course, node]) (by simp [Statement.code]) rfl
  | .returnNothing =>
      exact Runs.plain start rfl (by simp [Statement.code, Instruction.operand])
  | .returnValue value =>
      simp only [Statement.words_returnValue, List.cons_append, allRegular_cons,
        allRegular_append] at hwords
      have hvalue := ((value.runs hsees hsmall (start + 1) hwords.2.1).node
        .expression).postpend [symbol .semicolon, emit .return] [.return] rfl
        fun _ => by simp [Instruction.operand]
      exact ((hvalue.prepend start [keyword .return] [] rfl rfl bounded_nil).node
        .returnStatement).of_eq (by simp [Statement.course, Expression.nodeCourse, node])
        (by simp [Statement.code]) rfl

theorem Statements.runs (h : context.Sees around) (hsmall : around.Small)
    (statements : Statements) (number start : Nat) (hwords : AllRegular statements.words) :
    Runs (context.numbered number) start (statements.course number)
      (context.numbered (number + statements.numbers)) (statements.code around number)
      (statements.faults around start) := by
  match statements with
  | .nil => exact Runs.plain start rfl bounded_nil
  | .cons first rest =>
      rw [Statements.words_cons, allRegular_append] at hwords
      have hfirst := first.runs h hsmall number start hwords.1
      have hrest := rest.runs h hsmall (number + first.numbers) (start + first.words.length)
        hwords.2
      rw [Nat.add_assoc] at hrest
      exact hfirst.append (by simp) fun _ => hrest

end

end Statements

end JackLang
