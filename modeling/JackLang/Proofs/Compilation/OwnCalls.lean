import JackLang.Proofs.PartialPrograms

/-! # Calls without a qualifier

A name in front of a parenthesis calls a subroutine of the class itself, unless it stands
behind a dot or is being declared. Along the steps of a unit such a call is due as soon as
its last parenthesis is taken, and the step behind this one gives it out under the name of
the class. So it is among the events of a compilation, even if the rest is cut short.
-/

set_option autoImplicit false

namespace JackLang

open Step (node takes symbol keyword identifier emit)

/-- The parentheses among words match. -/
inductive Matched : List Word → Prop
  | nil : Matched []
  | plain {word : Word} {rest : List Word} (hopen : word.kind ≠ .symbol .leftParen)
      (hclose : word.kind ≠ .symbol .rightParen) (hrest : Matched rest) :
      Matched (word :: rest)
  | enclosed {inner rest : List Word} (hinner : Matched inner) (hrest : Matched rest) :
      Matched (.symbol .leftParen :: inner ++ .symbol .rightParen :: rest)

/-- Whether a name behind a token of the kind can be that of a call without a qualifier.
Behind a dot it has one, and behind the result of a subroutine it is declared. -/
def TokenKind.leadsToOwnCall : TokenKind → Bool
  | .symbol .dot => false
  | .keyword .void => false
  | kind => !kind.isType

/-- The words end with a call of the name without a qualifier, from its name to the
parenthesis that matches the one behind the name. -/
def EndsInOwnCall (words : List Word) (name : String) : Prop :=
  ∃ front before inner,
    words = front ++ before :: .identifier name :: .symbol .leftParen :: inner ++
      [.symbol .rightParen] ∧
    before.kind.leadsToOwnCall = true ∧ Matched inner

/-- Where calls stand behind some words, which come last first: the parentheses that are
open, innermost first, each with the name that is called if it belongs to a call without a
qualifier, and the call of this sort that is complete with the last word and is due. -/
structure OpenCalls where
  taken : List Word
  opened : List (Option String)
  due : Option String
  className : String

/-- The step invokes the subroutine of the class. -/
def Step.invokesOwn (name : String) : Step → Bool
  | .act (.invoke (.own called) _) => called = name
  | _ => false

/-- The name of the class behind an action. -/
def Action.classBehind (className : String) : Action → String
  | .nameClass name => name
  | _ => className

namespace OpenCalls

def start : OpenCalls := ⟨[], [], none, ""⟩

/-- A name can stand behind the words as that of a call without a qualifier. -/
def leadsToOwnCall : List Word → Bool
  | [] => false
  | before :: _ => before.kind.leadsToOwnCall

/-- The name that a parenthesis behind the words calls without a qualifier. -/
def called? : List Word → Option String
  | [] => none
  | name :: front =>
      if name.kind = .identifier ∧ leadsToOwnCall front = true then some name.lexeme else none

def take (calls : OpenCalls) (word : Word) : OpenCalls :=
  match word.kind with
  | .symbol .leftParen =>
      ⟨word :: calls.taken, called? calls.taken :: calls.opened, none, calls.className⟩
  | .symbol .rightParen =>
      ⟨word :: calls.taken, calls.opened.tail, calls.opened.head?.join, calls.className⟩
  | _ => ⟨word :: calls.taken, calls.opened, none, calls.className⟩

theorem take_of_ne (calls : OpenCalls) {word : Word} (hopen : word.kind ≠ .symbol .leftParen)
    (hclose : word.kind ≠ .symbol .rightParen) :
    calls.take word = ⟨word :: calls.taken, calls.opened, none, calls.className⟩ := by
  unfold take
  split
  · contradiction
  · contradiction
  · rfl

theorem className_take (calls : OpenCalls) (word : Word) :
    (calls.take word).className = calls.className := by
  unfold take
  split <;> rfl

theorem taken_take (calls : OpenCalls) (word : Word) :
    (calls.take word).taken = word :: calls.taken := by
  unfold take
  split <;> rfl

def after (calls : OpenCalls) : Step → OpenCalls
  | .took token => calls.take token.word
  | .act action => ⟨calls.taken, calls.opened, none, action.classBehind calls.className⟩
  | _ => ⟨calls.taken, calls.opened, none, calls.className⟩

def behind (calls : OpenCalls) : Event → OpenCalls
  | .leaf token => calls.take token.word
  | .classNamed name => ⟨calls.taken, calls.opened, none, name⟩
  | _ => ⟨calls.taken, calls.opened, none, calls.className⟩

/-- Where calls stand behind a step. The call that is due has to be invoked, with the class
named already. -/
def after? (className : String) (calls : OpenCalls) (step : Step) : Option OpenCalls :=
  match calls.due with
  | none => some (calls.after step)
  | some name =>
      if calls.className = className ∧ step.invokesOwn name = true then some (calls.after step)
      else none

def follow? (className : String) (calls : OpenCalls) : List Step → Option OpenCalls
  | [] => some calls
  | step :: rest => (calls.after? className step).bind fun next => next.follow? className rest

/-- Each call is given out by the event that follows when it is due. -/
def Answered (className : String) (calls : OpenCalls) : List Event → Prop
  | [] => True
  | event :: rest =>
      (∀ name ∈ calls.due, ∃ count,
        event = .emitted (.call (className ++ "." ++ name) count)) ∧
      (calls.behind event).Answered className rest

end OpenCalls

open OpenCalls (follow?)

section Steps

variable {className named : String} {taken : List Word} {opened : List (Option String)}
  {rest : List Step}

theorem follow?_append (calls : OpenCalls) (first second : List Step) :
    calls.follow? className (first ++ second) =
      (calls.follow? className first).bind fun next => next.follow? className second := by
  induction first generalizing calls with
  | nil => rfl
  | cons step rest ih => simp only [List.cons_append, follow?, ih, Option.bind_assoc]

@[simp] theorem follow?_nil (calls : OpenCalls) : calls.follow? className [] = some calls := rfl

@[simp] theorem follow?_opened (rule : Rule) :
    follow? className ⟨taken, opened, none, named⟩ (.opened rule :: rest) =
      follow? className ⟨taken, opened, none, named⟩ rest := rfl

@[simp] theorem follow?_closed (rule : Rule) :
    follow? className ⟨taken, opened, none, named⟩ (.closed rule :: rest) =
      follow? className ⟨taken, opened, none, named⟩ rest := rfl

@[simp] theorem follow?_act (action : Action) :
    follow? className ⟨taken, opened, none, named⟩ (.act action :: rest) =
      follow? className ⟨taken, opened, none, action.classBehind named⟩ rest := rfl

@[simp] theorem follow?_emit (instruction : Instruction) :
    follow? className ⟨taken, opened, none, named⟩ (emit instruction :: rest) =
      follow? className ⟨taken, opened, none, named⟩ rest := rfl

@[simp] theorem follow?_leftParen :
    follow? className ⟨taken, opened, none, named⟩ (symbol .leftParen :: rest) =
      follow? className
        ⟨.symbol .leftParen :: taken, OpenCalls.called? taken :: opened, none, named⟩ rest := rfl

@[simp] theorem follow?_rightParen (called : Option String) :
    follow? className ⟨taken, called :: opened, none, named⟩ (symbol .rightParen :: rest) =
      follow? className ⟨.symbol .rightParen :: taken, opened, called, named⟩ rest := rfl

/-- A word that is no parenthesis leaves open what is open. -/
theorem follow?_takes {word : Word} (hopen : word.kind ≠ .symbol .leftParen)
    (hclose : word.kind ≠ .symbol .rightParen) :
    follow? className ⟨taken, opened, none, named⟩ (takes word :: rest) =
      follow? className ⟨word :: taken, opened, none, named⟩ rest := by
  have htake : OpenCalls.take ⟨taken, opened, none, named⟩ word =
      ⟨word :: taken, opened, none, named⟩ := OpenCalls.take_of_ne _ hopen hclose
  rw [← htake]
  rfl

@[simp] theorem follow?_symbol {mark : Symbol} (hopen : mark ≠ .leftParen)
    (hclose : mark ≠ .rightParen) :
    follow? className ⟨taken, opened, none, named⟩ (symbol mark :: rest) =
      follow? className ⟨.symbol mark :: taken, opened, none, named⟩ rest :=
  follow?_takes (by simpa using hopen) (by simpa using hclose)

@[simp] theorem follow?_keyword (reserved : Keyword) :
    follow? className ⟨taken, opened, none, named⟩ (keyword reserved :: rest) =
      follow? className ⟨.keyword reserved :: taken, opened, none, named⟩ rest :=
  follow?_takes nofun nofun

@[simp] theorem follow?_identifier (name : String) :
    follow? className ⟨taken, opened, none, named⟩ (identifier name :: rest) =
      follow? className ⟨.identifier name :: taken, opened, none, named⟩ rest :=
  follow?_takes nofun nofun

@[simp] theorem follow?_invoke_own (name : String) (count : Nat) :
    follow? className ⟨taken, opened, some name, className⟩
        (.act (.invoke (.own name) count) :: rest) =
      follow? className ⟨taken, opened, none, className⟩ rest := by
  simp [follow?, OpenCalls.after?, Step.invokesOwn, OpenCalls.after, Action.classBehind]

@[simp] theorem follow?_node (rule : Rule) (inner : List Step) :
    follow? className ⟨taken, opened, none, named⟩ (node rule inner ++ rest) =
      (follow? className ⟨taken, opened, none, named⟩ inner).bind fun next =>
        next.follow? className (.closed rule :: rest) := by
  simp [node, follow?_append]

@[simp] theorem follow?_node_alone (rule : Rule) (inner : List Step) :
    follow? className ⟨taken, opened, none, named⟩ (node rule inner) =
      (follow? className ⟨taken, opened, none, named⟩ inner).bind fun next =>
        next.follow? className [.closed rule] := by
  simp [node, follow?_append]

end Steps

section Phrases

variable {className : String}

@[simp] theorem leadsToOwnCall_cons (word : Word) (taken : List Word) :
    OpenCalls.leadsToOwnCall (word :: taken) = word.kind.leadsToOwnCall := rfl

@[simp] theorem leadsToOwnCall_symbol {mark : Symbol} (h : mark ≠ .dot) :
    TokenKind.leadsToOwnCall (.symbol mark) = true := by
  cases mark <;> first | rfl | contradiction

@[simp] theorem leadsToOwnCall_dot : TokenKind.leadsToOwnCall (.symbol .dot) = false := rfl

@[simp] theorem BinaryOperator.symbol_ne (operator : BinaryOperator) :
    operator.symbol ≠ .leftParen ∧ operator.symbol ≠ .rightParen ∧ operator.symbol ≠ .dot := by
  cases operator <;> decide

@[simp] theorem UnaryOperator.symbol_ne (operator : UnaryOperator) :
    operator.symbol ≠ .leftParen ∧ operator.symbol ≠ .rightParen ∧ operator.symbol ≠ .dot := by
  cases operator <;> decide

/-- A parenthesis where a term can start encloses a term. -/
theorem called?_of_leads {taken : List Word} (h : OpenCalls.leadsToOwnCall taken = true) :
    OpenCalls.called? taken = none := by
  cases taken with
  | nil => rfl
  | cons before front =>
      rw [OpenCalls.called?, if_neg]
      rintro ⟨hkind, _⟩
      rw [leadsToOwnCall_cons, hkind] at h
      cases h

@[simp] theorem called?_identifier (name : String) (taken : List Word) :
    OpenCalls.called? (.identifier name :: taken) =
      if OpenCalls.leadsToOwnCall taken = true then some name else none := by
  simp [OpenCalls.called?]

mutual

theorem Expression.follow?_course (expression : Expression) {taken : List Word}
    {opened : List (Option String)} (h : OpenCalls.leadsToOwnCall taken = true) :
    follow? className ⟨taken, opened, none, className⟩ expression.course =
      some ⟨expression.words.reverse ++ taken, opened, none, className⟩ := by
  match expression with
  | .single term => simp [Expression.course, term.follow?_course h]
  | .operate first operator last =>
      simp [Expression.course, follow?_append, first.follow?_course h, last.follow?_course]

theorem Term.follow?_course (term : Term) {taken : List Word}
    {opened : List (Option String)} (h : OpenCalls.leadsToOwnCall taken = true) :
    follow? className ⟨taken, opened, none, className⟩ term.course =
      some ⟨term.words.reverse ++ taken, opened, none, className⟩ := by
  match term with
  | .integer _ | .string _ | .trueConstant | .falseConstant | .nullConstant | .thisConstant
  | .name _ => simp [Term.course, follow?_takes, Action.classBehind]
  | .parenthesized inner =>
      simp [Term.course, inner.follow?_course, called?_of_leads h]
  | .unary operator operand =>
      simp [Term.course, operand.follow?_course]
  | .element array index =>
      simp [Term.course, index.follow?_course, Action.classBehind]
  | .ownCall name arguments =>
      simp [Term.course, arguments.follow?_course, h]
  | .memberCall receiver name arguments =>
      simp [Term.course, arguments.follow?_course, Action.classBehind]

theorem Arguments.follow?_course (arguments : Arguments) (callee : Callee) {taken : List Word}
    {opened : List (Option String)} (h : OpenCalls.leadsToOwnCall taken = true) :
    follow? className ⟨taken, opened, none, className⟩ (arguments.course callee) =
      some ⟨arguments.words.reverse ++ taken, opened, none, className⟩ := by
  match arguments with
  | .none => simp [Arguments.course]
  | .some list => simp [Arguments.course, list.follow?_course callee h]

theorem ArgumentList.follow?_course (list : ArgumentList) (callee : Callee) {taken : List Word}
    {opened : List (Option String)} (h : OpenCalls.leadsToOwnCall taken = true) :
    follow? className ⟨taken, opened, none, className⟩ (list.course callee) =
      some ⟨list.words.reverse ++ taken, opened, none, className⟩ := by
  match list with
  | .single argument =>
      simp [ArgumentList.course, argument.follow?_course h, Action.classBehind]
  | .append before last =>
      simp [ArgumentList.course, follow?_append, before.follow?_course callee h,
        last.follow?_course, Action.classBehind]

end

theorem Expression.follow?_nodeCourse (expression : Expression) {taken : List Word}
    {opened : List (Option String)} (h : OpenCalls.leadsToOwnCall taken = true) :
    follow? className ⟨taken, opened, none, className⟩ expression.nodeCourse =
      some ⟨expression.words.reverse ++ taken, opened, none, className⟩ := by
  simp [nodeCourse, expression.follow?_course h]

theorem Call.follow?_course (call : Call) {taken : List Word} {opened : List (Option String)}
    (h : OpenCalls.leadsToOwnCall taken = true) :
    follow? className ⟨taken, opened, none, className⟩ call.course =
      some ⟨call.words.reverse ++ taken, opened, none, className⟩ := by
  cases call with
  | own name arguments => simpa [course] using (Term.ownCall name arguments).follow?_course h
  | member receiver name arguments =>
      simpa [course] using (Term.memberCall receiver name arguments).follow?_course h

@[simp] theorem leadsToOwnCall_do : TokenKind.leadsToOwnCall (.keyword .do) = true := by
  decide

@[simp] theorem leadsToOwnCall_return : TokenKind.leadsToOwnCall (.keyword .return) = true := by
  decide

@[simp] theorem called?_keyword (reserved : Keyword) (taken : List Word) :
    OpenCalls.called? (.keyword reserved :: taken) = none := by
  simp [OpenCalls.called?]

mutual

theorem Statement.follow?_course (statement : Statement) (number : Nat) (taken : List Word)
    (opened : List (Option String)) :
    follow? className ⟨taken, opened, none, className⟩ (statement.course number) =
      some ⟨statement.words.reverse ++ taken, opened, none, className⟩ := by
  match statement with
  | .assign target value =>
      simp [Statement.course, follow?_append, value.follow?_nodeCourse, Action.classBehind]
  | .assignElement array index value =>
      simp [Statement.course, follow?_append, index.follow?_nodeCourse,
        value.follow?_nodeCourse, Action.classBehind]
  | .conditional condition body =>
      simp [Statement.course, follow?_append, condition.follow?_nodeCourse,
        body.follow?_course, Action.classBehind]
  | .alternative condition first second =>
      simp [Statement.course, follow?_append, condition.follow?_nodeCourse,
        first.follow?_course, second.follow?_course, Action.classBehind]
  | .loop condition body =>
      simp [Statement.course, follow?_append, condition.follow?_nodeCourse,
        body.follow?_course, Action.classBehind]
  | .call call =>
      simp [Statement.course, follow?_append, call.follow?_course]
  | .returnNothing => simp [Statement.course]
  | .returnValue value =>
      simp [Statement.course, follow?_append, value.follow?_nodeCourse]

theorem Statements.follow?_course (statements : Statements) (number : Nat) (taken : List Word)
    (opened : List (Option String)) :
    follow? className ⟨taken, opened, none, className⟩ (statements.course number) =
      some ⟨statements.words.reverse ++ taken, opened, none, className⟩ := by
  match statements with
  | .nil => simp [Statements.course]
  | .cons first rest =>
      simp [Statements.course, follow?_append, first.follow?_course, rest.follow?_course]

end

end Phrases

section Units

variable {className : String} {taken : List Word} {opened : List (Option String)}

/-- The step takes no parenthesis, and leaves the name of the class as it is. -/
def Step.isPlain : Step → Bool
  | .took token => token.kind ≠ .symbol .leftParen ∧ token.kind ≠ .symbol .rightParen
  | .act (.nameClass _) => false
  | _ => true

theorem follow?_of_plain {steps : List Step} (h : steps.all Step.isPlain = true)
    (taken : List Word) :
    follow? className ⟨taken, opened, none, className⟩ steps =
      some ⟨(wordsTaken steps).reverse ++ taken, opened, none, className⟩ := by
  induction steps generalizing taken with
  | nil => rfl
  | cons step rest ih =>
      obtain ⟨hstep, hrest⟩ := Bool.and_eq_true_iff.mp h
      cases step with
      | opened rule | closed rule => exact ih hrest taken
      | took token =>
          have hword : token.word.kind ≠ .symbol .leftParen ∧
              token.word.kind ≠ .symbol .rightParen := of_decide_eq_true hstep
          have htake : OpenCalls.take ⟨taken, opened, none, className⟩ token.word =
            ⟨token.word :: taken, opened, none, className⟩ :=
            OpenCalls.take_of_ne _ hword.1 hword.2
          rw [follow?, OpenCalls.after?, Option.bind_some, OpenCalls.after, htake, ih hrest]
          simp
      | act action =>
          cases action with
          | nameClass name => cases hstep
          | _ => exact ih hrest taken

@[simp] theorem isPlain_opened (rule : Rule) : (Step.opened rule).isPlain = true := rfl

@[simp] theorem isPlain_closed (rule : Rule) : (Step.closed rule).isPlain = true := rfl

@[simp] theorem isPlain_symbol (mark : Symbol) :
    (symbol mark).isPlain = (mark ≠ .leftParen ∧ mark ≠ .rightParen : Bool) := by
  cases mark <;> rfl

@[simp] theorem isPlain_keyword (reserved : Keyword) : (keyword reserved).isPlain = true := rfl

@[simp] theorem isPlain_type (type : TypeName) : (takes type.word).isPlain = true := by
  cases type <;> rfl

@[simp] theorem isPlain_classVariableKind (kind : ClassVariableKind) :
    (takes kind.word).isPlain = true := by
  cases kind <;> rfl

@[simp] theorem all_isPlain_declareCourse (kind : VariableKind) (type name : String) :
    (declareCourse kind type name).all Step.isPlain = true := rfl

@[simp] theorem VariableGroup.all_isPlain (group : VariableGroup) (kind : VariableKind) :
    (group.course kind).all Step.isPlain = true := by
  simp [course, List.all_flatMap]

@[simp] theorem ClassVariables.all_isPlain (declaration : ClassVariables) :
    declaration.course.all Step.isPlain = true := by
  simp [course, node]

@[simp] theorem Parameter.all_isPlain (parameter : Parameter) :
    parameter.course.all Step.isPlain = true := by
  simp [course]

theorem all_isPlain_parameterCourse (parameters : List Parameter) :
    (parameterCourse parameters).all Step.isPlain = true := by
  cases parameters <;> simp [parameterCourse, List.all_flatMap]

theorem all_isPlain_localCourse (groups : List VariableGroup) :
    (localCourse groups).all Step.isPlain = true := by
  simp [localCourse, List.all_flatMap, node]

/-- The name of a subroutine that is declared calls nothing. -/
@[simp] theorem leadsToOwnCall_result (result : Option TypeName) :
    (resultWord result).kind.leadsToOwnCall = false := by
  rcases result with _ | _ | _ | _ | _ <;> rfl

theorem follow?_result (result : Option TypeName) (rest : List Step) :
    follow? className ⟨taken, opened, none, className⟩ (takes (resultWord result) :: rest) =
      follow? className ⟨resultWord result :: taken, opened, none, className⟩ rest := by
  rcases result with _ | _ | _ | _ | _ <;> rfl

theorem Subroutine.follow?_course (subroutine : Subroutine) (number : Nat)
    (taken : List Word) :
    follow? className ⟨taken, opened, none, className⟩ (subroutine.course number) =
      some ⟨subroutine.words.reverse ++ taken, opened, none, className⟩ := by
  simp [course, words, follow?_append, follow?_result,
    follow?_of_plain (all_isPlain_parameterCourse _), follow?_of_plain (all_isPlain_localCourse _),
    subroutine.body.follow?_course, Action.classBehind]

theorem follow?_subroutinesCourse (number : Nat) (subroutines : List Subroutine)
    (taken : List Word) :
    follow? className ⟨taken, opened, none, className⟩ (subroutinesCourse number subroutines) =
      some ⟨(subroutines.flatMap Subroutine.words).reverse ++ taken, opened, none, className⟩ := by
  induction subroutines generalizing number taken with
  | nil => rfl
  | cons first others ih =>
      simp [subroutinesCourse, follow?_append, first.follow?_course, ih]

/-- Along the course of a unit each call without a qualifier is invoked when it is due. -/
theorem ClassUnit.follow?_course (unit : ClassUnit) (last : Token) :
    (OpenCalls.start.follow? unit.name (unit.course ++ [.took last])).isSome = true := by
  have hdeclarations :
      (unit.declarations.flatMap ClassVariables.course).all Step.isPlain = true := by
    simp [List.all_flatMap]
  have hcourse : OpenCalls.start.follow? unit.name unit.course =
      some ⟨unit.words.reverse, [], none, unit.name⟩ := by
    simp [course, OpenCalls.start, follow?_append, follow?_of_plain hdeclarations,
      follow?_subroutinesCourse, Action.classBehind, unit.words_eq]
  rw [follow?_append, hcourse]
  rfl

end Units

section Readings

variable {className : String} {calls next : OpenCalls} {steps more : List Step}

/-- A step is made when nothing is due, or it invokes what is due. -/
theorem OpenCalls.of_after? {step : Step} (h : calls.after? className step = some next) :
    next = calls.after step ∧
      ∀ name ∈ calls.due, calls.className = className ∧ step.invokesOwn name = true := by
  unfold after? at h
  split at h
  · rename_i hdue
    exact ⟨(Option.some.inj h).symm, by simp [hdue]⟩
  · rename_i name hdue
    obtain ⟨hinvokes, hnext⟩ := Option.ite_none_right_eq_some.mp h
    refine ⟨(Option.some.inj hnext).symm, ?_⟩
    rintro _ hname
    obtain rfl : name = _ := Option.some.inj (hdue.symm.trans hname)
    exact hinvokes

theorem follow?_of_prefix (h : steps <+: more)
    (hmore : (calls.follow? className more).isSome = true) :
    (calls.follow? className steps).isSome = true := by
  obtain ⟨rest, rfl⟩ := h
  rw [follow?_append] at hmore
  exact Option.isSome_of_isSome_bind hmore

theorem OpenCalls.after?_blank (calls : OpenCalls) (step : Step) :
    calls.after? className step.blank = calls.after? className step := by
  cases step with
  | act action => cases action <;> rfl
  | _ => rfl

theorem follow?_blank (calls : OpenCalls) (steps : List Step) :
    calls.follow? className (steps.map Step.blank) = calls.follow? className steps := by
  induction steps generalizing calls with
  | nil => rfl
  | cons step rest ih => simp only [List.map_cons, follow?, OpenCalls.after?_blank, ih]

/-- A unit that a source starts like invokes its calls without a qualifier when they are
due, as far as the source is read. -/
theorem ClassUnit.Opens.follow? {unit : ClassUnit} {source : String} (h : unit.Opens source) :
    (OpenCalls.start.follow? unit.name
      (readUnit (TokenStream.ofSource source).toList).steps).isSome = true := by
  obtain ⟨last, _, hstarts⟩ := h.starts
  rw [← follow?_blank]
  apply follow?_of_prefix hstarts
  rw [follow?_blank]
  exact unit.follow?_course last

end Readings

section Events

variable {className : String} {calls : OpenCalls} {context : Context}

theorem Context.className_perform (context : Context) (action : Action) :
    (context.perform action).context.className = action.classBehind context.className := by
  cases action with
  | require name | load name | store name =>
      simp only [perform, withVariable]
      split <;> rfl
  | integer constant | argument callee count first =>
      simp only [perform]
      split <;> rfl
  | string constant =>
      simp only [perform, string]
      split <;> rfl
  | _ => rfl

theorem OpenCalls.foldl_emitted (taken : List Word) (opened : List (Option String))
    (named : String) (code : List Instruction) :
    (code.map Event.emitted).foldl behind ⟨taken, opened, none, named⟩ =
      ⟨taken, opened, none, named⟩ := by
  induction code with
  | nil => rfl
  | cons instruction rest ih => exact ih

/-- The events of an action leave the calls as the action does. -/
theorem OpenCalls.foldl_events (hdue : calls.due = none) (context : Context) (action : Action) :
    (context.perform action).events.foldl behind calls = calls.after (.act action) := by
  obtain ⟨taken, opened, due, named⟩ := calls
  obtain rfl : due = none := hdue
  have hemitted := foldl_emitted taken opened named
  cases action with
  | require name | load name | store name =>
      simp only [Context.perform, Context.withVariable]
      split
      · exact hemitted _
      · rfl
  | integer constant | argument callee count first =>
      simp only [Context.perform]
      split <;> rfl
  | string constant =>
      simp only [Context.perform, Context.string]
      split
      · rfl
      · exact hemitted _
  | enterBody kind name | receive callee => exact hemitted _
  | _ => rfl

theorem OpenCalls.due_behind (calls : OpenCalls) {event : Event} (h : event.step? = none) :
    (calls.behind event).due = none := by
  cases event with
  | leaf token => cases h
  | _ => rfl

/-- While nothing is taken nothing gets due. -/
theorem OpenCalls.answered_append {added rest : List Event} (hdue : calls.due = none)
    (hadded : added.filterMap Event.step? = [])
    (hrest : (added.foldl behind calls).Answered className rest) :
    calls.Answered className (added ++ rest) := by
  induction added generalizing calls with
  | nil => exact hrest
  | cons event others ih =>
      obtain ⟨hevent, hothers⟩ : event.step? = none ∧ others.filterMap Event.step? = [] := by
        simpa [List.filterMap_eq_nil_iff] using hadded
      exact ⟨by simp [hdue], ih (due_behind _ hevent) hothers hrest⟩

theorem OpenCalls.answered_cons {event : Event} {rest : List Event} (hdue : calls.due = none)
    (hrest : (calls.behind event).Answered className rest) :
    calls.Answered className (event :: rest) :=
  ⟨by simp [hdue], hrest⟩

theorem exists_of_invokesOwn {name : String} {action : Action}
    (h : (Step.act action).invokesOwn name = true) :
    ∃ count, action = .invoke (.own name) count := by
  cases action with
  | invoke callee count =>
      cases callee with
      | own called =>
          obtain rfl : called = name := of_decide_eq_true h
          exact ⟨count, rfl⟩
      | member receiver called => cases h
  | _ => cases h

theorem events_followAfter_act (context : Context) (failure : Option Failure) (action : Action)
    (rest : List Step) :
    (followAfter [] context failure (.act action :: rest)).events =
      (context.perform action).events ++
        match (context.perform action).error with
        | none => (followAfter [] (context.perform action).context failure rest).events
        | some _ => [] := by
  rcases heffect : context.perform action with ⟨added, next, error⟩
  cases error with
  | none =>
      simp only [followAfter, heffect]
      rw [events_followAfter, List.reverseAux_eq, List.append_nil, List.reverse_reverse]
  | some error => simp [followAfter, heffect, List.reverseAux_eq]

/-- Where calls are invoked when they are due, the events give them out. -/
theorem answered_followAfter {steps : List Step} (failure : Option Failure)
    (hnamed : calls.className = context.className)
    (h : (calls.follow? className steps).isSome = true) :
    calls.Answered className (followAfter [] context failure steps).events := by
  -- By induction on the steps. Only an action that invokes can follow when a call is due,
  -- and its one event is the call, named as the context names the class.
  induction steps generalizing calls context with
  | nil => trivial
  | cons step rest ih =>
      obtain ⟨last, hlast⟩ := Option.isSome_iff_exists.mp h
      obtain ⟨next, hnext, hrest⟩ := Option.bind_eq_some_iff.mp hlast
      have hfollows := Option.isSome_of_eq_some hrest
      obtain ⟨rfl, hdue⟩ := OpenCalls.of_after? hnext
      have hidle : (∀ name, step.invokesOwn name = false) → calls.due = none := by
        intro hnone
        refine Option.eq_none_iff_forall_ne_some.mpr fun name hname => ?_
        have hinvokes := (hdue name hname).2
        rw [hnone name] at hinvokes
        cases hinvokes
      cases step with
      | opened rule | closed rule =>
          rw [followAfter, events_followAfter]
          exact OpenCalls.answered_cons (hidle fun _ => rfl) (ih hnamed hfollows)
      | took token =>
          rw [followAfter, events_followAfter]
          have htaken := (calls.className_take token.word).trans hnamed
          exact OpenCalls.answered_cons (hidle fun _ => rfl) (ih htaken hfollows)
      | act action =>
          have hbehind : (calls.after (.act action)).className =
              (context.perform action).context.className := by
            rw [context.className_perform, ← hnamed]
            rfl
          rw [events_followAfter_act]
          cases hcase : calls.due with
          | none =>
              apply OpenCalls.answered_append hcase (context.filterMap_step?_events action)
              rw [OpenCalls.foldl_events hcase]
              split
              · exact ih hbehind hfollows
              · trivial
          | some name =>
              obtain ⟨hclass, hinvokes⟩ := hdue name hcase
              obtain ⟨count, rfl⟩ := exists_of_invokesOwn hinvokes
              refine ⟨?_, ih hbehind hfollows⟩
              intro own hown
              obtain rfl : name = own := Option.some.inj (hcase.symm.trans hown)
              rw [← hclass, hnamed]
              exact ⟨_, rfl⟩

end Events

section Ends

variable {className : String} {calls other : OpenCalls} {front rest : List Event}

/-- The words that events show. -/
def wordsShown (events : List Event) : List Word :=
  wordsTaken (events.filterMap Event.step?)

/-- Matching parentheses leave open what is open. -/
theorem Matched.opened_foldl {words : List Word} (h : Matched words) (calls : OpenCalls) :
    (words.foldl OpenCalls.take calls).opened = calls.opened := by
  induction h generalizing calls with
  | nil => rfl
  | plain hopen hclose hrest ih =>
      rw [List.foldl_cons, ih, calls.take_of_ne hopen hclose]
  | enclosed hinner hrest ihinner ihrest =>
      rw [List.foldl_append, List.foldl_cons, List.foldl_cons, ihrest]
      exact congrArg List.tail (ihinner _)

theorem OpenCalls.Answered.drop (h : calls.Answered className (front ++ rest)) :
    (front.foldl behind calls).Answered className rest := by
  induction front generalizing calls with
  | nil => exact h
  | cons event others ih => exact ih h.2

theorem OpenCalls.take_congr (word : Word) (htaken : calls.taken = other.taken)
    (hopened : calls.opened = other.opened) :
    (calls.take word).taken = (other.take word).taken ∧
      (calls.take word).opened = (other.take word).opened ∧
      (calls.take word).due = (other.take word).due := by
  unfold take
  rw [htaken, hopened]
  split <;> exact ⟨rfl, rfl, rfl⟩

/-- What is taken and opened behind events is so behind the words that they show. -/
theorem OpenCalls.foldl_behind (events : List Event) (htaken : calls.taken = other.taken)
    (hopened : calls.opened = other.opened) :
    (events.foldl behind calls).taken = ((wordsShown events).foldl take other).taken ∧
      (events.foldl behind calls).opened = ((wordsShown events).foldl take other).opened := by
  induction events generalizing calls other with
  | nil => exact ⟨htaken, hopened⟩
  | cons event rest ih =>
      cases event with
      | leaf token =>
          obtain ⟨hnext, hstill, _⟩ := take_congr token.word htaken hopened
          exact ih hnext hstill
      | _ => exact ih htaken hopened

theorem wordsShown_append (first second : List Event) :
    wordsShown (first ++ second) = wordsShown first ++ wordsShown second := by
  rw [wordsShown, List.filterMap_append, wordsTaken_append]
  rfl

/-- Behind a call without a qualifier it is the call that is due. -/
theorem EndsInOwnCall.due_take {words : List Word} {close : Word} {name : String}
    (h : EndsInOwnCall (words ++ [close]) name) (calls : OpenCalls) :
    ((words.foldl OpenCalls.take calls).take close).due = some name := by
  obtain ⟨front, before, inner, hwords, hleads, hinner⟩ := h
  obtain ⟨rfl, hclose⟩ := List.append_inj' hwords rfl
  obtain rfl : close = .symbol .rightParen := List.singleton_inj.mp hclose
  rw [List.foldl_append, List.foldl_cons, List.foldl_cons, List.foldl_cons]
  generalize front.foldl OpenCalls.take calls = reached
  have hopened := hinner.opened_foldl
    (((reached.take before).take (.identifier name)).take (.symbol .leftParen))
  have hcalled : OpenCalls.called? (.identifier name :: (reached.take before).taken) =
      some name := by
    rw [called?_identifier, reached.taken_take, leadsToOwnCall_cons, if_pos hleads]
  have hdue := congrArg (fun opened => opened.head?.join) hopened
  exact hdue.trans hcalled

/-- A call without a qualifier is given out, under the name of the class, by the event that
follows its last parenthesis. -/
theorem OpenCalls.Answered.next_of_endsInOwnCall {close : Token} {next : Event} {name : String}
    {back : List Event} (h : calls.Answered className (front ++ .leaf close :: next :: back))
    (hends : EndsInOwnCall (wordsShown (front ++ [.leaf close])) name) :
    ∃ count, next = .emitted (.call (className ++ "." ++ name) count) := by
  obtain ⟨_, hnext, _⟩ := h.drop
  obtain ⟨htaken, hopened⟩ :=
    foldl_behind front (rfl : calls.taken = calls.taken) (rfl : calls.opened = calls.opened)
  rw [wordsShown_append] at hends
  apply hnext
  rw [behind, (take_congr close.word htaken hopened).2.2]
  exact hends.due_take calls

end Ends

end JackLang
