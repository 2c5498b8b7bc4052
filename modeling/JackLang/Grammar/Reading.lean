import JackLang.Grammar.Goal

/-! # Reading tokens

Reading the tokens of a unit against the stack of goals gives a list of steps:
nodes of the parse tree that open and close, tokens taken, and actions to be
carried out. One token of look-ahead decides every step. Each round takes one
token, and within a round the goals in front of the next token get lighter, so
reading ends.
-/

set_option autoImplicit false

namespace JackLang

inductive Step where
  | opened (rule : Rule)
  | closed (rule : Rule)
  | took (token : Token)
  | act (action : Action)
deriving DecidableEq, Repr

/-- A bound on the work that a phrase gives in front of the next token: more than
the goals that replace it give. -/
def Phrase.weight : Phrase → Nat
  | .termBody => 1
  | .operators => 1
  | .term => 4
  | .expression => 8
  | .moreArguments _ _ => 2
  | .argument _ _ => 12
  | .arguments _ => 14
  | .call _ => 1
  | .afterName _ => 2
  | .returnRest => 9
  | .ifRest => 2
  | .whileRest => 3
  | .elseRest => 1
  | .letRest _ => 2
  | .moreStatements => 2
  | .statements => 4
  | .locals => 2
  | .moreParameters => 1
  | .parameters => 1
  | .resultType => 1
  | .subroutines => 2
  | .moreNames _ _ => 1
  | .classVariables => 2

namespace Goal

def takesToken : Goal → Bool
  | .token _ _ => true
  | .shift => true
  | .name _ => true
  | .type _ => true
  | _ => false

/-- A bound on the work that a goal gives in front of the next token. -/
def weight : Goal → Nat
  | .phrase replaced => replaced.weight
  | _ => 1

/-- The weight of the goals in front of the first one that takes a token. -/
def effort : List Goal → Nat
  | [] => 0
  | goal :: rest => if goal.takesToken then 0 else goal.weight + effort rest

theorem effort_append_le (first second : List Goal) :
    effort (first ++ second) ≤ effort first + effort second := by
  induction first with
  | nil => simp [effort]
  | cons goal rest ih =>
      simp only [List.cons_append, effort]
      split
      · exact Nat.zero_le _
      · omega

end Goal

theorem Phrase.effort_startTerm {look : Token} {goals : List Goal}
    (h : Phrase.startTerm look = .ok goals) : Goal.effort goals = 0 := by
  unfold Phrase.startTerm at h
  split at h <;> simp only [Except.ok.injEq, reduceCtorEq] at h <;> subst h <;> rfl

/-- The goals that replace a phrase are lighter than the phrase. -/
theorem Phrase.effort_expand {phrase : Phrase} {look : Token} {number : Nat} {goals : List Goal}
    (h : phrase.expand look number = .ok goals) :
    Goal.effort goals < phrase.weight := by
  cases phrase with
  | termBody =>
      rw [Phrase.effort_startTerm h]
      decide
  | letRest target =>
      simp only [Phrase.expand, Phrase.assignment, Except.ok.injEq] at h
      subst h
      split <;>
        simp [Goal.effort, Goal.weight, Goal.takesToken, Goal.symbol, Phrase.weight]
  | _ =>
      simp only [Phrase.expand] at h
      repeat' split at h
      all_goals simp only [Except.ok.injEq, reduceCtorEq] at h
      all_goals
        subst h
        simp [Goal.effort, Goal.weight, Goal.takesToken, Goal.symbol, Goal.emit,
          Goal.callEnd, Goal.block, Goal.condition, Phrase.declaration, Phrase.subroutine,
          Phrase.statement, Phrase.conditional, Phrase.loop, Phrase.weight]

/-- How the goals in front of a token are settled: the token is taken, or
something else was expected. Steps come last first. -/
inductive Settlement where
  | taken (goals : List Goal) (number : Nat) (steps : List Step)
  | refused (expected : Expectation) (steps : List Step)

/-- Settles the goals in front of the look-ahead, behind the steps already made. -/
def settle (look : Token) (number : Nat) (steps : List Step) (goals : List Goal) : Settlement :=
  match goals with
  | [] => .refused .endOfFile steps
  | .token kind expected :: rest =>
      if look.kind = kind then .taken rest number (.took look :: steps)
      else .refused expected steps
  | .shift :: rest => .taken rest number (.took look :: steps)
  | .name role :: rest =>
      if look.kind = .identifier then
        .taken (role.next look ++ rest) number (.took look :: steps)
      else .refused role.expected steps
  | .type role :: rest =>
      if look.kind.isType then
        .taken (role.next look.lexeme ++ rest) number (.took look :: steps)
      else .refused .typeName steps
  | .opening rule :: rest => settle look number (.opened rule :: steps) rest
  | .closing rule :: rest => settle look number (.closed rule :: steps) rest
  | .act action :: rest => settle look number (.act action :: steps) rest
  | .phrase replaced :: rest =>
      match _h : replaced.expand look number with
      | .ok goals => settle look (number + replaced.numbersTaken) steps (goals ++ rest)
      | .error expected => .refused expected steps
termination_by Goal.effort goals
decreasing_by
  · simp [Goal.effort, Goal.takesToken, Goal.weight]
  · simp [Goal.effort, Goal.takesToken, Goal.weight]
  · simp [Goal.effort, Goal.takesToken, Goal.weight]
  · have hle := Goal.effort_append_le goals rest
    have hlt := Phrase.effort_expand _h
    simp only [Goal.effort, Goal.takesToken, Goal.weight, Bool.false_eq_true, if_false]
    omega

/-- How reading ends: at the end of the file, at a token where something else
was expected, or at text that is no token. -/
inductive Verdict where
  | accepted
  | unexpected (expected : Expectation) (found : Token)
  | lexical (error : LexicalError) (found : Token)
deriving DecidableEq, Repr

structure Reading where
  steps : List Step
  verdict : Verdict
deriving DecidableEq, Repr

/-- Reads tokens against goals, behind the steps already made, which come last
first. Text that is no token ends the reading as soon as it is the look-ahead. -/
def readAfter (steps : List Step) (number : Nat) (goals : List Goal) :
    List Token → Reading
  | [] => ⟨steps.reverse, .accepted⟩
  | look :: rest =>
      match look.kind with
      | .invalid error => ⟨steps.reverse, .lexical error look⟩
      | _ =>
          match settle look number steps goals with
          | .taken goals number steps => readAfter steps number goals rest
          | .refused expected steps => ⟨steps.reverse, .unexpected expected look⟩

def readUnit (tokens : List Token) : Reading :=
  readAfter [] 0 Goal.unit tokens

end JackLang
