import JackLang.Compilation.Transcript
import JackLang.Grammar.ParseTree
import JackLang.Proofs.Reading.Settling

/-! # Places do not matter

A token is a word at a place. The places show up in errors only: a reading of
tokens that are moved to other places makes the same steps with their tokens moved,
and the actions behind it give out the same instructions. So tokens may be taken as
words whose places are forgotten.
-/

set_option autoImplicit false

namespace JackLang

/-- A word as a token without a place of its own. -/
def Word.token (word : Word) : Token := ⟨word.kind, word.lexeme, ⟨0, 0⟩⟩

@[simp] theorem Word.kind_token (word : Word) : word.token.kind = word.kind := rfl

@[simp] theorem Word.lexeme_token (word : Word) : word.token.lexeme = word.lexeme := rfl

@[simp] theorem Word.word_token (word : Word) : word.token.word = word := rfl

section Moved

variable (move : Span → Span)

/-- The token at the place that its own is moved to. -/
def Token.moved (token : Token) : Token := ⟨token.kind, token.lexeme, move token.span⟩

@[simp] theorem Token.kind_moved (token : Token) : (token.moved move).kind = token.kind := rfl

@[simp] theorem Token.lexeme_moved (token : Token) : (token.moved move).lexeme = token.lexeme :=
  rfl

def Action.moved : Action → Action
  | .declare kind type name => .declare kind type (name.moved move)
  | .require name => .require (name.moved move)
  | .load name => .load (name.moved move)
  | .store name => .store (name.moved move)
  | .integer constant => .integer (constant.moved move)
  | .string constant => .string (constant.moved move)
  | .argument callee count first => .argument callee count (first.moved move)
  | action => action

def Phrase.moved : Phrase → Phrase
  | .letRest target => .letRest (target.moved move)
  | .afterName name => .afterName (name.moved move)
  | phrase => phrase

def Goal.moved : Goal → Goal
  | .act ordered => .act (ordered.moved move)
  | .phrase replaced => .phrase (replaced.moved move)
  | goal => goal

def Step.moved : Step → Step
  | .took token => .took (token.moved move)
  | .act ordered => .act (ordered.moved move)
  | step => step

def Settlement.moved : Settlement → Settlement
  | .taken goals number steps =>
      .taken (goals.map (Goal.moved move)) number (steps.map (Step.moved move))
  | .refused expected steps => .refused expected (steps.map (Step.moved move))

def Verdict.moved : Verdict → Verdict
  | .accepted => .accepted
  | .unexpected expected found => .unexpected expected (found.moved move)
  | .lexical error found => .lexical error (found.moved move)

def Reading.moved (reading : Reading) : Reading :=
  ⟨reading.steps.map (Step.moved move), reading.verdict.moved move⟩

theorem NameRole.next_moved (name : Token) (role : NameRole) :
    role.next (name.moved move) = (role.next name).map (Goal.moved move) := by
  cases role <;> rfl

theorem TypeRole.next_moved (type : String) (role : TypeRole) :
    (role.next type).map (Goal.moved move) = role.next type := by
  cases role <;> rfl

theorem Phrase.expand_moved (look : Token) (number : Nat) (phrase : Phrase) :
    (phrase.moved move).expand (look.moved move) number =
      (phrase.expand look number).map (List.map (Goal.moved move)) := by
  cases phrase with
  | termBody =>
      simp only [Phrase.moved, Phrase.expand, Phrase.startTerm, Token.kind_moved]
      split <;> rfl
  | letRest target =>
      by_cases h : look.kind = .symbol .leftBracket <;>
        simp [Phrase.moved, Phrase.expand, Phrase.assignment, h] <;> rfl
  | _ =>
      simp only [Phrase.moved, Phrase.expand, Token.kind_moved, Token.lexeme_moved]
      repeat' split
      all_goals
        try simp only [*, if_true, if_false]
        rfl

theorem Phrase.numbersTaken_moved (phrase : Phrase) :
    (phrase.moved move).numbersTaken = phrase.numbersTaken := by
  cases phrase <;> rfl

theorem settle_moved (look : Token) (number : Nat) (steps : List Step) (goals : List Goal) :
    settle (look.moved move) number (steps.map (Step.moved move)) (goals.map (Goal.moved move)) =
      (settle look number steps goals).moved move := by
  fun_induction settle look number steps goals with
  | case1 => simp [Settlement.moved]
  | case2 => simp [Goal.moved, Settlement.moved, Step.moved]
  | case3 _ _ _ _ _ h => simp [Goal.moved, Settlement.moved, h]
  | case4 => simp [Goal.moved, Settlement.moved, Step.moved]
  | case5 _ _ _ _ h =>
      simp [Goal.moved, Settlement.moved, Step.moved, NameRole.next_moved, h]
  | case6 _ _ _ _ h => simp [Goal.moved, Settlement.moved, h]
  | case7 _ _ _ _ h =>
      simp [Goal.moved, Settlement.moved, Step.moved, TypeRole.next_moved, h]
  | case8 _ _ _ _ h => simp [Goal.moved, Settlement.moved, h]
  | case9 _ _ _ _ ih => simpa [Goal.moved, Step.moved] using ih
  | case10 _ _ _ _ ih => simpa [Goal.moved, Step.moved] using ih
  | case11 _ _ _ _ ih => simpa [Goal.moved, Step.moved] using ih
  | case12 number steps phrase rest goals hexpand ih =>
      have hmoved := phrase.expand_moved move look number
      rw [hexpand] at hmoved
      rw [List.map_cons, Goal.moved, settle_phrase _ _ _ _ hmoved, phrase.numbersTaken_moved,
        ← List.map_append]
      exact ih
  | case13 number steps phrase rest expected hexpand =>
      have hmoved := phrase.expand_moved move look number
      rw [hexpand] at hmoved
      rw [List.map_cons, Goal.moved, settle_phrase_error _ _ _ _ hmoved]
      rfl

theorem readAfter_moved (tokens : List Token) (steps : List Step) (number : Nat)
    (goals : List Goal) :
    readAfter (steps.map (Step.moved move)) number (goals.map (Goal.moved move))
        (tokens.map (Token.moved move)) =
      (readAfter steps number goals tokens).moved move := by
  induction tokens generalizing steps number goals with
  | nil => simp [readAfter, Reading.moved, Verdict.moved]
  | cons look rest ih =>
      cases hkind : look.kind with
      | invalid error =>
          simp [readAfter, hkind, Reading.moved, Verdict.moved]
      | _ =>
          rw [List.map_cons, readAfter_cons _ _ (by simp [hkind]),
            readAfter_cons _ _ (by simp [hkind]), settle_moved]
          cases settle look number steps goals with
          | taken goals number steps => exact ih steps number goals
          | refused expected steps => simp [Settlement.moved, Reading.moved, Verdict.moved]

/-- Moving the tokens of a unit moves those of its reading. -/
theorem readUnit_moved (tokens : List Token) :
    readUnit (tokens.map (Token.moved move)) = (readUnit tokens).moved move :=
  readAfter_moved move tokens [] 0 Goal.unit

def StaticError.moved : StaticError → StaticError
  | .undeclared name => .undeclared (name.moved move)
  | .redeclared name => .redeclared (name.moved move)
  | .tooManyVariables kind name => .tooManyVariables kind (name.moved move)
  | .tooManyArguments first => .tooManyArguments (first.moved move)
  | .integerOutOfRange constant => .integerOutOfRange (constant.moved move)
  | .stringTooLong constant => .stringTooLong (constant.moved move)
  | .noCharacterCode c constant => .noCharacterCode c (constant.moved move)

def Effect.moved (effect : Effect) : Effect :=
  { effect with error := effect.error.map (StaticError.moved move) }

theorem Context.perform_moved (context : Context) (action : Action) :
    context.perform (action.moved move) = (context.perform action).moved move := by
  cases action with
  | declare kind type name =>
      simp only [Action.moved, perform, declare, Effect.moved, Token.lexeme_moved]
      cases (context.scope.declare name.lexeme type kind).2 with
      | none => rfl
      | some error => cases error <;> rfl
  | require name | load name | store name =>
      simp only [Action.moved, perform, withVariable, Token.lexeme_moved]
      split <;> rfl
  | integer constant =>
      by_cases h : decimalValue constant.lexeme.toList ≤ maxConstant <;>
        simp [Action.moved, perform, h, Effect.give, Effect.fail, Effect.moved,
          StaticError.moved]
  | string constant =>
      by_cases h : maxConstant < constant.lexeme.toList.length
      · simp [Action.moved, perform, string, h, Effect.fail, Effect.moved, StaticError.moved]
      · simp only [Action.moved, perform, string, Token.lexeme_moved, h, if_false, Effect.moved,
          Option.map_map]
        rfl
  | argument callee count first =>
      by_cases h : context.receiverCount callee + count < maxConstant <;>
        simp [Action.moved, perform, h, Effect.pass, Effect.fail, Effect.moved,
          StaticError.moved]
  | _ => rfl

def Event.moved : Event → Event
  | .leaf token => .leaf (token.moved move)
  | event => event

def Failure.moved : Failure → Failure
  | .lexical error found => .lexical error (found.moved move)
  | .unexpected expected found => .unexpected expected (found.moved move)
  | .static error => .static (error.moved move)

def Transcript.moved (transcript : Transcript) : Transcript :=
  { transcript with
    events := transcript.events.map (Event.moved move)
    failure := transcript.failure.map (Failure.moved move) }

theorem map_moved_of_reverseAux (added events : List Event) :
    (added.reverseAux events).map (Event.moved move) =
      (added.map (Event.moved move)).reverseAux (events.map (Event.moved move)) := by
  simp [List.reverseAux_eq]

/-- The events that an action gives are not tied to places. -/
theorem Context.map_moved_events (context : Context) (action : Action) :
    (context.perform action).events.map (Event.moved move) = (context.perform action).events := by
  cases action with
  | require name | load name | store name =>
      simp only [perform, withVariable]
      split <;> simp [Effect.give, Effect.fail, Event.moved]
  | integer constant | argument callee count first =>
      simp only [perform]
      split <;> simp [Effect.give, Effect.fail, Effect.pass, Event.moved]
  | string constant =>
      simp only [perform, string]
      split <;> simp [Effect.fail, Event.moved]
  | _ => simp [perform, declare, Effect.give, Effect.pass, Event.moved]

theorem followAfter_moved (steps : List Step) (events : List Event) (context : Context)
    (failure : Option Failure) :
    followAfter (events.map (Event.moved move)) context (failure.map (Failure.moved move))
        (steps.map (Step.moved move)) =
      (followAfter events context failure steps).moved move := by
  induction steps generalizing events context with
  | nil => simp [followAfter, Transcript.moved]
  | cons step rest ih =>
      cases step with
      | act action =>
          simp only [List.map_cons, Step.moved, followAfter, Context.perform_moved]
          rcases heffect : context.perform action with ⟨added, next, error⟩
          have hadded := context.map_moved_events move action
          rw [heffect] at hadded
          cases error with
          | none =>
              rw [← ih, map_moved_of_reverseAux, hadded]
              rfl
          | some error =>
              simp [Effect.moved, Transcript.moved, hadded, Failure.moved]
      | opened rule => exact ih (.opened rule :: events) context
      | closed rule => exact ih (.closed rule :: events) context
      | took token => exact ih (.leaf token :: events) context

theorem Verdict.failure?_moved (verdict : Verdict) :
    (verdict.moved move).failure? = verdict.failure?.map (Failure.moved move) := by
  cases verdict <;> rfl

/-- The course of a compilation does not depend on the places of its tokens. -/
theorem Transcript.ofTokens_moved (tokens : List Token) :
    Transcript.ofTokens (tokens.map (Token.moved move)) = (Transcript.ofTokens tokens).moved move := by
  rw [ofTokens, readUnit_moved]
  simp only [Reading.moved, Verdict.failure?_moved]
  exact followAfter_moved move _ [] .initial _

theorem Transcript.program_moved (transcript : Transcript) :
    (transcript.moved move).program = transcript.program := by
  obtain ⟨events, context, failure⟩ := transcript
  simp only [program, moved, List.filterMap_map]
  congr 1
  funext event
  cases event <;> rfl

end Moved

/-- All places are moved to one, and so forgotten. -/
def Span.forget (_ : Span) : Span := ⟨0, 0⟩

/-- The token with its place forgotten. -/
abbrev Token.bare (token : Token) : Token := token.moved Span.forget

abbrev Action.bare (action : Action) : Action := action.moved Span.forget

abbrev Step.bare (step : Step) : Step := step.moved Span.forget

abbrev Reading.bare (reading : Reading) : Reading := reading.moved Span.forget

abbrev Transcript.bare (transcript : Transcript) : Transcript := transcript.moved Span.forget

theorem map_bare_of_words (tokens : List Token) :
    tokens.map Token.bare = (tokens.map Token.word).map Word.token := by
  rw [List.map_map]
  rfl

theorem readUnit_bare (tokens : List Token) :
    readUnit (tokens.map Token.bare) = (readUnit tokens).bare :=
  readUnit_moved Span.forget tokens

theorem Transcript.ofTokens_bare (tokens : List Token) :
    Transcript.ofTokens (tokens.map Token.bare) = (Transcript.ofTokens tokens).bare :=
  Transcript.ofTokens_moved Span.forget tokens

theorem Transcript.program_bare (transcript : Transcript) :
    transcript.bare.program = transcript.program :=
  transcript.program_moved Span.forget

theorem readUnit_bare_congr {first second : List Token}
    (h : first.map Token.word = second.map Token.word) :
    (readUnit first).bare = (readUnit second).bare := by
  rw [← readUnit_bare, ← readUnit_bare, map_bare_of_words, map_bare_of_words, h]

end JackLang
