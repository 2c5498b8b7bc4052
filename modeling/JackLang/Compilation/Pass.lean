import JackLang.Compile
import JackLang.Token.ByteScanner

/-! # Compiling in one pass

A unit is compiled while it is read, turn by turn. In each turn the goal in front is dealt
with: it takes the look-ahead, shows the start or the end of a node, orders an action, or is
a phrase that other goals replace. What it comes to is written at once, so nothing of it is
kept but the goals that are left, the variables in scope, and the writers.
-/

set_option autoImplicit false

namespace JackLang

/-- What holds the next token and hands out one after the other. -/
class TokenSource (σ : Type) where
  lookAhead : σ → Token
  advance : σ → Except Abort (Token × σ)

instance : TokenSource Scanner where
  lookAhead := Scanner.lookAhead
  advance scanner := .ok scanner.advance

instance : TokenSource ByteScanner where
  lookAhead := ByteScanner.lookAhead
  advance := ByteScanner.advance

/-- What a goal comes to in front of a look-ahead: the step it makes, the goals that stand
in its place, and the number that the next conditional or loop takes. -/
structure Move where
  step : Option Step
  goals : List Goal
  number : Nat

def Goal.move (look : Token) (number : Nat) : Goal → Except Expectation Move
  | .token kind expected =>
      if look.kind = kind then .ok ⟨some (.took look), [], number⟩ else .error expected
  | .shift => .ok ⟨some (.took look), [], number⟩
  | .name role =>
      if look.kind = .identifier then .ok ⟨some (.took look), role.next look, number⟩
      else .error role.expected
  | .type role =>
      if look.kind.isType then .ok ⟨some (.took look), role.next look.lexeme, number⟩
      else .error .typeName
  | .opening rule => .ok ⟨some (.opened rule), [], number⟩
  | .closing rule => .ok ⟨some (.closed rule), [], number⟩
  | .act action => .ok ⟨some (.act action), [], number⟩
  | .phrase replaced =>
      match replaced.expand look number with
      | .ok goals => .ok ⟨none, goals, number + replaced.numbersTaken⟩
      | .error expected => .error expected

namespace Context

/-- What a counter gets to when an action is done. The arguments of a call are counted one
behind the other, with the receiver if there is one. -/
def countBehind (context : Context) : Action → Nat
  | .argument callee count _ => context.receiverCount callee + count + 1
  | _ => 0

/-- Performs an action with counters that are words. -/
def performInWords (context : Context) (action : Action) : Except Abort Effect :=
  let effect := context.perform action
  let scope := effect.context.scope
  if scope.statics < wordLimit ∧ scope.fields < wordLimit ∧ scope.arguments < wordLimit ∧
      scope.locals < wordLimit ∧
      (effect.error.isSome ∨ context.countBehind action < wordLimit) then .ok effect
  else .error .counterFull

end Context

/-- A compilation between two turns, with the tokens that have been taken. -/
structure Pass (σ : Type) where
  scanner : σ
  taken : List Token
  goals : List Goal
  number : Nat
  context : Context
  writers : Writers

/-- What a turn comes to. The end is given with the error if there is one. -/
inductive Turn (σ : Type) where
  | goesOn (pass : Pass σ)
  | ended (pass : Pass σ) (error : Option CompileError)

namespace Pass

variable {σ : Type}

def start (scanner : σ) (program : Sink) (tree : Option Sink) : Pass σ :=
  ⟨scanner, [], Goal.unit, 0, .initial, .toSinks program tree⟩

/-- Writes events, and goes on unless an output or the unit itself has failed. -/
def write (pass : Pass σ) (events : List Event) (failure : Option Failure) : Turn σ :=
  match pass.writers.recordAll events with
  | (writers, some kind) => .ended { pass with writers } (some (.unwritable kind))
  | (writers, none) =>
      match failure with
      | some failure => .ended { pass with writers } (some (.failure failure))
      | none => .goesOn { pass with writers }

variable [TokenSource σ]

/-- Carries out a step. A token is taken before it is written. -/
def carryOut (pass : Pass σ) : Option Step → Except Abort (Turn σ)
  | none => .ok (.goesOn pass)
  | some (.opened rule) => .ok (pass.write [.opened rule] none)
  | some (.closed rule) => .ok (pass.write [.closed rule] none)
  | some (.took _) => do
      let (token, scanner) ← TokenSource.advance pass.scanner
      return { pass with scanner, taken := pass.taken ++ [token] }.write [.leaf token] none
  | some (.act action) => do
      let effect ← pass.context.performInWords action
      return { pass with context := effect.context }.write effect.events
        (effect.error.map .static)

/-- Text that is no token ends the compilation as soon as it is the look-ahead. -/
def turn (pass : Pass σ) : Except Abort (Turn σ) :=
  match pass.goals with
  | [] => .ok (.ended pass none)
  | goal :: rest =>
      let look := TokenSource.lookAhead pass.scanner
      match look.kind with
      | .invalid error => .ok (.ended pass (some (.failure (.lexical error look))))
      | _ =>
          match goal.move look pass.number with
          | .error expected => .ok (.ended pass (some (.failure (.unexpected expected look))))
          | .ok move =>
              { pass with goals := move.goals ++ rest, number := move.number }.carryOut move.step

/-- Takes a number of turns, or fewer if the compilation ends. -/
def run (pass : Pass σ) : Nat → Except Abort (Turn σ)
  | 0 => .ok (.goesOn pass)
  | turns + 1 => do
      match ← pass.turn with
      | .goesOn next => next.run turns
      | .ended last error => return .ended last error

end Pass

/-- Compiles a source with offsets and counters that are words, for a number of turns. -/
def compileInWords (source : String) (program : Sink) (tree : Option Sink) (turns : Nat) :
    Except Abort (Turn ByteScanner) := do
  (Pass.start (← ByteScanner.ofSource source) program tree).run turns

/-- Why there is no parse tree. -/
inductive TreeFailure where
  | failed (error : CompileError)
  /-- The source compiles, but there was no writer for its tree. -/
  | notRecorded
deriving DecidableEq, Repr

def TreeFailure.message : TreeFailure → String
  | .failed error => error.diagnostic.message
  | .notRecorded => "Parse tree was not recorded."

/-- Compiles a source for its parse tree alone. -/
def recordTree (source : String) (sink : Sink) : Except TreeFailure TreeWriter :=
  let report := compile source .unlimited (some sink)
  match report.error, report.writers.tree with
  | some error, _ => .error (.failed error)
  | none, none => .error .notRecorded
  | none, some tree => .ok tree

end JackLang
