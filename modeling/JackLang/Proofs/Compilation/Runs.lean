import JackLang.Proofs.Compilation.Counters
import JackLang.Proofs.Compilation.Faults
import JackLang.Proofs.Reading.Taken

/-! # Runs up to a fault

Carrying out steps gives out instructions up to the first action that is not
allowed, and the error there points at a token that has its number by then. A
run of steps is described by the code that they give out if nothing is wrong,
and by the faults of which the first one ends it.
-/

set_option autoImplicit false

namespace JackLang

/-- How many tokens have been taken, and the number of the latest name among them. -/
structure Position where
  taken : Nat
  name : Nat

def Position.after (position : Position) : Step → Position
  | .took token =>
      ⟨position.taken + 1, if token.kind = .identifier then position.taken else position.name⟩
  | _ => position

/-- The number of the token that an error of the action points at. What is stored to
has been looked up before, which leaves a store no error of its own. -/
def Action.number? (position : Position) : Action → Option Nat
  | .declare _ _ _ => some position.name
  | .require _ => some position.name
  | .load _ => some position.name
  | .integer _ => some (position.taken - 1)
  | .string _ => some (position.taken - 1)
  | .argument _ _ _ => some position.taken
  | _ => none

def StaticError.fault : StaticError → Fault
  | .undeclared _ => .undeclared
  | .redeclared _ => .redeclared
  | .tooManyVariables kind _ => .tooManyVariables kind
  | .tooManyArguments _ => .tooManyArguments
  | .integerOutOfRange _ => .integerOutOfRange
  | .stringTooLong _ => .stringTooLong
  | .noCharacterCode c _ => .noCharacterCode c

def Instruction.operand : Instruction → Nat
  | .push _ index => index
  | .pop _ index => index
  | .call _ arguments => arguments
  | .function _ locals => locals
  | _ => 0

/-- The operands of the instructions are constants of the machine. -/
def Bounded (code : List Instruction) : Prop :=
  ∀ instruction ∈ code, instruction.operand ≤ maxConstant

@[simp] theorem bounded_nil : Bounded [] := by
  simp [Bounded]

@[simp] theorem bounded_cons (instruction : Instruction) (code : List Instruction) :
    Bounded (instruction :: code) ↔ instruction.operand ≤ maxConstant ∧ Bounded code := by
  simp [Bounded]

@[simp] theorem bounded_append (first second : List Instruction) :
    Bounded (first ++ second) ↔ Bounded first ∧ Bounded second := by
  simp [Bounded, or_imp, forall_and]

namespace Context

/-- The instructions that steps give out, up to the first one that fails. -/
def output (context : Context) : List Step → List Instruction
  | [] => []
  | .act action :: rest =>
      match context.perform action with
      | ⟨events, next, none⟩ => events.filterMap Event.instruction? ++ next.output rest
      | ⟨events, _, some _⟩ => events.filterMap Event.instruction?
  | _ :: rest => context.output rest

/-- The first error of steps, with the number of the token it points at. -/
def blame? (context : Context) (position : Position) : List Step → Option (Option Nat × Fault)
  | [] => none
  | .act action :: rest =>
      match context.perform action with
      | ⟨_, next, none⟩ => next.blame? position rest
      | ⟨_, _, some error⟩ => some (action.number? position, error.fault)
  | step :: rest => context.blame? (position.after step) rest

variable {context next : Context} {code : List Instruction} {steps : List Step}

theorem output_of_carry? (h : context.carry? steps = some (next, code)) :
    context.output steps = code := by
  induction steps generalizing context code with
  | nil =>
      cases h
      rfl
  | cons step rest ih =>
      cases step with
      | opened rule | closed rule | took token => exact ih h
      | act action =>
          simp only [carry?, act?] at h
          rcases heffect : context.perform action with ⟨events, second, error⟩
          rw [heffect] at h
          cases error with
          | some error => cases h
          | none =>
              obtain ⟨⟨last, more⟩, hcarry, hlast⟩ := Option.map_eq_some_iff.mp h
              cases hlast
              simp only [output, heffect, ih hcarry]

theorem output_append (context : Context) (first second : List Step) :
    context.output (first ++ second) =
      match context.carry? first with
      | some (next, code) => code ++ next.output second
      | none => context.output first := by
  induction first generalizing context with
  | nil => rfl
  | cons step rest ih =>
      cases step with
      | opened rule | closed rule | took token => exact ih context
      | act action =>
          simp only [List.cons_append, output, carry?, act?]
          rcases heffect : context.perform action with ⟨events, second, error⟩
          cases error with
          | some error => rfl
          | none =>
              simp only [ih, Option.bind_some]
              cases second.carry? rest <;> simp

theorem blame?_append (context : Context) (position : Position) (first second : List Step) :
    context.blame? position (first ++ second) =
      match context.carry? first with
      | some (next, _) => next.blame? (first.foldl Position.after position) second
      | none => context.blame? position first := by
  induction first generalizing context position with
  | nil => rfl
  | cons step rest ih =>
      cases step with
      | opened rule | closed rule | took token => exact ih context _
      | act action =>
          simp only [List.cons_append, blame?, carry?, act?, List.foldl_cons]
          rcases heffect : context.perform action with ⟨events, second, error⟩
          cases error with
          | some error => rfl
          | none =>
              simp only [ih, Option.bind_some]
              cases second.carry? rest <;> rfl

theorem blame?_eq_none_iff (position : Position) :
    context.blame? position steps = none ↔ ∃ found, context.carry? steps = some found := by
  induction steps generalizing context position with
  | nil => simp [blame?, carry?]
  | cons step rest ih =>
      cases step with
      | opened rule | closed rule | took token => exact ih _
      | act action =>
          simp only [blame?, carry?, act?]
          rcases heffect : context.perform action with ⟨events, second, error⟩
          cases error with
          | some error => simp
          | none =>
              simp only [Option.bind_some, ih]
              cases second.carry? rest <;> simp

end Context

theorem taken_foldl_after (position : Position) (steps : List Step) :
    (steps.foldl Position.after position).taken = position.taken + (wordsTaken steps).length := by
  induction steps generalizing position with
  | nil => rfl
  | cons step rest ih =>
      rw [List.foldl_cons, ih]
      cases step with
      | took token =>
          simp only [wordsTaken_took, List.length_cons, Position.after]
          omega
      | opened rule | closed rule | act action => rfl

/-- From `context`, behind `start` tokens of a unit, the first of the faults ends the
steps. Without one they lead to `next` and give `code`, and with one they give its
beginning. -/
structure Runs (context : Context) (start : Nat) (steps : List Step) (next : Context)
    (code : List Instruction) (faults : List (Nat × Fault)) : Prop where
  passes : faults = [] → context.carry? steps = some (next, code)
  blames : ∀ position : Position, position.taken = start →
    context.blame? position steps = faults.head?.map fun found => (some found.1, found.2)
  starts : context.output steps <+: code
  bounded : Bounded (context.output steps)
  counted : context.scope.Small → context.Counted steps

namespace Runs

variable {context second third : Context} {start middle : Nat} {steps more : List Step}
variable {code added : List Instruction} {faults others : List (Nat × Fault)}

theorem carry?_eq_none (h : Runs context start steps second code faults) (hne : faults ≠ []) :
    context.carry? steps = none := by
  cases hcarry : context.carry? steps with
  | none => rfl
  | some found =>
      have hblame := h.blames ⟨start, 0⟩ rfl
      rw [(Context.blame?_eq_none_iff _).mpr ⟨found, hcarry⟩] at hblame
      cases faults with
      | nil => exact absurd rfl hne
      | cons first rest => cases hblame

theorem of_carry? (start : Nat) (h : context.carry? steps = some (second, code))
    (hbounded : Bounded code) (hcounted : context.scope.Small → context.Counted steps) :
    Runs context start steps second code [] := by
  refine ⟨fun _ => h, ?_, ?_, ?_, hcounted⟩
  · intro position _
    exact (Context.blame?_eq_none_iff position).mpr ⟨_, h⟩
  · exact (Context.output_of_carry? h).symm ▸ List.prefix_refl code
  · rw [Context.output_of_carry? h]
    exact hbounded

theorem plain (start : Nat) (h : context.carry? steps = some (second, code))
    (hbounded : Bounded code) (hplain : steps.any Step.counts = false := by rfl) :
    Runs context start steps second code [] :=
  of_carry? start h hbounded fun hsmall => Context.counted_plain hsmall hplain

/-- Steps behind others need to be known only if the others have no faults. -/
theorem append (h : Runs context start steps second code faults)
    (hmiddle : start + (wordsTaken steps).length = middle)
    (hmore : faults = [] → Runs second middle more third added others) :
    Runs context start (steps ++ more) third (code ++ added) (faults ++ others) := by
  -- a fault in front ends the steps, and then nothing is said of those behind it
  by_cases hfaults : faults = []
  · have hcarry := h.passes hfaults
    have hnext := hmore hfaults
    subst hfaults
    refine ⟨?_, ?_, ?_, ?_, ?_⟩
    · intro hothers
      rw [Context.carry?_append, hcarry, Option.bind_some, hnext.passes hothers]
      rfl
    · intro position hposition
      rw [Context.blame?_append, hcarry]
      exact hnext.blames _ (by rw [taken_foldl_after, hposition, hmiddle])
    · rw [Context.output_append, hcarry]
      exact (List.prefix_append_right_inj code).mpr hnext.starts
    · rw [Context.output_append, hcarry]
      have hcode := h.bounded
      rw [Context.output_of_carry? hcarry] at hcode
      exact (bounded_append _ _).mpr ⟨hcode, hnext.bounded⟩
    · intro hsmall
      have hcounted := h.counted hsmall
      refine (Context.counted_append _ _).mpr ⟨hcounted, ?_⟩
      intro next given hnextCarry
      rw [hcarry] at hnextCarry
      cases hnextCarry
      exact hnext.counted (hcounted.small hcarry)
  · have hcarry := h.carry?_eq_none hfaults
    refine ⟨?_, ?_, ?_, ?_, ?_⟩
    · intro hnone
      exact absurd (List.append_eq_nil_iff.mp hnone).1 hfaults
    · intro position hposition
      obtain ⟨first, rest, rfl⟩ := List.exists_cons_of_ne_nil hfaults
      rw [Context.blame?_append, hcarry]
      exact h.blames position hposition
    · rw [Context.output_append, hcarry]
      exact h.starts.trans (List.prefix_append _ _)
    · rw [Context.output_append, hcarry]
      exact h.bounded
    · intro hsmall
      refine (Context.counted_append _ _).mpr ⟨h.counted hsmall, ?_⟩
      intro next given hnextCarry
      rw [hcarry] at hnextCarry
      cases hnextCarry

theorem prepend (h : Runs context middle more third added others) (start : Nat)
    (steps : List Step) (code : List Instruction)
    (hsteps : context.carry? steps = some (context, code))
    (hmiddle : start + (wordsTaken steps).length = middle) (hbounded : Bounded code)
    (hplain : steps.any Step.counts = false := by rfl) :
    Runs context start (steps ++ more) third (code ++ added) others :=
  (plain start hsteps hbounded hplain).append hmiddle fun _ => h

theorem postpend (h : Runs context start steps second code faults) (more : List Step)
    (added : List Instruction) (hmore : second.carry? more = some (second, added))
    (hbounded : faults = [] → Bounded added)
    (hplain : more.any Step.counts = false := by rfl) :
    Runs context start (steps ++ more) second (code ++ added) faults := by
  have hwhole := h.append rfl fun hfaults => plain _ hmore (hbounded hfaults) hplain
  rwa [List.append_nil] at hwhole

theorem act (h : Runs second start more third added others) {action : Action}
    (haction : context.act? action = some (second, code)) (hbounded : Bounded code)
    (hplain : Step.counts (.act action) = false := by rfl) :
    Runs context start (.act action :: more) third (code ++ added) others := by
  have hcarry : context.carry? [.act action] = some (second, code) := by
    simp [Context.carry?, haction]
  exact (plain start hcarry hbounded (by simp [hplain])).append rfl fun _ => h

theorem node (h : Runs context start steps second code faults) (rule : Rule) :
    Runs context start (.opened rule :: steps ++ [.closed rule]) second code faults := by
  have hclosed := (h.postpend [.closed rule] [] rfl fun _ => bounded_nil).prepend start
    [.opened rule] [] rfl rfl bounded_nil
  rwa [List.append_nil] at hclosed

theorem of_fail {token : Token} {action : Action} {error : StaticError}
    (hfail : context.perform action = Effect.fail context error)
    (hnumber : ∀ position : Position, position.taken = start →
      action.number? (position.after (.took token)) = some start)
    (hfaults : faults.head? = some (start, error.fault))
    (hplain : Step.counts (.act action) = false := by rfl) :
    Runs context start [.took token, .act action] second code faults := by
  refine ⟨?_, ?_, ?_, ?_, ?_⟩
  · intro hnone
    rw [hnone] at hfaults
    cases hfaults
  · intro position hposition
    simp [Context.blame?, hfail, Effect.fail, hnumber position hposition, hfaults]
  · simp [Context.output, hfail, Effect.fail]
  · simp [Context.output, hfail, Effect.fail]
  · intro hsmall
    refine Context.counted_plain hsmall ?_
    rw [List.any_cons, List.any_cons, hplain]
    rfl

theorem of_eq {steps' : List Step} {code' : List Instruction} {faults' : List (Nat × Fault)}
    (h : Runs context start steps second code faults) (hsteps : steps' = steps)
    (hcode : code' = code) (hfaults : faults' = faults) :
    Runs context start steps' second code' faults' := by
  rwa [hsteps, hcode, hfaults]

end Runs

end JackLang
