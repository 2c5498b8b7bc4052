import JackLang.Compilation.Transcript

/-! # Carrying out steps

Carrying out steps from a context gives the context behind them and their code,
or nothing if one of them is not allowed. What steps give is composed of what
their parts give.
-/

set_option autoImplicit false

namespace JackLang

def Event.instruction? : Event → Option Instruction
  | .emitted instruction => some instruction
  | _ => none

theorem filterMap_instruction?_emitted (code : List Instruction) :
    (code.map Event.emitted).filterMap Event.instruction? = code := by
  rw [List.filterMap_map]
  exact List.filterMap_some

theorem Transcript.program_eq (transcript : Transcript) :
    transcript.program = transcript.events.filterMap Event.instruction? := by
  rw [program]
  congr 1

/-- The context behind an action and its code, if the action is allowed. -/
def Context.act? (context : Context) (action : Action) :
    Option (Context × List Instruction) :=
  match context.perform action with
  | ⟨events, next, none⟩ => some (next, events.filterMap Event.instruction?)
  | ⟨_, _, some _⟩ => none

theorem Context.act?_of_give {context next : Context} {action : Action}
    {code : List Instruction} (h : context.perform action = Effect.give next code) :
    context.act? action = some (next, code) := by
  rw [act?, h, Effect.give]
  exact congrArg (fun given => some (next, given)) (filterMap_instruction?_emitted code)

/-- The context behind steps and their code, if all of them are allowed. -/
def Context.carry? (context : Context) : List Step → Option (Context × List Instruction)
  | [] => some (context, [])
  | .opened _ :: rest => context.carry? rest
  | .closed _ :: rest => context.carry? rest
  | .took _ :: rest => context.carry? rest
  | .act action :: rest =>
      (context.act? action).bind fun found =>
        (found.1.carry? rest).map fun last => (last.1, found.2 ++ last.2)

theorem Context.carry?_append (context : Context) (first second : List Step) :
    context.carry? (first ++ second) =
      (context.carry? first).bind fun found =>
        (found.1.carry? second).map fun last => (last.1, found.2 ++ last.2) := by
  induction first generalizing context with
  | nil => simp [carry?]
  | cons step rest ih =>
      cases step with
      | opened rule | closed rule | took token => simpa [carry?] using ih context
      | act action =>
          simp only [List.cons_append, carry?, ih]
          cases context.act? action with
          | none => rfl
          | some found =>
              simp [Option.bind_map, Option.map_bind, Function.comp_def, List.append_assoc]

/-- Steps that are all allowed end in a transcript of their code. -/
theorem followAfter_of_carry? {steps : List Step} {context next : Context}
    {code : List Instruction} (events : List Event) (failure : Option Failure)
    (h : context.carry? steps = some (next, code)) :
    (followAfter events context failure steps).failure = failure ∧
      (followAfter events context failure steps).program =
        events.reverse.filterMap Event.instruction? ++ code := by
  induction steps generalizing context events code with
  | nil =>
      cases h
      simp [followAfter, Transcript.program_eq]
  | cons step rest ih =>
      cases step with
      | opened rule =>
          have hrest := ih (.opened rule :: events) h
          simpa [followAfter, List.filterMap_cons, Event.instruction?] using hrest
      | closed rule =>
          have hrest := ih (.closed rule :: events) h
          simpa [followAfter, List.filterMap_cons, Event.instruction?] using hrest
      | took token =>
          have hrest := ih (.leaf token :: events) h
          simpa [followAfter, List.filterMap_cons, Event.instruction?] using hrest
      | act action =>
          simp only [Context.carry?, Context.act?] at h
          rcases heffect : context.perform action with ⟨added, second, error⟩
          rw [heffect] at h
          cases error with
          | some error => cases h
          | none =>
              obtain ⟨⟨last, more⟩, hcarry, hlast⟩ := Option.map_eq_some_iff.mp h
              cases hlast
              have hrest := ih (added.reverseAux events) hcarry
              simpa [followAfter, heffect, List.reverseAux_eq] using hrest

theorem followAfter_of_carry?_none {steps : List Step} {context : Context}
    (events : List Event) (failure : Option Failure) (h : context.carry? steps = none) :
    (followAfter events context failure steps).failure ≠ none := by
  induction steps generalizing context events with
  | nil => cases h
  | cons step rest ih =>
      cases step with
      | opened rule | closed rule | took token => exact ih (_ :: events) h
      | act action =>
          simp only [Context.carry?, Context.act?] at h
          rcases heffect : context.perform action with ⟨added, second, error⟩
          rw [heffect] at h
          cases error with
          | some error => simp [followAfter, heffect]
          | none =>
              have hrest := ih (added.reverseAux events) (by simpa using h)
              simpa [followAfter, heffect] using hrest

end JackLang
