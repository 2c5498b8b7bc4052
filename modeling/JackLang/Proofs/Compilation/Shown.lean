import JackLang.Proofs.Reading.Shape

/-! # The steps that a transcript shows

Of the steps that are carried out, those that are no actions show in the transcript,
where they stand in order among the instructions that the actions give out.
-/

set_option autoImplicit false

namespace JackLang

/-- The step of a reading that an event shows. -/
def Event.step? : Event → Option Step
  | .opened rule => some (.opened rule)
  | .closed rule => some (.closed rule)
  | .leaf token => some (.took token)
  | _ => none

theorem Context.filterMap_step?_events (context : Context) (action : Action) :
    (context.perform action).events.filterMap Event.step? = [] := by
  have hemitted : ∀ code : List Instruction,
      (code.map Event.emitted).filterMap Event.step? = [] := by
    intro code
    rw [List.filterMap_map]
    exact List.filterMap_eq_nil_iff.mpr fun _ _ => rfl
  cases action with
  | require name | load name | store name =>
      simp only [perform, withVariable]
      split <;> simp [Effect.give, Effect.fail, Event.step?]
  | integer constant | argument callee count first =>
      simp only [perform]
      split <;> simp [Effect.give, Effect.fail, Effect.pass, Event.step?]
  | string constant =>
      simp only [perform, string]
      split
      · rfl
      · exact hemitted _
  | enterBody kind name | receive callee => exact hemitted _
  | _ => rfl

/-- The events so far stay in front of those that the steps add. -/
theorem events_followAfter (steps : List Step) (events : List Event) (context : Context)
    (failure : Option Failure) :
    (followAfter events context failure steps).events =
      events.reverse ++ (followAfter [] context failure steps).events := by
  induction steps generalizing events context with
  | nil => simp [followAfter]
  | cons step rest ih =>
      have hone : ∀ event, (followAfter (event :: events) context failure rest).events =
          events.reverse ++ (followAfter [event] context failure rest).events := by
        intro event
        rw [ih (event :: events), ih [event], List.reverse_cons, List.append_assoc]
        rfl
      cases step with
      | opened rule => exact hone (.opened rule)
      | closed rule => exact hone (.closed rule)
      | took token => exact hone (.leaf token)
      | act action =>
          rcases heffect : context.perform action with ⟨added, next, error⟩
          cases error with
          | some error => simp [followAfter, heffect, List.reverseAux_eq]
          | none =>
              simp only [followAfter, heffect]
              rw [ih (added.reverseAux events), ih (added.reverseAux [])]
              simp [List.reverseAux_eq]

/-- Where all steps are carried out, the events show them in order. -/
theorem filterMap_step?_followAfter {steps : List Step} (events : List Event)
    {context : Context} {failure : Option Failure}
    (h : (followAfter events context failure steps).failure = none) :
    (followAfter events context failure steps).events.filterMap Event.step? =
      events.reverse.filterMap Event.step? ++ shape steps := by
  induction steps generalizing events context with
  | nil => simp [followAfter]
  | cons step rest ih =>
      cases step with
      | opened rule | closed rule | took token =>
          have hrest := ih (_ :: events) h
          simpa [followAfter, Event.step?] using hrest
      | act action =>
          have hevents := context.filterMap_step?_events action
          rcases heffect : context.perform action with ⟨added, next, error⟩
          rw [heffect] at hevents
          cases error with
          | some error => simp [followAfter, heffect] at h
          | none =>
              rw [followAfter, heffect] at h ⊢
              rw [ih _ h, shape_act, List.reverseAux_eq, List.reverse_append, List.filterMap_append,
                List.reverse_reverse, hevents, List.append_nil]

theorem filterMap_step?_moved (move : Span → Span) (events : List Event) :
    (events.map (Event.moved move)).filterMap Event.step? =
      (events.filterMap Event.step?).map (Step.moved move) := by
  rw [List.filterMap_map, List.map_filterMap]
  congr 1
  funext event
  cases event <;> rfl

end JackLang
