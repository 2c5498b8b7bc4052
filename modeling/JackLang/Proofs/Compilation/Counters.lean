import JackLang.Proofs.Compilation.Carry
import JackLang.Proofs.Scope

/-! # Counters

Variables are counted kind by kind as they are declared, and the arguments of a call
one by one. As far as steps are carried out, none of these counters exceeds the largest
constant, so a machine word of two bytes holds each of them.
-/

set_option autoImplicit false

namespace JackLang

/-- There are not too many variables of a kind in scope. -/
def Scope.Small (scope : Scope) : Prop :=
  ∀ kind, scope.count kind ≤ maxConstant

/-- The step counts something without a check of its own. -/
def Step.counts : Step → Bool
  | .act (.nameSubroutine _ _) => true
  | .act (.argument _ _ _) => true
  | _ => false

namespace Context

/-- The arguments that are counted in front of an action, the receiver among them, are
not too many. -/
def Counts (context : Context) : Action → Prop
  | .argument callee count _ => context.receiverCount callee + count ≤ maxConstant
  | _ => True

/-- As far as steps are carried out, what is counted is a constant of the machine. -/
def Counted (context : Context) : List Step → Prop
  | [] => context.scope.Small
  | .act action :: rest =>
      context.scope.Small ∧ context.Counts action ∧
        match context.perform action with
        | ⟨_, next, none⟩ => next.Counted rest
        | ⟨_, _, some _⟩ => True
  | _ :: rest => context.Counted rest

variable {context next : Context} {code : List Instruction} {steps : List Step}

theorem small_perform (h : context.scope.Small) {action : Action}
    (hplain : Step.counts (.act action) = false) :
    (context.perform action).context.scope.Small := by
  have hvariable : ∀ (name : Token) (code : Variable → List Instruction),
      (context.withVariable name code).context.scope.Small := by
    intro name code
    rw [withVariable]
    split <;> exact h
  cases action with
  | nameSubroutine kind name => cases hplain
  | startSubroutine =>
      intro kind
      cases kind with
      | static => exact h .static
      | field => exact h .field
      | argument | «local» => exact Nat.zero_le _
  | declare kind type name =>
      change (context.scope.declare name.lexeme type kind).1.Small
      rw [Scope.declare]
      split
      · exact h
      · split
        · rename_i hless
          intro other
          have hother := h other
          rw [Scope.count_insert]
          split
          · rename_i heq
            rw [← heq]
            exact hless
          · exact hother
        · exact h
  | require name | load name | store name => exact hvariable name _
  | integer constant =>
      simp only [perform]
      split <;> exact h
  | string constant =>
      simp only [perform, string]
      split <;> exact h
  | argument callee count first => cases hplain
  | _ => exact h

theorem counted_plain (h : context.scope.Small) (hplain : steps.any Step.counts = false) :
    context.Counted steps := by
  induction steps generalizing context with
  | nil => exact h
  | cons step rest ih =>
      obtain ⟨hstep, hrest⟩ := Bool.or_eq_false_iff.mp hplain
      cases step with
      | opened rule | closed rule | took token => exact ih h hrest
      | act action =>
          have hnext := small_perform h hstep
          refine ⟨h, ?_, ?_⟩
          · cases action with
            | argument callee count first => cases hstep
            | _ => trivial
          · rcases heffect : context.perform action with ⟨events, next, error⟩
            rw [heffect] at hnext
            cases error with
            | none => exact ih hnext hrest
            | some error => trivial

theorem Counted.start (h : context.Counted steps) : context.scope.Small := by
  induction steps with
  | nil => exact h
  | cons step rest ih =>
      cases step with
      | opened rule | closed rule | took token => exact ih h
      | act action => exact h.1

theorem counted_append (first second : List Step) :
    context.Counted (first ++ second) ↔
      context.Counted first ∧
        ∀ next code, context.carry? first = some (next, code) → next.Counted second := by
  induction first generalizing context with
  | nil =>
      constructor
      · intro h
        refine ⟨h.start, ?_⟩
        rintro next code ⟨⟩
        exact h
      · rintro ⟨_, h⟩
        exact h context [] rfl
  | cons step rest ih =>
      cases step with
      | opened rule | closed rule | took token => exact ih
      | act action =>
          simp only [List.cons_append, Counted, carry?, act?]
          rcases heffect : context.perform action with ⟨events, next, error⟩
          cases error with
          | some error => simp
          | none =>
              simp only [ih, Option.bind_some, Option.map_eq_some_iff, and_assoc]
              refine and_congr_right' (and_congr_right' (and_congr_right' ?_))
              constructor
              · rintro h last code ⟨found, hfound, hlast⟩
                cases hlast
                exact h found.1 found.2 hfound
              · intro h last code hlast
                exact h last _ ⟨(last, code), hlast, rfl⟩

theorem Counted.small (h : context.Counted steps)
    (hcarry : context.carry? steps = some (next, code)) : next.scope.Small := by
  have hwhole : context.Counted (steps ++ []) := by rwa [List.append_nil]
  exact ((counted_append _ _).mp hwhole).2 next code hcarry

end Context

end JackLang
