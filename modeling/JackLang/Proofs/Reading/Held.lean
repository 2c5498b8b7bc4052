import JackLang.Proofs.Reading.Pointing
import JackLang.Proofs.Reading.Standing

/-! # Tokens that goals hold

An action that is still to be carried out holds the token that its error would point
at, and a phrase behind a name holds the name. Goals come to hold the look-ahead only,
when they replace others in front of it, so no goal holds a token from the first text on
that is none.
-/

set_option autoImplicit false

namespace JackLang

/-- The property has to hold of the token of the action. That of an integer is an integer
constant. -/
def Action.Holds (P : Token → Prop) (action : Action) : Prop :=
  (∀ token, action.token? = some token → P token) ∧
    ∀ constant, action = .integer constant → constant.kind = .integerConstant

def Goal.Holds (P : Token → Prop) : Goal → Prop
  | .act ordered => ordered.Holds P
  | .phrase (.letRest target) => P target
  | .phrase (.afterName first) => P first
  | _ => True

/-- The property holds of all tokens that the goals hold. -/
def AllHold (P : Token → Prop) (goals : List Goal) : Prop :=
  ∀ goal ∈ goals, goal.Holds P

section Goals

variable {P : Token → Prop} {look : Token} {found : List Goal}

@[simp] theorem allHold_nil : AllHold P [] := by
  simp [AllHold]

@[simp] theorem allHold_cons (goal : Goal) (rest : List Goal) :
    AllHold P (goal :: rest) ↔ goal.Holds P ∧ AllHold P rest := by
  simp [AllHold]

@[simp] theorem allHold_append (first second : List Goal) :
    AllHold P (first ++ second) ↔ AllHold P first ∧ AllHold P second := by
  simp [AllHold, or_imp, forall_and]

theorem Token.Meets.allHold {goal : Goal} (h : look.Meets goal found) (hlook : P look) :
    AllHold P found := by
  cases h with
  | token expected hkind | shift => exact allHold_nil
  | name role hkind =>
      cases role <;>
        simp [NameRole.next, Goal.subroutine, Goal.symbol, Goal.Holds, Action.Holds,
          Action.token?, hlook]
  | type role hkind => cases role <;> simp [TypeRole.next, Goal.Holds]

/-- The goals that replace a phrase hold what it has held, and the look-ahead. -/
theorem Phrase.allHold_expand {replaced : Phrase} {number : Nat}
    (h : replaced.expand look number = .ok found) (hphrase : (Goal.phrase replaced).Holds P)
    (hlook : P look) : AllHold P found := by
  cases replaced with
  | termBody =>
      simp only [expand, startTerm] at h
      split at h <;> cases h <;>
        simp_all [Goal.Holds, Action.Holds, Action.token?, Goal.emit, Goal.symbol]
  | letRest target =>
      simp only [expand, assignment] at h
      split at h <;> cases h <;>
        simp_all [Goal.Holds, Action.Holds, Action.token?, Goal.emit, Goal.symbol]
  | afterName name =>
      simp only [expand] at h
      split at h <;> cases h <;>
        simp_all [Goal.Holds, Action.Holds, Action.token?, Goal.emit, Goal.symbol]
  | _ =>
      simp only [expand] at h
      repeat' split at h
      all_goals cases h
      all_goals
        simp [Goal.Holds, Action.Holds, Action.token?, Goal.symbol, Goal.emit, Goal.callEnd,
          Goal.block, Goal.condition, declaration, subroutine, statement, conditional, loop, hlook]

end Goals

namespace Standing

variable {P : Token → Prop} {first second : Standing} {steps : List Step}

theorem leadingTokens_of_valid {look : Token} (h : look.kind.isInvalid = false)
    (rest : List Token) : leadingTokens (look :: rest) = look :: leadingTokens rest := by
  rw [leadingTokens, List.takeWhile_cons_of_pos (by rw [h]; rfl)]
  rfl

/-- The property holds of the tokens that goals hold, and of all that are still to come in
front of text that is no token. -/
structure Sound (P : Token → Prop) (standing : Standing) : Prop where
  held : AllHold P standing.goals
  leading : ∀ token ∈ leadingTokens standing.tokens, P token

theorem Moves.sound {step : Option Step} (h : first.Moves step second) (hsound : first.Sound P) :
    second.Sound P := by
  obtain ⟨hheld, hleading⟩ := hsound
  cases h with
  | take hvalid hmeets =>
      rw [leadingTokens_of_valid hvalid] at hleading
      rw [allHold_cons] at hheld
      exact ⟨allHold_append _ _ |>.mpr ⟨hmeets.allHold (hleading _ (.head _)), hheld.2⟩,
        fun token hmem => hleading token (.tail _ hmem)⟩
  | opening rule hvalid | closing rule hvalid | act action hvalid =>
      rw [allHold_cons] at hheld
      exact ⟨hheld.2, hleading⟩
  | @phrase look found goals number rest replaced hvalid hexpand =>
      have hlook : P look := by
        apply hleading
        rw [leadingTokens_of_valid hvalid]
        exact .head _
      rw [allHold_cons] at hheld
      exact ⟨(allHold_append found goals).mpr
        ⟨Phrase.allHold_expand hexpand hheld.1 hlook, hheld.2⟩, hleading⟩

theorem Reaches.sound (h : first.Reaches steps second) (hsound : first.Sound P) :
    second.Sound P := by
  induction h with
  | stay standing => exact hsound
  | move hmove hrest ih => exact ih (hmove.sound hsound)

theorem sound_start (tokens : List Token) :
    (start tokens).Sound (· ∈ leadingTokens tokens) where
  held := by simp [start, Goal.unit, Goal.symbol, Goal.Holds]
  leading _ hmem := hmem

end Standing

end JackLang
