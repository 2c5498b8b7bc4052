import JackLang.Proofs.Compilation.Runs
import JackLang.Proofs.Reading.Places

/-! # What errors point at

An action is handed the token that its error points at. How many tokens are taken
when the action is carried out, and which of them was the latest name, tells the
number of that token.
-/

set_option autoImplicit false

namespace JackLang

def Action.token? : Action → Option Token
  | .declare _ _ name => some name
  | .require name => some name
  | .load name => some name
  | .store name => some name
  | .integer constant => some constant
  | .string constant => some constant
  | .argument _ _ first => some first
  | _ => none

/-- The token of the action is the one with the number that it points at. -/
def Action.Points (tokens : List Token) (position : Position) (action : Action) : Prop :=
  ∀ token number, action.token? = some token → action.number? position = some number →
    tokens[number]? = some token

def Phrase.Points (tokens : List Token) (position : Position) : Phrase → Prop
  | .letRest target => tokens[position.name]? = some target
  | .afterName name => tokens[position.name]? = some name
  | _ => True

/-- The goal points at no token in front of the next one. -/
def Goal.isBlind : Goal → Bool
  | .act ordered => (ordered.number? ⟨0, 0⟩).isNone
  | .phrase (.letRest _) => false
  | .phrase (.afterName _) => false
  | _ => true

def Blind (goals : List Goal) : Prop :=
  ∀ goal ∈ goals, goal.isBlind = true

@[simp] theorem blind_nil : Blind [] := by
  simp [Blind]

@[simp] theorem blind_cons (goal : Goal) (rest : List Goal) :
    Blind (goal :: rest) ↔ goal.isBlind = true ∧ Blind rest := by
  simp [Blind]

@[simp] theorem blind_append (first second : List Goal) :
    Blind (first ++ second) ↔ Blind first ∧ Blind second := by
  simp [Blind, or_imp, forall_and]

/-- What the goals point at up to the next token that is not shifted. Goals behind it
point at none of the tokens so far. -/
def Placed (tokens : List Token) (position : Position) : List Goal → Prop
  | [] => True
  | .act ordered :: rest => ordered.Points tokens position ∧ Placed tokens position rest
  | .opening _ :: rest => Placed tokens position rest
  | .closing _ :: rest => Placed tokens position rest
  | .shift :: rest =>
      ∀ look, tokens[position.taken]? = some look →
        Placed tokens (position.after (.took look)) rest
  | .phrase replaced :: rest => replaced.Points tokens position ∧ Blind rest
  | .token _ _ :: rest => Blind rest
  | .name _ :: rest => Blind rest
  | .type _ :: rest => Blind rest

section Goals

variable {tokens : List Token} {position : Position} {goals rest : List Goal} {look : Token}

theorem Action.number?_eq_none {action : Action} (h : (action.number? ⟨0, 0⟩).isNone = true)
    (position : Position) : action.number? position = none := by
  cases action <;> first | rfl | cases h

theorem Blind.placed (h : Blind goals) (position : Position) : Placed tokens position goals := by
  induction goals generalizing position with
  | nil => trivial
  | cons goal rest ih =>
      rw [blind_cons] at h
      cases goal with
      | act ordered =>
          refine ⟨?_, ih h.2 position⟩
          intro token number _ hnumber
          rw [Action.number?_eq_none h.1] at hnumber
          cases hnumber
      | opening rule | closing rule => exact ih h.2 position
      | shift => exact fun look _ => ih h.2 _
      | phrase replaced =>
          refine ⟨?_, h.2⟩
          cases replaced with
          | letRest target | afterName name => cases h.1
          | _ => trivial
      | token kind expected => exact h.2
      | name role => exact h.2
      | type role => exact h.2

theorem Placed.append (h : Placed tokens position goals) (hrest : Blind rest) :
    Placed tokens position (goals ++ rest) := by
  induction goals generalizing position with
  | nil => exact hrest.placed position
  | cons goal others ih =>
      cases goal with
      | act ordered => exact ⟨h.1, ih h.2⟩
      | opening rule | closing rule => exact ih h
      | shift => exact fun look hlook => ih (h look hlook)
      | phrase replaced => exact ⟨h.1, (blind_append _ _).mpr ⟨h.2, hrest⟩⟩
      | token kind expected | name role | type role => exact (blind_append _ _).mpr ⟨h, hrest⟩

theorem NameRole.placed_next (role : NameRole) (hlook : tokens[position.name]? = some look) :
    Placed tokens position (role.next look) := by
  cases role with
  | declared kind type | parameter type =>
      refine ⟨?_, trivial, blind_nil⟩
      rintro token number ⟨⟩ ⟨⟩
      exact hlook
  | letTarget => exact ⟨hlook, blind_nil⟩
  | className | subroutine kind | doCallee | member receiver =>
      refine Blind.placed ?_ position
      simp [NameRole.next, Goal.subroutine, Goal.isBlind, Action.number?, Goal.symbol]

theorem TypeRole.placed_next (role : TypeRole) (type : String) :
    Placed tokens position (role.next type) := by
  refine Blind.placed ?_ position
  cases role <;> simp [TypeRole.next, Goal.isBlind]

/-- A variable behind the name that a phrase points at. -/
theorem points_of_name {action : Action} {name : Token} (haction : action.token? = some name)
    (hnumber : action.number? position = some position.name)
    (hname : tokens[position.name]? = some name) : action.Points tokens position := by
  intro token number htoken hfound
  rw [haction] at htoken
  rw [hnumber] at hfound
  cases htoken
  cases hfound
  exact hname

/-- A shifted token that is no name leaves the latest name as it is. -/
theorem placed_shift_load {name : Token} (hlook : tokens[position.taken]? = some look)
    (hkind : look.kind ≠ .identifier) (hname : tokens[position.name]? = some name)
    (hrest : Blind rest) : Placed tokens position (.shift :: .act (.load name) :: rest) := by
  intro other hother
  rw [hlook] at hother
  cases hother
  have hafter : (position.after (.took look)).name = position.name := by
    rw [Position.after, if_neg hkind]
  refine ⟨points_of_name rfl rfl ?_, hrest.placed _⟩
  rw [hafter]
  exact hname

theorem placed_shift_constant {action : Action} (hlook : tokens[position.taken]? = some look)
    (haction : action.token? = some look)
    (hnumber : ∀ position, action.number? position = some (position.taken - 1)) :
    Placed tokens position [.shift, .act action] := by
  intro other hother
  rw [hlook] at hother
  cases hother
  refine ⟨?_, trivial⟩
  intro token number htoken hfound
  rw [haction] at htoken
  rw [hnumber] at hfound
  cases htoken
  cases hfound
  exact hlook

theorem Phrase.placed_startTerm (hlook : tokens[position.taken]? = some look)
    (h : Phrase.startTerm look = .ok goals) : Placed tokens position goals := by
  unfold Phrase.startTerm at h
  split at h
  · cases h
    exact placed_shift_constant hlook rfl fun _ => rfl
  · cases h
    exact placed_shift_constant hlook rfl fun _ => rfl
  case h_10 hkind =>
    cases h
    intro other hother
    rw [hlook] at hother
    cases hother
    refine ⟨?_, blind_nil⟩
    change tokens[(position.after (.took look)).name]? = some look
    rw [Position.after, if_pos hkind]
    exact hlook
  all_goals
    first
      | cases h
        exact Blind.placed (by simp [Goal.isBlind, Goal.emit, Goal.symbol, Action.number?]) position
      | cases h

theorem Phrase.placed_expand {replaced : Phrase} {number : Nat}
    (h : replaced.Points tokens position) (hlook : tokens[position.taken]? = some look)
    (hexpand : replaced.expand look number = .ok goals) : Placed tokens position goals := by
  cases replaced with
  | termBody => exact Phrase.placed_startTerm hlook hexpand
  | letRest target =>
      cases hexpand
      refine ⟨points_of_name rfl rfl h, ?_⟩
      by_cases hkind : look.kind = .symbol .leftBracket
      · rw [if_pos hkind]
        refine placed_shift_load hlook (by simp [hkind]) h ?_
        simp [Goal.isBlind, Goal.symbol, Goal.emit, Action.number?]
      · rw [if_neg hkind]
        refine Blind.placed ?_ position
        simp [Goal.isBlind, Goal.symbol, Action.number?]
  | afterName name =>
      simp only [expand] at hexpand
      split at hexpand
      · rename_i hkind
        cases hexpand
        refine ⟨points_of_name rfl rfl h, placed_shift_load hlook (by simp [hkind]) h ?_⟩
        simp [Goal.isBlind, Goal.symbol, Goal.emit, Action.number?]
      · cases hexpand
        exact ⟨trivial, blind_nil⟩
      · cases hexpand
        exact ⟨trivial, blind_nil⟩
      · cases hexpand
        exact ⟨points_of_name rfl rfl h, trivial⟩
  | argument callee count =>
      cases hexpand
      refine ⟨?_, trivial, by simp [Goal.isBlind]⟩
      rintro token number ⟨⟩ ⟨⟩
      exact hlook
  | _ =>
      -- the goals of the other phrases point at tokens that are still to come
      simp only [expand] at hexpand
      repeat' split at hexpand
      all_goals simp only [Except.ok.injEq, reduceCtorEq] at hexpand
      all_goals
        subst hexpand
        refine Blind.placed ?_ position
        simp [Goal.isBlind, Goal.symbol, Goal.emit, Goal.callEnd, Goal.block, Goal.condition,
          declaration, subroutine, statement, conditional, loop, Action.number?]

end Goals

/-- The actions among steps point at the tokens with their numbers. -/
def AllPoint (tokens : List Token) (position : Position) : List Step → Prop
  | [] => True
  | .act action :: rest => action.Points tokens position ∧ AllPoint tokens position rest
  | step :: rest => AllPoint tokens (position.after step) rest

theorem allPoint_append (tokens : List Token) (position : Position) (first second : List Step) :
    AllPoint tokens position (first ++ second) ↔
      AllPoint tokens position first ∧
        AllPoint tokens (first.foldl Position.after position) second := by
  induction first generalizing position with
  | nil => simp [AllPoint]
  | cons step rest ih =>
      cases step with
      | opened rule | closed rule | took token => exact ih _
      | act action =>
          simp only [List.cons_append, AllPoint, ih, and_assoc]
          exact Iff.rfl

/-- Steps that are made, last first, point at their tokens, and so do the goals that are
left behind them. -/
structure Pointing (tokens : List Token) (position : Position) (steps : List Step)
    (goals : List Goal) : Prop where
  made : AllPoint tokens ⟨0, 0⟩ steps.reverse
  reached : steps.reverse.foldl Position.after ⟨0, 0⟩ = position
  left : Placed tokens position goals

section Reading

variable {tokens : List Token} {position : Position} {steps : List Step}

theorem Pointing.step {goals rest : List Goal} (h : Pointing tokens position steps goals)
    (step : Step) (hstep : AllPoint tokens position [step])
    (hrest : Placed tokens (position.after step) rest) :
    Pointing tokens (position.after step) (step :: steps) rest := by
  refine ⟨?_, ?_, hrest⟩
  · rw [List.reverse_cons, allPoint_append, h.reached]
    exact ⟨h.made, hstep⟩
  · rw [List.reverse_cons, List.foldl_append, h.reached]
    rfl

theorem Pointing.of_settle {look : Token} {goals : List Goal} (number : Nat)
    (h : Pointing tokens position steps goals) (hlook : tokens[position.taken]? = some look) :
    match settle look number steps goals with
    | .taken goals _ steps => Pointing tokens (position.after (.took look)) steps goals
    | .refused _ steps => AllPoint tokens ⟨0, 0⟩ steps.reverse := by
  fun_induction settle look number steps goals with
  | case1 number steps => exact h.made
  | case2 =>
      exact h.step (.took look) trivial (Blind.placed h.left _)
  | case3 => exact h.made
  | case4 number steps rest => exact h.step (.took look) trivial (h.left look hlook)
  | case5 number steps role rest hkind =>
      refine h.step (.took look) trivial ?_
      have hname : tokens[(position.after (.took look)).name]? = some look := by
        rw [Position.after, if_pos hkind]
        exact hlook
      exact (role.placed_next hname).append h.left
  | case6 => exact h.made
  | case7 number steps role rest hkind =>
      exact h.step (.took look) trivial ((role.placed_next look.lexeme).append h.left)
  | case8 => exact h.made
  | case9 number steps rule rest ih => exact ih (h.step (.opened rule) trivial h.left)
  | case10 number steps rule rest ih => exact ih (h.step (.closed rule) trivial h.left)
  | case11 number steps action rest ih =>
      exact ih (h.step (.act action) ⟨h.left.1, trivial⟩ h.left.2)
  | case12 number steps replaced rest goals hexpand ih =>
      exact ih ⟨h.made, h.reached,
        (replaced.placed_expand h.left.1 hlook hexpand).append h.left.2⟩
  | case13 => exact h.made

theorem Pointing.of_readAfter {goals : List Goal} (number : Nat) (front : List Token)
    {rest : List Token} (h : Pointing tokens position steps goals) (htokens : tokens = front ++ rest)
    (htaken : position.taken = front.length) :
    AllPoint tokens ⟨0, 0⟩ (readAfter steps number goals rest).steps := by
  induction rest generalizing position steps goals number front with
  | nil => exact h.made
  | cons look others ih =>
      have hlook : tokens[position.taken]? = some look := by
        rw [htokens, htaken, List.getElem?_append_right (Nat.le_refl _), Nat.sub_self]
        rfl
      have hsettle := h.of_settle number hlook
      rw [readAfter]
      split
      · exact h.made
      · split
        · rename_i taken number' steps' heq
          rw [heq] at hsettle
          refine ih number' (front ++ [look]) hsettle (by simp [htokens]) ?_
          simp [Position.after, htaken]
        · rename_i heq
          rw [heq] at hsettle
          exact hsettle

theorem allPoint_readUnit (tokens : List Token) :
    AllPoint tokens ⟨0, 0⟩ (readUnit tokens).steps := by
  have hunit : Blind Goal.unit := by
    simp [Goal.unit, Goal.isBlind, Goal.symbol]
  have hstart : Pointing tokens ⟨0, 0⟩ [] Goal.unit := ⟨trivial, rfl, hunit.placed _⟩
  exact hstart.of_readAfter 0 [] (List.nil_append tokens).symm rfl

end Reading

end JackLang
