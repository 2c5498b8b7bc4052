import JackLang.Proofs.Reading.Standing

/-! # Phrases in front of a token

In front of one token phrases are replaced again and again, but never one of the same sort
twice: their ranks increase. So whatever comes back, be it the next round of a list or an
expression within an expression, has taken a token in between.
-/

set_option autoImplicit false

namespace JackLang

/-- The order in which phrases can come up in front of one token. -/
def Phrase.rank : Phrase → Nat
  | .classVariables => 1
  | .subroutines => 2
  | .resultType => 3
  | .parameters => 4
  | .moreParameters => 5
  | .moreNames _ _ => 6
  | .locals => 7
  | .statements => 8
  | .elseRest => 9
  | .moreStatements => 10
  | .letRest _ => 11
  | .ifRest => 12
  | .whileRest => 13
  | .returnRest => 14
  | .arguments _ => 15
  | .argument _ _ => 16
  | .expression => 17
  | .term => 18
  | .termBody => 19
  | .afterName _ => 20
  | .call _ => 21
  | .operators => 22
  | .moreArguments _ _ => 23

/-- The greatest rank that has come up in front of the token that is the look-ahead behind
a phrase. Behind a phrase that ends with a token it is 0. -/
def Phrase.reached : Phrase → Nat
  | .classVariables => 1
  | .subroutines => 2
  | .parameters => 5
  | .moreParameters => 5
  | .moreNames _ _ => 6
  | .locals => 7
  | .statements => 10
  | .elseRest => 9
  | .moreStatements => 10
  | .ifRest => 9
  | .expression => 22
  | .term => 20
  | .termBody => 20
  | .afterName _ => 20
  | .operators => 22
  | _ => 0

def NameRole.reached : NameRole → Nat
  | .declared _ _ => 6
  | .parameter _ => 5
  | _ => 0

def TypeRole.reached : TypeRole → Nat
  | .declared _ => 6
  | .parameter => 5
  | .result => 0

namespace Goal

/-- The greatest rank that has come up in front of the look-ahead behind a goal. -/
def reached (rank : Nat) : Goal → Nat
  | .token _ _ => 0
  | .shift => 0
  | .name role => role.reached
  | .type role => role.reached
  | .opening _ => rank
  | .closing _ => rank
  | .act _ => rank
  | .phrase replaced => replaced.reached

def reachedBy (rank : Nat) : List Goal → Nat
  | [] => rank
  | goal :: rest => reachedBy (goal.reached rank) rest

/-- The ranks of the phrases among goals increase between two tokens. -/
def Ranked (rank : Nat) : List Goal → Prop
  | [] => True
  | .phrase replaced :: rest => rank < replaced.rank ∧ Ranked replaced.reached rest
  | goal :: rest => Ranked (goal.reached rank) rest

variable {rank low : Nat} {goal : Goal} {goals first second : List Goal}

theorem Ranked.mono (h : Ranked rank goals) (hlow : low ≤ rank) : Ranked low goals := by
  induction goals generalizing rank low with
  | nil => trivial
  | cons goal rest ih =>
      cases goal with
      | phrase replaced => exact ⟨Nat.lt_of_le_of_lt hlow h.1, h.2⟩
      | opening rule | closing rule | act action => exact ih h hlow
      | token kind expected | shift | name role | type role => exact h

theorem Ranked.append (hfirst : Ranked rank first)
    (hsecond : Ranked (reachedBy rank first) second) : Ranked rank (first ++ second) := by
  induction first generalizing rank with
  | nil => exact hsecond
  | cons goal rest ih =>
      cases goal with
      | phrase replaced => exact ⟨hfirst.1, ih hfirst.2 hsecond⟩
      | opening rule | closing rule | act action | token kind expected | shift | name role
      | type role => exact ih hfirst hsecond

end Goal

open Goal (Ranked reachedBy)

theorem Phrase.ranked_startTerm {look : Token} {goals : List Goal}
    (h : Phrase.startTerm look = .ok goals) :
    Ranked 19 goals ∧ reachedBy 19 goals ≤ 20 := by
  unfold Phrase.startTerm at h
  split at h <;> simp only [Except.ok.injEq, reduceCtorEq] at h <;> subst h <;>
    simp [Ranked, reachedBy, Goal.reached, Goal.symbol, Goal.emit, reached, rank]

/-- What replaces a phrase is of greater rank, and gets no further than the phrase. -/
theorem Phrase.ranked_expand {phrase : Phrase} {look : Token} {number : Nat}
    {goals : List Goal} (h : phrase.expand look number = .ok goals) :
    Ranked phrase.rank goals ∧ reachedBy phrase.rank goals ≤ phrase.reached := by
  cases phrase with
  | termBody => exact ranked_startTerm h
  | letRest target =>
      simp only [expand, assignment, Except.ok.injEq] at h
      subst h
      split <;> simp [Ranked, reachedBy, Goal.reached, Goal.symbol, Goal.emit, rank, reached]
  | _ =>
      simp only [expand] at h
      repeat' split at h
      all_goals simp only [Except.ok.injEq, reduceCtorEq] at h
      all_goals
        subst h
        simp [Ranked, reachedBy, Goal.reached, Goal.symbol, Goal.emit, Goal.callEnd, Goal.block,
          Goal.condition, declaration, subroutine, statement, conditional, loop, rank, reached,
          NameRole.reached, TypeRole.reached]

/-- A bound on how many goals there are in place of a phrase or a name. -/
def Goal.greatest : Nat := 16

theorem Phrase.length_expand {phrase : Phrase} {look : Token} {number : Nat}
    {goals : List Goal} (h : phrase.expand look number = .ok goals) :
    goals.length ≤ Goal.greatest := by
  cases phrase with
  | termBody =>
      simp only [expand, startTerm] at h
      split at h <;> simp only [Except.ok.injEq, reduceCtorEq] at h <;> subst h <;>
        simp [Goal.greatest]
  | letRest target =>
      simp only [expand, assignment, Except.ok.injEq] at h
      subst h
      split <;> simp [Goal.greatest]
  | _ =>
      simp only [expand] at h
      repeat' split at h
      all_goals simp only [Except.ok.injEq, reduceCtorEq] at h
      all_goals
        subst h
        simp [Goal.greatest, Goal.callEnd, Goal.block, Goal.condition, declaration, subroutine,
          statement, conditional, loop]

/-- What stands in the place of a goal that has taken its token. -/
theorem Token.Meets.ranked {look : Token} {goal : Goal} {found : List Goal}
    (h : look.Meets goal found) (rank : Nat) :
    Ranked 0 found ∧ reachedBy 0 found ≤ goal.reached rank ∧
      found.length ≤ Goal.greatest := by
  cases h with
  | token expected hkind | shift => exact ⟨trivial, Nat.le_refl _, Nat.zero_le _⟩
  | name role hkind =>
      cases role <;>
        simp [NameRole.next, Ranked, reachedBy, Goal.reached, Goal.symbol, Goal.subroutine,
          NameRole.reached, Phrase.rank, Phrase.reached, Goal.greatest]
  | type role hkind =>
      cases role <;>
        simp [TypeRole.next, Ranked, reachedBy, Goal.reached, NameRole.reached,
          TypeRole.reached, Goal.greatest]

theorem Goal.ranked_unit : Ranked 0 Goal.unit := by
  simp [Goal.unit, Ranked, Goal.reached, Goal.symbol, Phrase.rank, Phrase.reached]

theorem Phrase.rank_le (phrase : Phrase) : phrase.rank ≤ 23 := by
  cases phrase <;> simp [rank]

end JackLang
