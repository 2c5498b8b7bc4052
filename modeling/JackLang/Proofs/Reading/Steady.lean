import JackLang.Proofs.Reading.EndOfFile
import JackLang.Proofs.Reading.Ranks
import Mathlib.Tactic.ByContra

/-! # Moves get nearer to the end

A move takes a token, or it replaces a phrase by others of greater rank, or it is one of the
goals less. So there are only so many moves for each token.
-/

set_option autoImplicit false

namespace JackLang

open Goal (Ranked Sighted EndsOnce reachedBy)

theorem Goal.Ranked.tail {rank : Nat} {goal : Goal} {goals : List Goal}
    (h : Ranked rank (goal :: goals)) : Ranked (goal.reached rank) goals := by
  cases goal with
  | phrase replaced => exact h.2
  | token kind expected | shift | name role | type role | opening rule | closing rule
  | act action => exact h

namespace Standing

/-- What holds between two moves, with the greatest rank that has come up in front of the
look-ahead. -/
structure Steady (rank : Nat) (standing : Standing) : Prop where
  finished : standing.tokens = [] → standing.goals = []
  endsOnce : standing.tokens ≠ [] → EndsOnce standing.goals
  sighted : ∀ look, standing.tokens.head? = some look → Sighted look standing.goals
  ranked : Ranked rank standing.goals
  small : rank ≤ 23

/-- A bound on the moves for each token. -/
def movesForToken : Nat := Goal.greatest * 26

/-- A bound on the moves that are left. -/
def left (rank : Nat) (standing : Standing) : Nat :=
  standing.goals.length + Goal.greatest * (24 - rank) + movesForToken * standing.tokens.length

/-- A token is taken, or else the phrases in front of it have greater ranks. -/
def Advances (rank : Nat) (first : Standing) (rank' : Nat) (second : Standing) : Prop :=
  (∃ look, first.tokens = look :: second.tokens) ∨
    (first.tokens = second.tokens ∧ rank ≤ rank' ∧
      ∀ phrase goals, first.goals = .phrase phrase :: goals → rank' = phrase.rank)

variable {first second : Standing} {step : Option Step} {rank rank' : Nat}

theorem Advances.ranks (h : first.Advances rank rank' second)
    (htokens : first.tokens = second.tokens) :
    rank ≤ rank' ∧ ∀ phrase goals, first.goals = .phrase phrase :: goals → rank' = phrase.rank := by
  rcases h with ⟨look, hlook⟩ | ⟨-, hranks⟩
  · rw [hlook] at htokens
    cases List.cons_ne_self look second.tokens htokens
  · exact hranks

theorem Steady.goals_eq_nil_iff (h : first.Steady rank) : first.goals = [] ↔ first.tokens = [] := by
  refine ⟨fun hgoals => ?_, h.finished⟩
  by_contra hrest
  exact (h.endsOnce hrest).ne_nil hgoals

theorem Steady.left_pos (h : first.Steady rank) : 0 < first.left rank := by
  have hranks : 0 < Goal.greatest * (24 - rank) :=
    Nat.mul_pos (by decide) (Nat.sub_pos_of_lt (Nat.lt_succ_of_le h.small))
  rw [left]
  omega

/-- A goal that shows or orders something is left behind without a token. -/
theorem Steady.skip {goal : Goal} {goals : List Goal} {number : Nat} {look : Token}
    {rest : List Token} (h : Steady rank ⟨goal :: goals, number, look :: rest⟩)
    (hplain : ∀ phrase, goal ≠ .phrase phrase) (hends : goal.asksEnd = false)
    (hranked : Ranked rank goals) (hsighted : Sighted look (goal :: goals) → Sighted look goals) :
    ∃ rank', Steady rank' ⟨goals, number, look :: rest⟩ ∧
      left rank' ⟨goals, number, look :: rest⟩ < left rank ⟨goal :: goals, number, look :: rest⟩ ∧
      Advances rank ⟨goal :: goals, number, look :: rest⟩ rank' ⟨goals, number, look :: rest⟩ := by
  refine ⟨rank, ?_, ?_, .inr ⟨rfl, Nat.le_refl rank, ?_⟩⟩
  · constructor
    case finished => exact fun hnone => absurd hnone (List.cons_ne_nil look rest)
    case endsOnce =>
      intro hrest
      have hnone : ∀ other ∈ ([] : List Goal), other.asksEnd = false := by simp
      have hgoals : EndsOnce ([] ++ goals) := (h.endsOnce hrest).replace hends hnone
      exact hgoals
    case sighted =>
      intro other hother
      cases hother
      exact hsighted (h.sighted look rfl)
    case ranked => exact hranked
    case small => exact h.small
  · simp [left]
  · exact fun phrase others heq => absurd (List.cons.inj heq).1 (hplain phrase)

/-- Every move keeps the standing steady, and leaves fewer moves. -/
theorem Moves.steady (hmoves : first.Moves step second) (h : first.Steady rank)
    (hend : ∀ look rest, first.tokens = look :: rest → (look.kind = .endOfFile ↔ rest = [])) :
    ∃ rank', second.Steady rank' ∧ second.left rank' < first.left rank ∧
      first.Advances rank rank' second := by
  have hgreatest : Goal.greatest = 16 := rfl
  have hforToken : movesForToken = 416 := rfl
  cases hmoves with
  | @take look goal found goals number rest hvalid hmeets =>
      obtain ⟨hfound, hreached, hlength⟩ := hmeets.ranked rank
      have hsighted := h.sighted look rfl
      have hends := h.endsOnce (List.cons_ne_nil look rest)
      have hlast := hend look rest rfl
      refine ⟨0, ?_, ?_, .inl ⟨look, rfl⟩⟩
      · constructor
        case finished =>
          intro hrest
          obtain ⟨-, hnone, hothers⟩ := hmeets.eq_last hsighted hends (hlast.mpr hrest)
          rw [hnone, hothers]
          rfl
        case endsOnce => exact fun hrest => hmeets.endsOnce hends ((not_congr hlast).mpr hrest)
        case sighted => exact fun next _ => hmeets.sighted hsighted next
        case ranked => exact hfound.append (h.ranked.tail.mono hreached)
        case small => exact Nat.zero_le 23
      · simp only [left, hforToken, hgreatest, List.length_append, List.length_cons] at hlength ⊢
        omega
  | opening rule hvalid | closing rule hvalid | act action hvalid =>
      exact h.skip (fun _ => Goal.noConfusion) rfl h.ranked id
  | @phrase look found goals number rest replaced hvalid hexpand =>
      obtain ⟨hless, htail⟩ := h.ranked
      obtain ⟨hfound, hreached⟩ := Phrase.ranked_expand hexpand
      obtain ⟨hsighted, hplain⟩ := Phrase.sighted_expand hexpand
      have hlength := Phrase.length_expand hexpand
      have hsmall := replaced.rank_le
      refine ⟨replaced.rank, ?_, ?_, .inr ⟨rfl, Nat.le_of_lt hless, ?_⟩⟩
      · constructor
        case finished => exact fun hnone => absurd hnone (List.cons_ne_nil look rest)
        case endsOnce => exact fun hrest => (h.endsOnce hrest).replace rfl hplain
        case sighted =>
          intro other hother
          cases hother
          exact hsighted.append (h.sighted look rfl)
        case ranked => exact hfound.append (htail.mono hreached)
        case small => exact hsmall
      · simp only [left, hforToken, hgreatest, List.length_append, List.length_cons] at hlength ⊢
        omega
      · intro phrase others heq
        cases heq
        rfl

end Standing

end JackLang
