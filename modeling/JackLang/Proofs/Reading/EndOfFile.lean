import JackLang.Proofs.Reading.Standing

/-! # The end of the file is taken last

A token that is taken without being named has been looked at, and what has been looked at
is not the end of the file. The end of the file is asked for once, by the last goal of a
unit, and no other goal takes it.
-/

set_option autoImplicit false

namespace JackLang

namespace Goal

/-- A goal that takes a token unseen is among the first ones, and the look-ahead is not the
end of the file then. -/
def Sighted (look : Token) : List Goal → Prop
  | [] => True
  | .shift :: rest => look.kind ≠ .endOfFile ∧ .shift ∉ rest
  | .opening _ :: rest => Sighted look rest
  | .closing _ :: rest => Sighted look rest
  | .act _ :: rest => Sighted look rest
  | _ :: rest => .shift ∉ rest

/-- Whether a goal asks for the end of the file. -/
def asksEnd : Goal → Bool
  | .token .endOfFile _ => true
  | _ => false

/-- The end of the file is asked for in the end, and only there. -/
def EndsOnce (goals : List Goal) : Prop :=
  ∃ front, goals = front ++ [.token .endOfFile .endOfFile] ∧
    ∀ goal ∈ front, goal.asksEnd = false

variable {look : Token} {goal : Goal} {goals found rest first second : List Goal}

theorem sighted_of_notMem (h : .shift ∉ goals) : Sighted look goals := by
  induction goals with
  | nil => trivial
  | cons goal rest ih =>
      obtain ⟨hgoal, hrest⟩ := not_or.mp ((not_congr List.mem_cons).mp h)
      cases goal with
      | shift => exact absurd rfl hgoal
      | opening rule | closing rule | act action => exact ih hrest
      | token kind expected | name role | type role | phrase replaced => exact hrest

theorem Sighted.append (hfirst : Sighted look first) (hsecond : .shift ∉ second) :
    Sighted look (first ++ second) := by
  induction first with
  | nil => exact sighted_of_notMem hsecond
  | cons goal rest ih =>
      cases goal with
      | opening rule | closing rule | act action => exact ih hfirst
      | shift => exact ⟨hfirst.1, by simp [hfirst.2, hsecond]⟩
      | token kind expected | name role | type role | phrase replaced =>
          have hrest : .shift ∉ rest := hfirst
          show .shift ∉ rest ++ second
          simp [hrest, hsecond]

theorem EndsOnce.ne_nil (h : EndsOnce goals) : goals ≠ [] := by
  obtain ⟨front, rfl, -⟩ := h
  simp

theorem EndsOnce.replace (h : EndsOnce (goal :: rest)) (hgoal : goal.asksEnd = false)
    (hfound : ∀ other ∈ found, other.asksEnd = false) : EndsOnce (found ++ rest) := by
  obtain ⟨front, hfront, hplain⟩ := h
  cases front with
  | nil =>
      obtain ⟨rfl, -⟩ := List.cons.inj hfront
      cases hgoal
  | cons first front =>
      obtain ⟨rfl, rfl⟩ := List.cons.inj hfront
      refine ⟨found ++ front, (List.append_assoc ..).symm, ?_⟩
      intro other hmem
      rcases List.mem_append.mp hmem with hmem | hmem
      · exact hfound other hmem
      · exact hplain other (.tail _ hmem)

theorem EndsOnce.eq_last (h : EndsOnce (goal :: rest)) (hgoal : goal.asksEnd = true) :
    goal = .token .endOfFile .endOfFile ∧ rest = [] := by
  obtain ⟨front, hfront, hplain⟩ := h
  cases front with
  | nil => exact List.cons.inj hfront
  | cons first front =>
      obtain ⟨rfl, -⟩ := List.cons.inj hfront
      rw [hplain goal (.head front)] at hgoal
      cases hgoal

theorem sighted_unit (look : Token) : Sighted look Goal.unit := by
  simp [Goal.unit, Sighted, Goal.symbol]

theorem endsOnce_unit : EndsOnce Goal.unit :=
  ⟨Goal.unit.dropLast, rfl, by simp [Goal.unit, asksEnd, Goal.symbol]⟩

end Goal

open Goal (Sighted EndsOnce)

theorem Phrase.sighted_expand {phrase : Phrase} {look : Token} {number : Nat}
    {goals : List Goal} (h : phrase.expand look number = .ok goals) :
    Sighted look goals ∧ ∀ goal ∈ goals, goal.asksEnd = false := by
  cases phrase with
  | termBody =>
      simp only [expand, startTerm] at h
      split at h <;> rename_i hkind <;> simp only [Except.ok.injEq, reduceCtorEq] at h <;>
        subst h <;> simp [Sighted, Goal.asksEnd, Goal.symbol, Goal.emit, hkind]
  | letRest target =>
      simp only [expand, assignment, Except.ok.injEq] at h
      subst h
      split <;> simp_all [Sighted, Goal.asksEnd, Goal.symbol, Goal.emit]
  | operators =>
      simp only [expand] at h
      split at h
      · rename_i operator hoperator
        cases h
        have hkind : look.kind ≠ .endOfFile := by
          intro hend
          rw [hend] at hoperator
          cases hoperator
        simp [Sighted, Goal.asksEnd, Goal.emit, hkind]
      · cases h
        simp [Sighted]
  | _ =>
      simp only [expand] at h
      repeat' split at h
      all_goals simp only [Except.ok.injEq, reduceCtorEq] at h
      all_goals
        subst h
        simp_all [Sighted, Goal.asksEnd, Goal.symbol, Goal.emit, Goal.callEnd, Goal.block,
          Goal.condition, declaration, subroutine, statement, conditional, loop]

namespace Token.Meets

variable {look : Token} {goal : Goal} {found rest : List Goal}

theorem plain (h : look.Meets goal found) :
    .shift ∉ found ∧ ∀ other ∈ found, other.asksEnd = false := by
  cases h with
  | token expected hkind | shift => simp
  | name role hkind =>
      cases role <;> simp [NameRole.next, Goal.asksEnd, Goal.symbol, Goal.subroutine]
  | type role hkind => cases role <;> simp [TypeRole.next, Goal.asksEnd]

/-- Nothing is taken unseen behind a goal that takes a token. -/
theorem sighted (h : look.Meets goal found) (hsighted : Sighted look (goal :: rest))
    (next : Token) : Sighted next (found ++ rest) := by
  have hrest : .shift ∉ rest := by
    cases h with
    | shift => exact hsighted.2
    | token expected hkind | name role hkind | type role hkind => exact hsighted
  refine Goal.sighted_of_notMem fun hmem => ?_
  rcases List.mem_append.mp hmem with hmem | hmem
  · exact h.plain.1 hmem
  · exact hrest hmem

/-- Only the last goal of a unit takes the end of the file. -/
theorem eq_last (h : look.Meets goal found) (hsighted : Sighted look (goal :: rest))
    (hends : EndsOnce (goal :: rest)) (hlook : look.kind = .endOfFile) :
    goal = .token .endOfFile .endOfFile ∧ found = [] ∧ rest = [] := by
  cases h with
  | token expected hkind =>
      obtain ⟨hgoal, hrest⟩ := hends.eq_last (by rw [← hkind, hlook]; rfl)
      exact ⟨hgoal, rfl, hrest⟩
  | shift => exact absurd hlook hsighted.1
  | name role hkind =>
      rw [hlook] at hkind
      cases hkind
  | type role hkind =>
      rw [hlook] at hkind
      cases hkind

/-- A token that is not the end of the file leaves the end to be asked for. -/
theorem endsOnce (h : look.Meets goal found) (hends : EndsOnce (goal :: rest))
    (hlook : look.kind ≠ .endOfFile) : EndsOnce (found ++ rest) := by
  refine hends.replace ?_ h.plain.2
  cases h with
  | @token kind expected hkind =>
      subst hkind
      cases hkind : look.kind <;> first | rfl | exact absurd hkind hlook
  | shift | name role hkind | type role hkind => rfl

end Token.Meets

end JackLang
