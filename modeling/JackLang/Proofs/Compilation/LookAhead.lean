import JackLang.Proofs.Compilation.Shown
import JackLang.Proofs.Reading.Completion
import JackLang.Proofs.Reading.Taken

/-! # How far a compilation looks

A compilation that fails has looked at no token behind its look-ahead. So what tokens
are given behind it makes no difference to the transcript.
-/

set_option autoImplicit false

namespace JackLang

def Event.isLeaf : Event → Bool
  | .leaf _ => true
  | _ => false

/-- The number of the token that is the look-ahead in the end. In front of it there are
those that have been taken, which are the leaves. -/
def Transcript.lookAhead (transcript : Transcript) : Nat :=
  transcript.events.countP Event.isLeaf

namespace Progress

variable {progress next : Progress} {front : List Token}

/-- A reading that stops in front of or at one of the tokens does not get to those
behind them. -/
theorem read_congr_of_take?_eq_none (h : progress.take? front = none) (rest others : List Token) :
    progress.read (front ++ rest) = progress.read (front ++ others) := by
  induction front generalizing progress with
  | nil => cases h
  | cons look more ih =>
      rw [take?] at h
      split at h
      · rename_i hinvalid
        cases hkind : look.kind with
        | invalid error => simp only [List.cons_append, read, readAfter, hkind]
        | _ =>
            rw [hkind] at hinvalid
            cases hinvalid
      · rename_i hvalid
        have hready : look.kind.isInvalid = false := by simpa using hvalid
        split at h
        · rename_i goals number steps hsettle
          rw [List.cons_append, List.cons_append, read_of_taken hready hsettle,
            read_of_taken hready hsettle]
          exact ih h
        · rename_i expected steps hsettle
          rw [List.cons_append, List.cons_append, read, read, readAfter_cons _ _ hready,
            readAfter_cons _ _ hready, hsettle]

theorem wordsTaken_of_settle {look : Token} {number number' : Nat} {steps steps' : List Step}
    {goals goals' : List Goal}
    (h : settle look number steps goals = .taken goals' number' steps') :
    (wordsTaken steps').length = (wordsTaken steps).length + 1 := by
  fun_induction settle look number steps goals with
  | case1 | case3 | case6 | case8 | case13 => cases h
  | case2 | case4 | case5 | case7 =>
      cases h
      simp
  | case9 number steps rule rest ih | case10 number steps rule rest ih
  | case11 number steps action rest ih => simpa using ih h
  | case12 number steps replaced rest goals hexpand ih => exact ih h

theorem wordsTaken_of_take? (h : progress.take? front = some next) :
    (wordsTaken next.steps).length = (wordsTaken progress.steps).length + front.length := by
  induction front generalizing progress with
  | nil =>
      cases h
      rfl
  | cons look others ih =>
      obtain ⟨goals, number, steps, _, hsettle, hothers⟩ := take?_cons h
      have htaken := wordsTaken_of_settle hsettle
      have hrest : (wordsTaken next.steps).length = (wordsTaken steps).length + others.length :=
        ih hothers
      rw [List.length_cons]
      omega

end Progress

section Following

theorem countP_isLeaf_events (context : Context) (action : Action) :
    (context.perform action).events.countP Event.isLeaf = 0 := by
  rw [List.countP_eq_zero]
  intro event hmem hleaf
  -- a leaf would show a step, and actions show none
  have hshown := List.filterMap_eq_nil_iff.mp (context.filterMap_step?_events action) event hmem
  cases event with
  | leaf token => cases hshown
  | _ => cases hleaf

theorem countP_isLeaf_le_lookAhead (steps : List Step) (events : List Event) (context : Context)
    (failure : Option Failure) :
    events.countP Event.isLeaf ≤ (followAfter events context failure steps).lookAhead := by
  rw [Transcript.lookAhead, events_followAfter, List.countP_append, List.countP_reverse]
  exact Nat.le_add_right _ _

/-- Steps that are followed by others either end the compilation, whatever the others
are, or it goes on behind the tokens that they have taken. -/
theorem followAfter_append (shared : List Step) (events : List Event) (context : Context) :
    (∃ transcript, ∀ failure more,
      followAfter events context failure (shared ++ more) = transcript) ∨
    ∃ reached next,
      reached.countP Event.isLeaf = events.countP Event.isLeaf + (wordsTaken shared).length ∧
      ∀ failure more, followAfter events context failure (shared ++ more) =
        followAfter reached next failure more := by
  induction shared generalizing events context with
  | nil => exact .inr ⟨events, context, rfl, fun _ _ => rfl⟩
  | cons step rest ih =>
      cases step with
      | opened rule =>
          rcases ih (.opened rule :: events) context with hends | ⟨reached, next, hcount, hgoes⟩
          · exact .inl hends
          · exact .inr ⟨reached, next, by simpa [Event.isLeaf] using hcount, hgoes⟩
      | closed rule =>
          rcases ih (.closed rule :: events) context with hends | ⟨reached, next, hcount, hgoes⟩
          · exact .inl hends
          · exact .inr ⟨reached, next, by simpa [Event.isLeaf] using hcount, hgoes⟩
      | took token =>
          rcases ih (.leaf token :: events) context with hends | ⟨reached, next, hcount, hgoes⟩
          · exact .inl hends
          · refine .inr ⟨reached, next, ?_, hgoes⟩
            rw [hcount, List.countP_cons_of_pos rfl, wordsTaken_took, List.length_cons]
            omega
      | act action =>
          have hleaves := countP_isLeaf_events context action
          rcases heffect : context.perform action with ⟨added, next, error⟩
          rw [heffect] at hleaves
          cases error with
          | some error =>
              refine .inl ⟨⟨(added.reverseAux events).reverse, next, some (.static error)⟩, ?_⟩
              intro failure more
              rw [List.cons_append, followAfter, heffect]
          | none =>
              have hcount : (added.reverseAux events).countP Event.isLeaf =
                  events.countP Event.isLeaf := by
                rw [List.reverseAux_eq, List.countP_append, List.countP_reverse, hleaves,
                  Nat.zero_add]
              have hrest := ih (added.reverseAux events) next
              rw [hcount] at hrest
              simpa only [List.cons_append, followAfter, heffect, wordsTaken_act] using hrest

end Following

/-- What is behind the look-ahead has no part in the compilation. -/
theorem Transcript.ofTokens_congr {front rest : List Token}
    (h : (ofTokens (front ++ rest)).lookAhead < front.length) (others : List Token) :
    ofTokens (front ++ others) = ofTokens (front ++ rest) := by
  cases htake : Progress.initial.take? front with
  | none =>
      rw [ofTokens, ofTokens, readUnit_eq_read, readUnit_eq_read,
        Progress.read_congr_of_take?_eq_none htake others rest]
  | some next =>
      have hfollow : ∀ behind, ∃ more, ofTokens (front ++ behind) =
          followAfter [] .initial (next.read behind).verdict.failure?
            (next.steps.reverse ++ more) := by
        intro behind
        obtain ⟨more, hmore⟩ := next.prefix_read behind
        exact ⟨more, by rw [ofTokens, readUnit_eq_read, Progress.read_append htake, hmore]⟩
      obtain ⟨more, hrest⟩ := hfollow rest
      obtain ⟨further, hothers⟩ := hfollow others
      rw [hrest] at h ⊢
      rw [hothers]
      rcases followAfter_append next.steps.reverse [] .initial with
        ⟨transcript, hends⟩ | ⟨reached, context, hcount, hgoes⟩
      · rw [hends, hends]
      · -- then all tokens in front have been taken, and the look-ahead is behind them
        have htaken := Progress.wordsTaken_of_take? htake
        have hreversed : (wordsTaken next.steps.reverse).length =
            (wordsTaken next.steps).length := by
          rw [wordsTaken, List.filterMap_reverse, List.length_reverse, wordsTaken]
        have hle := countP_isLeaf_le_lookAhead more reached context
          (next.read rest).verdict.failure?
        have hinitial : (wordsTaken Progress.initial.steps).length = 0 := rfl
        rw [hgoes] at h
        rw [List.countP_nil] at hcount
        omega

end JackLang
