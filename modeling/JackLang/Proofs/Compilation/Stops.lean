import JackLang.Proofs.Compilation.LookAhead
import JackLang.Proofs.Reading.Standing

/-! # Where a compilation stops

Steps are carried out up to the first action that is not allowed. The reading has got
to some standing by then, and there the compilation stops: at the verdict of the reading,
or at an action that is the next one to be ordered.
-/

set_option autoImplicit false

namespace JackLang

/-- The steps up to the first action that is not allowed. -/
def Context.carriedOut (context : Context) : List Step → List Step
  | [] => []
  | .act action :: rest =>
      match context.perform action with
      | ⟨_, next, none⟩ => .act action :: next.carriedOut rest
      | ⟨_, _, some _⟩ => []
  | step :: rest => step :: context.carriedOut rest

/-- How a compilation ends whose reading has got to the standing. -/
inductive Standing.Ends (standing : Standing) : Option Failure → Prop
  | verdict (verdict : Verdict) (hconcerns : verdict.Concerns standing.tokens) :
      Ends standing verdict.failure?
  | static {context : Context} {action : Action} {next : Standing} {error : StaticError}
      (hmove : standing.Moves (some (.act action)) next)
      (herror : (context.perform action).error = some error) :
      Ends standing (some (.static error))

section Steps

variable {context : Context} {steps : List Step} {failure : Option Failure}

/-- What the events show are the steps that are carried out, without the actions. -/
theorem shown_followAfter (context : Context) (steps : List Step) (events : List Event)
    (failure : Option Failure) :
    (followAfter events context failure steps).events.filterMap Event.step? =
      events.reverse.filterMap Event.step? ++ shape (context.carriedOut steps) := by
  induction steps generalizing context events with
  | nil => simp [followAfter, Context.carriedOut]
  | cons step rest ih =>
      cases step with
      | opened rule =>
          have hrest := ih context (.opened rule :: events)
          simpa [followAfter, Context.carriedOut, Event.step?] using hrest
      | closed rule =>
          have hrest := ih context (.closed rule :: events)
          simpa [followAfter, Context.carriedOut, Event.step?] using hrest
      | took token =>
          have hrest := ih context (.leaf token :: events)
          simpa [followAfter, Context.carriedOut, Event.step?] using hrest
      | act action =>
          have hevents := context.filterMap_step?_events action
          rcases heffect : context.perform action with ⟨added, next, error⟩
          rw [heffect] at hevents
          cases error with
          | some error =>
              simp [followAfter, Context.carriedOut, heffect, List.reverseAux_eq, hevents]
          | none =>
              have hrest := ih next (added.reverseAux events)
              simpa [followAfter, Context.carriedOut, heffect, List.reverseAux_eq, hevents]
                using hrest

/-- Either all steps are carried out, or those in front of an action that fails. -/
theorem carriedOut_cases (context : Context) (steps : List Step) (events : List Event)
    (failure : Option Failure) :
    (context.carriedOut steps = steps ∧
        (followAfter events context failure steps).failure = failure) ∨
      ∃ (reached : Context) (action : Action) (error : StaticError),
        context.carriedOut steps ++ [.act action] <+: steps ∧
        (reached.perform action).error = some error ∧
        (followAfter events context failure steps).failure = some (.static error) := by
  induction steps generalizing context events with
  | nil => exact .inl ⟨rfl, rfl⟩
  | cons step rest ih =>
      cases step with
      | opened rule | closed rule | took token =>
          rcases ih context (_ :: events) with ⟨hall, hfailure⟩ | ⟨reached, action, error, h⟩
          · exact .inl ⟨congrArg (_ :: ·) hall, hfailure⟩
          · exact .inr ⟨reached, action, error, List.cons_prefix_cons.mpr ⟨rfl, h.1⟩, h.2⟩
      | act ordered =>
          rcases heffect : context.perform ordered with ⟨added, next, error⟩
          cases error with
          | some error =>
              refine .inr ⟨context, ordered, error, ?_, by rw [heffect], ?_⟩
              · simp [Context.carriedOut, heffect]
              · simp [followAfter, heffect]
          | none =>
              simp only [Context.carriedOut, followAfter, heffect]
              rcases ih next (added.reverseAux events) with
                ⟨hall, hfailure⟩ | ⟨reached, action, error, h⟩
              · exact .inl ⟨congrArg (_ :: ·) hall, hfailure⟩
              · exact .inr ⟨reached, action, error, List.cons_prefix_cons.mpr ⟨rfl, h.1⟩, h.2⟩

end Steps

/-- The steps that the compilation of tokens carries out. -/
def stepsCarriedOut (tokens : List Token) : List Step :=
  Context.initial.carriedOut (readUnit tokens).steps

/-- The steps that are carried out get to where the compilation stops. -/
theorem Standing.reaches_end (tokens : List Token) :
    ∃ last, (Standing.start tokens).Reaches (stepsCarriedOut tokens) last ∧
      last.Ends (Transcript.ofTokens tokens).failure := by
  obtain ⟨last, hlast, hverdict⟩ := Standing.reaches_readUnit tokens
  rcases carriedOut_cases .initial (readUnit tokens).steps [] (readUnit tokens).verdict.failure?
    with ⟨hall, hfailure⟩ | ⟨reached, action, error, hprefix, herror, hfailure⟩
  · refine ⟨last, ?_, ?_⟩
    · rwa [stepsCarriedOut, hall]
    · rw [Transcript.ofTokens, hfailure]
      exact .verdict _ hverdict
  · obtain ⟨behind, hbehind⟩ := hlast.of_prefix hprefix
    obtain ⟨before, next, hbefore, hmove⟩ := hbehind.exists_last
    refine ⟨before, hbefore, ?_⟩
    rw [Transcript.ofTokens, hfailure]
    exact .static hmove herror

theorem Transcript.shown_ofTokens (tokens : List Token) :
    (ofTokens tokens).events.filterMap Event.step? = shape (stepsCarriedOut tokens) :=
  shown_followAfter .initial (readUnit tokens).steps [] _

theorem tokensTaken_shape (steps : List Step) : tokensTaken (shape steps) = tokensTaken steps := by
  induction steps with
  | nil => rfl
  | cons step rest ih => cases step <;> simp [ih]

theorem Event.length_tokensTaken (events : List Event) :
    (tokensTaken (events.filterMap Event.step?)).length = events.countP Event.isLeaf := by
  induction events with
  | nil => rfl
  | cons event rest ih =>
      cases event <;> simp [List.filterMap_cons, List.countP_cons, step?, isLeaf, ih]

theorem Transcript.lookAhead_ofTokens (tokens : List Token) :
    (ofTokens tokens).lookAhead = (tokensTaken (stepsCarriedOut tokens)).length := by
  rw [lookAhead, ← Event.length_tokensTaken, shown_ofTokens, tokensTaken_shape]

namespace Standing

variable {tokens : List Token} {last : Standing}

/-- What has not been taken are the tokens from the look-ahead on. -/
theorem tokens_eq_drop (h : (start tokens).Reaches (stepsCarriedOut tokens) last) :
    last.tokens = tokens.drop (Transcript.ofTokens tokens).lookAhead := by
  have htokens : tokens = tokensTaken (stepsCarriedOut tokens) ++ last.tokens := h.tokens_eq
  calc last.tokens
    _ = (tokensTaken (stepsCarriedOut tokens) ++ last.tokens).drop
          (tokensTaken (stepsCarriedOut tokens)).length := List.drop_left.symm
    _ = tokens.drop (Transcript.ofTokens tokens).lookAhead := by
          rw [← htokens, Transcript.lookAhead_ofTokens]

theorem Ends.tokens_eq_nil (h : last.Ends none) : last.tokens = [] := by
  generalize hfailure : (none : Option Failure) = failure at h
  cases h with
  | verdict verdict hconcerns =>
      cases verdict with
      | accepted => exact hconcerns
      | _ => cases hfailure
  | static hmove herror => cases hfailure

end Standing

/-- What has been taken are the tokens in front of the look-ahead. -/
theorem Transcript.tokensTaken_ofTokens (tokens : List Token) :
    tokensTaken (stepsCarriedOut tokens) = tokens.take (ofTokens tokens).lookAhead := by
  obtain ⟨last, hlast, _⟩ := Standing.reaches_end tokens
  have htokens : tokens = tokensTaken (stepsCarriedOut tokens) ++ last.tokens := hlast.tokens_eq
  calc tokensTaken (stepsCarriedOut tokens)
    _ = (tokensTaken (stepsCarriedOut tokens) ++ last.tokens).take
          (tokensTaken (stepsCarriedOut tokens)).length := List.take_left.symm
    _ = tokens.take (ofTokens tokens).lookAhead := by rw [← htokens, lookAhead_ofTokens]

/-- A compilation that goes through takes all tokens. -/
theorem Transcript.lookAhead_of_failure_eq_none {tokens : List Token}
    (h : (ofTokens tokens).failure = none) : (ofTokens tokens).lookAhead = tokens.length := by
  obtain ⟨last, hlast, hends⟩ := Standing.reaches_end tokens
  rw [h] at hends
  have htokens : tokens = tokensTaken (stepsCarriedOut tokens) ++ last.tokens := hlast.tokens_eq
  rw [hends.tokens_eq_nil, List.append_nil] at htokens
  rw [lookAhead_ofTokens, ← htokens]

end JackLang
