import JackLang.Proofs.Compilation.Pass
import JackLang.Proofs.PartialPrograms
import JackLang.Proofs.Reading.Steady

/-! # Turn by turn

What holds of a pass between two turns and how far it is from its end. Every turn keeps the
one and gets nearer to the other, so a pass comes to an end, and there it has written what
the whole reading comes to.
-/

set_option autoImplicit false

namespace JackLang

namespace TokenStream

variable {source : String} {front rest : List Token} {look : Token}

theorem kind_ne_of_mem_pending (h : look ∈ (TokenStream.ofSource source).pending) :
    look.kind ≠ .endOfFile := by
  obtain ⟨_, _, _, _, _, hword⟩ := ((laidOut_iff source _).mpr rfl).exists_word look h
  exact hword.kind_ne

/-- The end of the file is the last token. -/
theorem eq_endOfFile_iff (h : front ++ look :: rest = (TokenStream.ofSource source).toList) :
    look.kind = .endOfFile ↔ rest = [] := by
  rw [toList] at h
  constructor
  · intro hkind
    by_contra hrest
    have hpending : front ++ look :: rest.dropLast = (TokenStream.ofSource source).pending := by
      have hdropped := congrArg List.dropLast h
      rwa [List.dropLast_append_of_ne_nil (List.cons_ne_nil look rest),
        List.dropLast_cons_of_ne_nil hrest, List.dropLast_concat] at hdropped
    have hmem : look ∈ (TokenStream.ofSource source).pending := by
      rw [← hpending]
      exact List.mem_append_right front (.head _)
    exact kind_ne_of_mem_pending hmem hkind
  · rintro rfl
    obtain ⟨-, hlast⟩ := List.append_inj' h rfl
    rw [(List.cons.inj hlast).1]
    rfl

end TokenStream

/-- The pass that a turn leaves. -/
def Turn.pass {σ : Type} : Turn σ → Pass σ
  | .goesOn pass => pass
  | .ended pass _ => pass

namespace Pass

/-- What holds of a pass between two turns, with the greatest rank that has come up in front
of the look-ahead and the tokens that are left. -/
structure Steady (source : String) (rank : Nat) (rest : List Token) (pass : Pass Scanner) :
    Prop where
  follows : pass.Follows source rest
  standing : (pass.standing rest).Steady rank
  counted : pass.context.Counted (pass.standing rest).reading.steps

/-- What a pass is going to write, with the error that stops it if one does. -/
def future (pass : Pass Scanner) (rest : List Token) : Writers × Option CompileError :=
  pass.writers.follow pass.context (pass.standing rest).reading

/-- The look-ahead or no token is taken, and the end of the file only if nothing else is
asked for. -/
def Takes (pass next : Pass Scanner) : Prop :=
  (next.taken = pass.taken ∧ next.scanner = pass.scanner) ∨
    (next.taken = pass.taken ++ [pass.scanner.lookAhead] ∧
      next.scanner = pass.scanner.advance.2 ∧
      (pass.scanner.lookAhead.kind = .endOfFile → pass.goals = [.token .endOfFile .endOfFile]))

/-- A pass ends as the whole reading does. -/
structure Ends (source : String) (pass : Pass Scanner) (rest : List Token) (last : Pass Scanner)
    (error : Option CompileError) : Prop where
  future_eq : pass.future rest = (last.writers, error)
  complete : error = none → last.goals = [] ∧ last.taken = (TokenStream.ofSource source).toList

variable {source : String} {rank : Nat} {rest : List Token} {pass next : Pass Scanner}
variable {step : Option Step} {second : Standing}

theorem Ends.of_error {last : Pass Scanner} {error : CompileError}
    (h : pass.future rest = (last.writers, some error)) :
    pass.Ends source rest last (some error) :=
  ⟨h, fun hnone => absurd hnone (Option.some_ne_none error)⟩

theorem steady_start (source : String) (program : Sink) (tree : Option Sink) :
    (Pass.start (Scanner.ofSource source) program tree).Steady source 0
      (TokenStream.ofSource source).toList := by
  constructor
  case follows => exact ⟨rfl, rfl⟩
  case standing =>
    constructor
    case finished =>
      intro hnone
      cases List.append_ne_nil_of_right_ne_nil _ (List.cons_ne_nil _ _) hnone
    case endsOnce => exact fun _ => Goal.endsOnce_unit
    case sighted => exact fun look _ => Goal.sighted_unit look
    case ranked => exact Goal.ranked_unit
    case small => exact Nat.zero_le 23
  case counted =>
    obtain ⟨unit, hunit⟩ := exists_opens source
    exact hunit.counted

theorem counted_behind {context : Context} {steps : List Step}
    (h : context.Counted (step.toList ++ steps)) (herror : (effectOf context step).error = none) :
    (effectOf context step).context.Counted steps := by
  rcases step with _ | _ | _ | _ | action
  · exact h
  · exact h
  · exact h
  · exact h
  · obtain ⟨-, -, hnext⟩ := h
    rw [effectOf] at herror ⊢
    rcases heffect : context.perform action with ⟨events, next, error⟩
    rw [heffect] at hnext herror
    cases herror
    exact hnext

theorem takes_behind (h : pass.Steady source rank rest)
    (hmoves : (pass.standing rest).Moves step second) :
    pass.Takes (pass.behind step second) := by
  obtain ⟨hfollows, hstanding, -⟩ := h
  generalize hfirst : pass.standing rest = first at hmoves hstanding
  cases hmoves with
  | @take look goal found goals number others hvalid hmeets =>
      obtain ⟨hgoals, -, rfl⟩ := Standing.mk.inj hfirst
      have hlook := hfollows.lookAhead_eq
      refine .inr ⟨congrArg (fun token => pass.taken ++ [token]) hlook.symm, rfl, ?_⟩
      rw [hlook, hgoals]
      intro hend
      obtain ⟨rfl, -, rfl⟩ := hmeets.eq_last (hstanding.sighted look rfl)
        (hstanding.endsOnce (List.cons_ne_nil look others)) hend
      rfl
  | opening rule hvalid | closing rule hvalid | act action hvalid | phrase hvalid hexpand =>
      exact .inl ⟨List.append_nil _, rfl⟩

/-- What a turn comes to, by the tokens that are left. -/
inductive Turned (source : String) (rank : Nat) (rest : List Token) (pass : Pass Scanner) :
    Turn Scanner → Prop
  | goesOn {next : Pass Scanner} {rank' : Nat} {rest' : List Token}
      (steady : next.Steady source rank' rest')
      (nearer : (next.standing rest').left rank' < (pass.standing rest).left rank)
      (advances : (pass.standing rest).Advances rank rank' (next.standing rest'))
      (takes : pass.Takes next) (future_eq : next.future rest' = pass.future rest) :
      Turned source rank rest pass (.goesOn next)
  | ended {last : Pass Scanner} {error : Option CompileError} {rest' : List Token}
      (follows : last.Follows source rest') (takes : pass.Takes last)
      (ends : pass.Ends source rest last error) : Turned source rank rest pass (.ended last error)

/-- A step that is carried out is written in front of what is still to come. -/
theorem turned_carried (h : pass.Steady source rank rest)
    (hmoves : (pass.standing rest).Moves step second) :
    pass.Turned source rank rest (pass.carried step second) := by
  obtain ⟨htokens, hscanner⟩ := h.follows.behind hmoves
  have htakes := takes_behind h hmoves
  have hreading := hmoves.reading_eq
  have hfuture := pass.writers.follow_behind pass.context step second.reading
  rw [← hreading] at hfuture
  rw [carried, write]
  change pass.future rest = _ at hfuture
  rcases hrecord : (pass.behind step second).writers.recordAll (effectOf pass.context step).events
    with ⟨written, _ | kind⟩
  · change pass.writers.recordAll _ = _ at hrecord
    rw [hrecord] at hfuture
    cases herror : (effectOf pass.context step).error with
    | some error =>
        rw [herror] at hfuture
        exact .ended ⟨htokens, hscanner⟩ htakes (.of_error hfuture)
    | none =>
        rw [herror] at hfuture
        have hcounted := h.counted
        rw [hreading] at hcounted
        obtain ⟨rank', hsteady, hnearer, hadvances⟩ := hmoves.steady h.standing
          fun look others hrest => TokenStream.eq_endOfFile_iff
            ((congrArg (pass.taken ++ ·) hrest).symm.trans h.follows.tokens)
        exact .goesOn ⟨⟨htokens, hscanner⟩, hsteady, counted_behind hcounted herror⟩ hnearer
          hadvances htakes hfuture.symm
  · change pass.writers.recordAll _ = _ at hrecord
    rw [hrecord] at hfuture
    exact .ended ⟨htokens, hscanner⟩ htakes (.of_error hfuture)

/-- Every turn is carried out, and it keeps what holds between turns. -/
theorem Steady.turned (h : pass.Steady source rank rest) :
    ∃ turn, pass.turn = .ok turn ∧ pass.Turned source rank rest turn := by
  have htakes : pass.Takes pass := .inl ⟨rfl, rfl⟩
  rcases turn_cases h.follows h.standing.goals_eq_nil_iff h.counted with
    ⟨hgoals, rfl, hturn⟩ | ⟨verdict, failure, hturn, hreading, hfailure⟩ |
      ⟨step, second, hmoves, hturn⟩
  · refine ⟨_, hturn, .ended h.follows htakes ⟨?_, fun _ => ⟨hgoals, ?_⟩⟩⟩
    · exact pass.writers.follow_nil pass.context .accepted
    · have htokens := h.follows.tokens
      rwa [List.append_nil] at htokens
  · refine ⟨_, hturn, .ended h.follows htakes (.of_error ?_)⟩
    rw [future, hreading, Writers.follow_nil, hfailure]
    rfl
  · exact ⟨_, hturn, turned_carried h hmoves⟩

/-- A pass comes to an end within the turns that are left. -/
theorem Steady.ends (h : pass.Steady source rank rest) :
    ∃ turns last error, turns ≤ (pass.standing rest).left rank ∧
      pass.run turns = .ok (.ended last error) ∧ pass.Ends source rest last error := by
  generalize hleft : (pass.standing rest).left rank = left
  induction left using Nat.strong_induction_on generalizing pass rank rest with
  | _ left ih =>
      obtain ⟨turn, hturn, hturned⟩ := h.turned
      cases hturned with
      | @ended last error _ _ _ hends =>
          refine ⟨1, last, error, ?_, ?_, hends⟩
          · rw [← hleft]
            exact h.standing.left_pos
          · rw [run, hturn]
            rfl
      | @goesOn next rank' rest' hsteady hnearer _ _ hfuture =>
          rw [hleft] at hnearer
          obtain ⟨turns, last, error, hturns, hrun, hends⟩ := ih _ hnearer hsteady rfl
          refine ⟨turns + 1, last, error, by omega, ?_, ?_⟩
          · rw [run, hturn]
            exact hrun
          · exact ⟨hfuture.symm.trans hends.future_eq, hends.complete⟩

/-- What any number of turns comes to. As long as no token is taken ranks only increase. -/
inductive Ran (source : String) (rank : Nat) (rest : List Token) (pass : Pass Scanner) :
    Turn Scanner → Prop
  | goesOn {next : Pass Scanner} {rank' : Nat} {rest' : List Token}
      (steady : next.Steady source rank' rest') (grows : pass.taken <+: next.taken)
      (ranks : next.taken = pass.taken → rank ≤ rank') : Ran source rank rest pass (.goesOn next)
  | ended {last : Pass Scanner} {error : Option CompileError} {rest' : List Token}
      (follows : last.Follows source rest') : Ran source rank rest pass (.ended last error)

theorem Ran.follows {turn : Turn Scanner} (h : pass.Ran source rank rest turn) :
    ∃ rest', turn.pass.Follows source rest' := by
  cases h with
  | goesOn hsteady => exact ⟨_, hsteady.follows⟩
  | ended hfollows => exact ⟨_, hfollows⟩

theorem Takes.grows (h : pass.Takes next) : pass.taken <+: next.taken := by
  rcases h with ⟨hsame, -⟩ | ⟨hmore, -⟩
  · rw [hsame]
  · rw [hmore]
    exact List.prefix_append _ _

theorem Follows.rest_eq {rest' : List Token} (h : pass.Follows source rest)
    (hnext : next.Follows source rest') (hsame : next.taken = pass.taken) : rest = rest' := by
  have htokens := h.tokens.trans hnext.tokens.symm
  rw [hsame] at htokens
  exact List.append_cancel_left htokens

/-- Any number of turns is carried out, and what has been taken is not given back. -/
theorem Steady.ran (h : pass.Steady source rank rest) (turns : Nat) :
    ∃ turn, pass.run turns = .ok turn ∧ pass.Ran source rank rest turn := by
  induction turns generalizing pass rank rest with
  | zero =>
      exact ⟨_, rfl, .goesOn h (List.prefix_refl _) fun _ => Nat.le_refl rank⟩
  | succ turns ih =>
      obtain ⟨turn, hturn, hturned⟩ := h.turned
      rw [run, hturn]
      cases hturned with
      | ended hfollows => exact ⟨_, rfl, .ended hfollows⟩
      | @goesOn next rank' rest' hsteady _ hadvances htakes _ =>
          obtain ⟨later, hrun, hran⟩ := ih hsteady
          refine ⟨later, hrun, ?_⟩
          cases hran with
          | ended hfollows => exact .ended hfollows
          | @goesOn last rank'' rest'' hlast hgrows hranks =>
              refine .goesOn hlast (htakes.grows.trans hgrows) fun hsame => ?_
              -- nothing can have been taken in between
              have hbetween : next.taken = pass.taken :=
                (htakes.grows.eq_of_length_le (hsame ▸ hgrows.length_le)).symm
              have hrest := h.follows.rest_eq hsteady.follows hbetween
              exact Nat.le_trans (hadvances.ranks hrest).1 (hranks (hsame.trans hbetween.symm))

end Pass

end JackLang
