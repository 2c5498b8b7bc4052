import JackLang.Proofs.Compilation.Turns

/-! # One pass over the tokens

Compiling takes the tokens of a source one after the other. It comes to an end for every
source, as whatever is repeated takes a token each time, and the end of the file is taken
only when everything else has been.
-/

set_option autoImplicit false

namespace JackLang

namespace Pass

variable {source : String} {rank : Nat} {rest : List Token} {pass later : Pass Scanner}

/-- Between two phrases either a token is taken, or the second one has the greater rank. -/
theorem Steady.rank_lt (h : pass.Steady source rank rest) {first second : Phrase}
    {goals others : List Goal} {turns : Nat} (hfirst : pass.goals = .phrase first :: goals)
    (hrun : pass.run (turns + 1) = .ok (.goesOn later))
    (hsecond : later.goals = .phrase second :: others) (hsame : later.taken = pass.taken) :
    first.rank < second.rank := by
  obtain ⟨turn, hturn, hturned⟩ := h.turned
  rw [run, hturn] at hrun
  cases hturned with
  | ended => cases hrun
  | @goesOn next rank' rest' hsteady _ hadvances htakes _ =>
      change next.run turns = _ at hrun
      obtain ⟨last, hlast, hran⟩ := hsteady.ran turns
      rw [hrun] at hlast
      cases hlast
      cases hran with
      | @goesOn _ rank'' rest'' hlater hgrows hranks =>
          have hbetween : next.taken = pass.taken :=
            (htakes.grows.eq_of_length_le (hsame ▸ hgrows.length_le)).symm
          have hrank := (hadvances.ranks (h.follows.rest_eq hsteady.follows hbetween)).2 _ _ hfirst
          have hranked : Goal.Ranked rank'' later.goals := hlater.standing.ranked
          rw [hsecond] at hranked
          calc
            first.rank = rank' := hrank.symm
            _ ≤ rank'' := hranks (hsame.trans hbetween.symm)
            _ < second.rank := hranked.1

/-- What the pass over a source is going to write is what its transcript shows. -/
theorem future_start (source : String) (program : Sink) (tree : Option Sink) :
    (Pass.start (Scanner.ofSource source) program tree).future
        (TokenStream.ofSource source).toList =
      (((Writers.toSinks program tree).recordAll (Transcript.ofSource source).events).1,
        (((Writers.toSinks program tree).recordAll
          (Transcript.ofSource source).events).2.map .unwritable).or
            ((Transcript.ofSource source).failure.map .failure)) := by
  rfl

/-- The end of a pass, as it is reported. -/
theorem report_of_ends {program : Sink} {tree : Option Sink} {last : Pass Scanner}
    {error : Option CompileError}
    (h : (Pass.start (Scanner.ofSource source) program tree).Ends source
      (TokenStream.ofSource source).toList last error) :
    (compile source program tree).writers = last.writers.close.1 ∧
      (compile source program tree).error = error.or (last.writers.close.2.map .unwritable) := by
  have hfuture := (future_start source program tree).symm.trans h.future_eq
  obtain ⟨hwriters, herror⟩ := Prod.mk.inj hfuture
  rw [compile, Transcript.report, ← hwriters, ← herror]
  exact ⟨rfl, rfl⟩

end Pass

/-- How a compilation goes through the tokens of its source. -/
structure OnePass (source : String) (program : Sink) (tree : Option Sink) : Prop where
  /-- It ends, within a number of turns for each token, with what is reported. If it goes
  through, the tokens are all taken. -/
  ends : ∃ turns last error,
    turns ≤ Standing.movesForToken * ((TokenStream.ofSource source).toList.length + 1) ∧
    (Pass.start (Scanner.ofSource source) program tree).run turns = .ok (.ended last error) ∧
    (compile source program tree).writers = last.writers.close.1 ∧
    (compile source program tree).error = error.or (last.writers.close.2.map .unwritable) ∧
    (error = none → last.goals = [] ∧ last.taken = (TokenStream.ofSource source).toList)
  /-- What is taken is what the scanner hands out first. -/
  initial : ∀ turns turn,
    (Pass.start (Scanner.ofSource source) program tree).run turns = .ok turn →
    turn.pass.taken <+: (TokenStream.ofSource source).toList ∧
    turn.pass.scanner = (Scanner.ofSource source).advanced turn.pass.taken.length
  /-- A turn takes the look-ahead or nothing. The end of the file is taken only by the goal
  that asks for it, when no other goal is left. -/
  single : ∀ turns pass,
    (Pass.start (Scanner.ofSource source) program tree).run turns = .ok (.goesOn pass) →
    ∃ turn, pass.turn = .ok turn ∧ pass.Takes turn.pass
  /-- Where no token is taken, phrases come one after the other by their ranks. So no round of
  a list and no recursion comes back to a phrase without a token. -/
  rounds : ∀ turns more pass later first second goals others,
    (Pass.start (Scanner.ofSource source) program tree).run turns = .ok (.goesOn pass) →
    pass.goals = .phrase first :: goals →
    pass.run (more + 1) = .ok (.goesOn later) →
    later.goals = .phrase second :: others →
    later.taken = pass.taken → first.rank < second.rank

/-- Every compilation is one pass over the tokens of its source, and ends. -/
theorem compiles_in_one_pass (source : String) (program : Sink) (tree : Option Sink) :
    OnePass source program tree := by
  have hstart := Pass.steady_start source program tree
  constructor
  case ends =>
    obtain ⟨turns, last, error, hturns, hrun, hends⟩ := hstart.ends
    obtain ⟨hwriters, herror⟩ := Pass.report_of_ends hends
    refine ⟨turns, last, error, Nat.le_trans hturns ?_, hrun, hwriters, herror, hends.complete⟩
    have hunit : Goal.unit.length ≤ Goal.greatest := by decide
    have hgreatest : Goal.greatest = 16 := rfl
    have hforToken : Standing.movesForToken = 416 := rfl
    calc
      (Pass.standing _ (TokenStream.ofSource source).toList).left 0
        = Goal.unit.length + Goal.greatest * 24 +
          Standing.movesForToken * (TokenStream.ofSource source).toList.length := rfl
      _ ≤ Standing.movesForToken * ((TokenStream.ofSource source).toList.length + 1) := by
        rw [hgreatest] at hunit ⊢
        rw [hforToken]
        omega
  case initial =>
    intro turns turn hrun
    obtain ⟨found, hfound, hran⟩ := hstart.ran turns
    rw [hrun] at hfound
    cases hfound
    obtain ⟨rest, htokens, hscanner⟩ := hran.follows
    exact ⟨⟨rest, htokens⟩, hscanner⟩
  case single =>
    intro turns pass hrun
    obtain ⟨found, hfound, hran⟩ := hstart.ran turns
    rw [hrun] at hfound
    cases hfound
    cases hran with
    | goesOn hsteady =>
        obtain ⟨turn, hturn, hturned⟩ := hsteady.turned
        refine ⟨turn, hturn, ?_⟩
        cases hturned with
        | goesOn _ _ _ htakes => exact htakes
        | ended _ htakes => exact htakes
  case rounds =>
    intro turns more pass later first second goals others hrun hfirst hmore hsecond hsame
    obtain ⟨found, hfound, hran⟩ := hstart.ran turns
    rw [hrun] at hfound
    cases hfound
    cases hran with
    | goesOn hsteady => exact hsteady.rank_lt hfirst hmore hsecond hsame

end JackLang
