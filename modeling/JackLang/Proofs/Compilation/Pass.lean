import JackLang.Compilation.Pass
import JackLang.Proofs.Compilation.Counters
import JackLang.Proofs.Compilation.Shown
import JackLang.Proofs.LineOffsets
import JackLang.Proofs.Reading.Completion
import JackLang.Proofs.Reading.EndOfFile
import JackLang.Proofs.Reading.Ranks

/-! # One pass

What is still to come of a compilation is told by the goals that are left and the tokens that
are not taken. No turn changes it, so the end of a pass is that of the whole compilation.
-/

set_option autoImplicit false

namespace JackLang

section Reading

/-- What is read behind steps that are already made. -/
def Reading.behind (made : List Step) (reading : Reading) : Reading :=
  ⟨made ++ reading.steps, reading.verdict⟩

theorem readAfter_behind (steps : List Step) (number : Nat) (goals : List Goal)
    (tokens : List Token) :
    readAfter steps number goals tokens =
      (readAfter [] number goals tokens).behind steps.reverse := by
  induction tokens generalizing steps number goals with
  | nil => simp [readAfter, Reading.behind]
  | cons look rest ih =>
      cases hkind : look.kind with
      | invalid error => simp [readAfter, hkind, Reading.behind]
      | _ =>
          have hvalid : Ready (look :: rest) := by
            rw [ready_cons, hkind]
            rfl
          have hsettle := settle_behind look number [] steps goals
          rw [List.nil_append] at hsettle
          rw [readAfter_cons _ _ hvalid, readAfter_cons _ _ hvalid, hsettle]
          cases settle look number [] goals with
          | refused expected made => simp [Settlement.behind, Reading.behind]
          | taken goals number made =>
              simp only [Settlement.behind]
              rw [ih (made ++ steps), ih made]
              simp [Reading.behind]

/-- What is read from a standing on. -/
def Standing.reading (standing : Standing) : Reading :=
  readAfter [] standing.number standing.goals standing.tokens

/-- A token that a goal asks for settles the goals. -/
theorem Token.Meets.settle_eq {look : Token} {goal : Goal} {found : List Goal}
    (h : look.Meets goal found) (number : Nat) (steps : List Step) (goals : List Goal) :
    settle look number steps (goal :: goals) =
      .taken (found ++ goals) number (.took look :: steps) := by
  cases h with
  | token expected hkind => rw [settle_token, if_pos hkind, List.nil_append]
  | shift => rw [settle_shift, List.nil_append]
  | name role hkind => rw [settle_name, if_pos hkind]
  | type role hkind => rw [settle_type, if_pos hkind]

/-- A move makes its step in front of what is read behind it. -/
theorem Standing.Moves.reading_eq {first second : Standing} {step : Option Step}
    (h : first.Moves step second) : first.reading = second.reading.behind step.toList := by
  rw [reading, reading]
  cases h with
  | @take look goal found goals number rest hvalid hmeets =>
      rw [readAfter_cons _ _ hvalid, hmeets.settle_eq]
      exact readAfter_behind [.took look] _ _ _
  | @opening look goals number rest rule hvalid =>
      have hready : Ready (look :: rest) := hvalid
      rw [readAfter_opening rule hready]
      exact readAfter_behind [.opened rule] _ _ _
  | @closing look goals number rest rule hvalid =>
      have hready : Ready (look :: rest) := hvalid
      rw [readAfter_closing rule hready]
      exact readAfter_behind [.closed rule] _ _ _
  | @act look goals number rest action hvalid =>
      have hready : Ready (look :: rest) := hvalid
      rw [readAfter_act action hready]
      exact readAfter_behind [.act action] _ _ _
  | phrase hvalid hexpand =>
      rw [readAfter_phrase _ _ _ hvalid, hexpand]
      rfl

/-- The move of a goal is one of the reading. -/
theorem Goal.moves_of_move {look : Token} {goal : Goal} {number : Nat} {move : Move}
    (hvalid : look.kind.isInvalid = false) (h : goal.move look number = .ok move)
    (goals : List Goal) (rest : List Token) :
    Standing.Moves ⟨goal :: goals, number, look :: rest⟩ move.step
      ⟨move.goals ++ goals, move.number,
        (look :: rest).drop (tokensTaken move.step.toList).length⟩ := by
  cases goal with
  | token kind expected =>
      simp only [Goal.move] at h
      split at h
      · rename_i hkind
        cases h
        exact .take hvalid (.token expected hkind)
      · cases h
  | shift =>
      cases h
      exact .take hvalid .shift
  | name role =>
      simp only [Goal.move] at h
      split at h
      · rename_i hkind
        cases h
        exact .take hvalid (.name role hkind)
      · cases h
  | type role =>
      simp only [Goal.move] at h
      split at h
      · rename_i hkind
        cases h
        exact .take hvalid (.type role hkind)
      · cases h
  | opening rule =>
      cases h
      exact .opening rule hvalid
  | closing rule =>
      cases h
      exact .closing rule hvalid
  | act action =>
      cases h
      exact .act action hvalid
  | phrase replaced =>
      simp only [Goal.move] at h
      split at h
      · rename_i found hexpand
        cases h
        exact .phrase hvalid hexpand
      · cases h

/-- A goal that does not move refuses the look-ahead. -/
theorem Goal.reading_of_move {look : Token} {goal : Goal} {number : Nat}
    {expected : Expectation} (hvalid : look.kind.isInvalid = false)
    (h : goal.move look number = .error expected) (goals : List Goal) (rest : List Token) :
    Standing.reading ⟨goal :: goals, number, look :: rest⟩ =
      ⟨[], .unexpected expected look⟩ := by
  have hready : Ready (look :: rest) := hvalid
  rw [Standing.reading, readAfter_cons _ _ hready]
  cases goal with
  | token kind other | name role | type role =>
      simp only [Goal.move] at h
      split at h
      · cases h
      · rename_i hkind
        cases h
        simp [hkind]
  | shift | opening rule | closing rule | act action => cases h
  | phrase replaced =>
      simp only [Goal.move] at h
      split at h
      · cases h
      · rename_i found hexpand
        cases h
        rw [settle_phrase_error _ _ _ _ hexpand]
        rfl

end Reading

section Following

/-- What a step comes to in a context, if a step is made. -/
def effectOf (context : Context) : Option Step → Effect
  | none => ⟨[], context, none⟩
  | some (.opened rule) => ⟨[.opened rule], context, none⟩
  | some (.closed rule) => ⟨[.closed rule], context, none⟩
  | some (.took token) => ⟨[.leaf token], context, none⟩
  | some (.act action) => context.perform action

theorem failure_followAfter (steps : List Step) (events : List Event) (context : Context)
    (failure : Option Failure) :
    (followAfter events context failure steps).failure =
      (followAfter [] context failure steps).failure := by
  induction steps generalizing events context with
  | nil => rfl
  | cons step rest ih =>
      cases step with
      | opened rule => exact (ih _ _).trans (ih [.opened rule] _).symm
      | closed rule => exact (ih _ _).trans (ih [.closed rule] _).symm
      | took token => exact (ih _ _).trans (ih [.leaf token] _).symm
      | act action =>
          rcases heffect : context.perform action with ⟨added, next, error⟩
          cases error with
          | some error => simp [followAfter, heffect]
          | none =>
              simp only [followAfter, heffect]
              exact (ih _ _).trans (ih _ _).symm

/-- What writers make of a reading: it is carried out and written up to the first output
that fails. -/
def Writers.follow (writers : Writers) (context : Context) (reading : Reading) :
    Writers × Option CompileError :=
  let transcript := followAfter [] context reading.verdict.failure? reading.steps
  let (written, refused) := writers.recordAll transcript.events
  (written, (refused.map .unwritable).or (transcript.failure.map .failure))

theorem Writers.follow_nil (writers : Writers) (context : Context) (verdict : Verdict) :
    writers.follow context ⟨[], verdict⟩ = (writers, verdict.failure?.map .failure) := by
  rfl

theorem Writers.recordAll_append (writers : Writers) (first second : List Event) :
    writers.recordAll (first ++ second) =
      match writers.recordAll first with
      | (written, none) => written.recordAll second
      | (written, some kind) => (written, some kind) := by
  induction first generalizing writers with
  | nil => rfl
  | cons event rest ih =>
      rcases hrecord : writers.record event with ⟨next, _ | kind⟩ <;>
        simp only [List.cons_append, recordAll, hrecord, ih]

/-- A step is carried out and written in front of what follows it. -/
theorem Writers.follow_behind (writers : Writers) (context : Context) (step : Option Step)
    (reading : Reading) :
    writers.follow context (reading.behind step.toList) =
      match writers.recordAll (effectOf context step).events with
      | (written, some kind) => (written, some (.unwritable kind))
      | (written, none) =>
          match (effectOf context step).error with
          | some error => (written, some (.failure (.static error)))
          | none => written.follow (effectOf context step).context reading := by
  obtain ⟨steps, verdict⟩ := reading
  have hfollow : followAfter [] context verdict.failure? (step.toList ++ steps) =
      match (effectOf context step).error with
      | some error => ⟨(effectOf context step).events, (effectOf context step).context,
          some (.static error)⟩
      | none => followAfter (effectOf context step).events.reverse
          (effectOf context step).context verdict.failure? steps := by
    rcases step with _ | _ | _ | _ | action
    · rfl
    · rfl
    · rfl
    · rfl
    · rcases heffect : context.perform action with ⟨added, next, _ | error⟩ <;>
        simp [followAfter, effectOf, heffect, List.reverseAux_eq]
  rw [follow, Reading.behind]
  dsimp only
  rw [hfollow]
  cases (effectOf context step).error with
  | some error =>
      dsimp only
      rcases writers.recordAll (effectOf context step).events with ⟨written, _ | kind⟩ <;> rfl
  | none =>
      dsimp only
      rw [events_followAfter, List.reverse_reverse, failure_followAfter, recordAll_append]
      rcases writers.recordAll (effectOf context step).events with ⟨written, _ | kind⟩ <;> rfl

end Following

section Counting

variable {context : Context} {action : Action} {steps : List Step}

theorem Context.Counted.small_context (h : context.Counted (.act action :: steps)) :
    (context.perform action).context.scope.Small := by
  obtain ⟨hsmall, -, hnext⟩ := h
  rcases heffect : context.perform action with ⟨events, next, error⟩
  rw [heffect] at hnext
  cases error with
  | none => exact hnext.start
  | some error =>
      cases hcounts : Step.counts (.act action) with
      | false =>
          have hperform := Context.small_perform hsmall hcounts
          rwa [heffect] at hperform
      | true =>
          -- of the actions that count only an argument can fail, and it changes nothing then
          cases action with
          | nameSubroutine kind name => cases heffect
          | argument callee count first =>
              simp only [Context.perform] at heffect
              split at heffect
              · cases heffect
              · cases heffect
                exact hsmall
          | _ => cases hcounts

/-- Words hold what is counted. -/
theorem Context.Counted.performInWords_eq (h : context.Counted (.act action :: steps)) :
    context.performInWords action = .ok (context.perform action) := by
  have hsmall := h.small_context
  have hwords : maxConstant + 1 < wordLimit := by decide
  have hfits : ∀ kind, (context.perform action).context.scope.count kind < wordLimit :=
    fun kind => Nat.lt_of_le_of_lt (hsmall kind) (by omega)
  have hbehind : context.countBehind action < wordLimit := by
    have hcounts := h.2.1
    cases action with
    | argument callee count first =>
        have hcount : context.receiverCount callee + count ≤ maxConstant := hcounts
        rw [Context.countBehind]
        omega
    | _ => exact Nat.zero_lt_of_lt hwords
  exact if_pos ⟨hfits .static, hfits .field, hfits .argument, hfits .local, .inr hbehind⟩

end Counting

namespace Scanner

theorem advanced_add (scanner : Scanner) (first second : Nat) :
    scanner.advanced (first + second) = (scanner.advanced first).advanced second := by
  induction first generalizing scanner with
  | zero => rw [Nat.zero_add]; rfl
  | succ first ih =>
      rw [Nat.succ_add]
      exact ih scanner.advance.2

end Scanner

theorem TokenKind.eq_invalid_of_isInvalid {kind : TokenKind} (h : kind.isInvalid = true) :
    ∃ error, kind = .invalid error := by
  cases kind with
  | invalid error => exact ⟨error, rfl⟩
  | _ => cases h

namespace Pass

variable {source : String} {rest : List Token} {pass : Pass Scanner}

def standing {σ : Type} (pass : Pass σ) (rest : List Token) : Standing :=
  ⟨pass.goals, pass.number, rest⟩

/-- The tokens taken are the first ones of the source, and the scanner is behind them. -/
structure Follows (source : String) (rest : List Token) (pass : Pass Scanner) : Prop where
  tokens : pass.taken ++ rest = (TokenStream.ofSource source).toList
  scanner : pass.scanner = (Scanner.ofSource source).advanced pass.taken.length

theorem Follows.lookAhead_eq {look : Token} (h : pass.Follows source (look :: rest)) :
    pass.scanner.lookAhead = look := by
  rw [h.scanner, (Scanner.advanced_ofSource source _).1]
  apply TokenStream.token_of_getElem?
  rw [← h.tokens, List.getElem?_append_right (Nat.le_refl _), Nat.sub_self]
  rfl

/-- The pass behind a step, before anything of it is written. -/
def behind (pass : Pass Scanner) (step : Option Step) (second : Standing) : Pass Scanner :=
  let taken := tokensTaken step.toList
  { scanner := pass.scanner.advanced taken.length
    taken := pass.taken ++ taken
    goals := second.goals
    number := second.number
    context := (effectOf pass.context step).context
    writers := pass.writers }

/-- What a step comes to when it is written. -/
def carried (pass : Pass Scanner) (step : Option Step) (second : Standing) : Turn Scanner :=
  (pass.behind step second).write (effectOf pass.context step).events
    ((effectOf pass.context step).error.map .static)

theorem Follows.behind {step : Option Step} {second : Standing}
    (h : pass.Follows source rest) (hmoves : (pass.standing rest).Moves step second) :
    (pass.behind step second).Follows source second.tokens := by
  have hrest : rest = tokensTaken step.toList ++ second.tokens := by
    have htokens := (Standing.Reaches.move hmoves (.stay second)).tokens_eq
    rwa [List.append_nil] at htokens
  constructor
  case tokens => rw [Pass.behind, List.append_assoc, ← hrest, h.tokens]
  case scanner =>
    rw [Pass.behind, List.length_append, Scanner.advanced_add, ← h.scanner]

/-- A step is carried out with what the scanner hands out. -/
theorem carryOut_eq {step : Option Step} {steps : List Step} (second : Standing)
    (htoken : ∀ token, step = some (.took token) → pass.scanner.lookAhead = token)
    (hcounted : pass.context.Counted (step.toList ++ steps)) :
    { pass with goals := second.goals, number := second.number }.carryOut step =
      .ok (pass.carried step second) := by
  rcases step with _ | _ | _ | token | action
  · simp [carryOut, carried, write, behind, effectOf, Writers.recordAll, Scanner.advanced]
  · simp [carryOut, carried, behind, effectOf, Scanner.advanced]
  · simp [carryOut, carried, behind, effectOf, Scanner.advanced]
  · have hlook := htoken token rfl
    simp only [carryOut, carried, behind, effectOf, Option.toList_some, tokensTaken_took,
      tokensTaken_nil, List.length_singleton]
    rw [← hlook]
    rfl
  · have hperform := Context.Counted.performInWords_eq hcounted
    simp only [carryOut, hperform, carried, behind, effectOf, Option.toList_some,
      tokensTaken_act, tokensTaken_nil, List.length_nil, List.append_nil]
    rfl

section Turns

variable {σ : Type} [TokenSource σ] {pass : Pass σ} {goal : Goal} {goals : List Goal}

theorem turn_of_invalid {error : LexicalError} (hgoals : pass.goals = goal :: goals)
    (hinvalid : (TokenSource.lookAhead pass.scanner).kind = .invalid error) :
    pass.turn = .ok (.ended pass
      (some (.failure (.lexical error (TokenSource.lookAhead pass.scanner))))) := by
  rw [turn, hgoals]
  dsimp only
  rw [hinvalid]

theorem turn_of_valid (hgoals : pass.goals = goal :: goals)
    (hvalid : (TokenSource.lookAhead pass.scanner).kind.isInvalid = false) :
    pass.turn =
      match goal.move (TokenSource.lookAhead pass.scanner) pass.number with
      | .error expected => .ok (.ended pass
          (some (.failure (.unexpected expected (TokenSource.lookAhead pass.scanner)))))
      | .ok move =>
          { pass with goals := move.goals ++ goals, number := move.number }.carryOut move.step := by
  rw [turn, hgoals]
  dsimp only
  split
  · rename_i error hkind
    rw [hkind] at hvalid
    cases hvalid
  · rfl

end Turns

/-- A turn ends the pass where the reading ends, or it makes a move of the reading. -/
theorem turn_cases (h : pass.Follows source rest) (hends : pass.goals = [] ↔ rest = [])
    (hcounted : pass.context.Counted (pass.standing rest).reading.steps) :
    (pass.goals = [] ∧ rest = [] ∧ pass.turn = .ok (.ended pass none)) ∨
    (∃ verdict failure, pass.turn = .ok (.ended pass (some (.failure failure))) ∧
      (pass.standing rest).reading = ⟨[], verdict⟩ ∧ verdict.failure? = some failure) ∨
    ∃ step second, (pass.standing rest).Moves step second ∧
      pass.turn = .ok (pass.carried step second) := by
  cases hgoals : pass.goals with
  | nil =>
      refine .inl ⟨rfl, hends.mp hgoals, ?_⟩
      rw [turn, hgoals]
  | cons goal goals =>
      cases rest with
      | nil =>
          rw [hends.mpr rfl] at hgoals
          cases hgoals
      | cons look rest =>
          have hlook := h.lookAhead_eq
          cases hinvalid : look.kind.isInvalid with
          | true =>
              obtain ⟨error, hkind⟩ := TokenKind.eq_invalid_of_isInvalid hinvalid
              refine .inr (.inl ⟨.lexical error look, .lexical error look, ?_, ?_, rfl⟩)
              · have hturn := turn_of_invalid hgoals ((congrArg Token.kind hlook).trans hkind)
                rwa [show TokenSource.lookAhead pass.scanner = look from hlook] at hturn
              · simp only [standing, Standing.reading, readAfter, hkind]
                rfl
          | false =>
              have hturn := turn_of_valid hgoals
                ((congrArg (·.kind.isInvalid) hlook).trans hinvalid)
              rw [show TokenSource.lookAhead pass.scanner = look from hlook] at hturn
              cases hmove : goal.move look pass.number with
              | error expected =>
                  rw [hmove] at hturn
                  refine .inr (.inl ⟨.unexpected expected look, _, hturn, ?_, rfl⟩)
                  rw [standing, hgoals]
                  exact Goal.reading_of_move hinvalid hmove goals rest
              | ok move =>
                  rw [hmove] at hturn
                  obtain ⟨step, found, number⟩ := move
                  have hmoves := Goal.moves_of_move hinvalid hmove goals rest
                  rw [standing, hgoals] at hcounted ⊢
                  rw [hmoves.reading_eq] at hcounted
                  refine .inr (.inr ⟨step, _, hmoves, hturn.trans ?_⟩)
                  refine carryOut_eq ⟨found ++ goals, number, _⟩ ?_ hcounted
                  rintro token rfl
                  have htokens := (Standing.Reaches.move hmoves (.stay _)).tokens_eq
                  rw [hlook]
                  exact (List.cons.inj htokens).1

end Pass

end JackLang
