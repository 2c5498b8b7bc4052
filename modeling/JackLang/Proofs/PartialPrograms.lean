import JackLang.Proofs.Reading.Completion

/-! # What is given out before an error

Whether or not a source compiles, its program is the beginning of the code of a
unit: of any unit whose first steps are those that the reading of the source has
made. The operands in it are constants of the machine.
-/

set_option autoImplicit false

namespace JackLang

theorem Action.eq_argument_or_blank_eq (action : Action) :
    (∃ callee count first, action = .argument callee count first) ∨
      action.blank = action.bare := by
  cases action with
  | argument callee count first => exact .inl ⟨callee, count, first, rfl⟩
  | _ => exact .inr rfl

/-- The token that an argument starts with shows in an error only. -/
theorem Context.perform_blank (context : Context) (action : Action) :
    ∃ error, context.perform action.blank =
        ⟨(context.perform action).events, (context.perform action).context, error⟩ ∧
      (error = none ↔ (context.perform action).error = none) := by
  rcases action.eq_argument_or_blank_eq with ⟨callee, count, first, rfl⟩ | hblank
  · by_cases hcount : context.receiverCount callee + count < maxConstant
    · exact ⟨none, by simp [Action.blank, perform, hcount, Effect.pass],
        by simp [perform, hcount, Effect.pass]⟩
    · exact ⟨some (.tooManyArguments (.endOfFile 0)),
        by simp [Action.blank, perform, hcount, Effect.fail],
        by simp [perform, hcount, Effect.fail]⟩
  · rw [hblank, perform_moved]
    exact ⟨_, rfl, Option.map_eq_none_iff⟩

namespace Context

variable {context : Context} {steps more : List Step}

theorem output_blank (context : Context) (steps : List Step) :
    context.output (steps.map Step.blank) = context.output steps := by
  induction steps generalizing context with
  | nil => rfl
  | cons step rest ih =>
      cases step with
      | opened rule | closed rule | took token => exact ih context
      | act action =>
          obtain ⟨found, hblank, hfound⟩ := context.perform_blank action
          rcases heffect : context.perform action with ⟨events, next, error⟩
          rw [heffect] at hblank hfound
          simp only [List.map_cons, Step.blank, output, hblank, heffect]
          cases error with
          | none =>
              rw [hfound.mpr rfl]
              simp only [ih]
          | some error =>
              cases found with
              | none => cases hfound.mp rfl
              | some found => rfl

theorem output_of_prefix (h : steps <+: more) : context.output steps <+: context.output more := by
  obtain ⟨rest, rfl⟩ := h
  rw [output_append]
  split
  · rename_i next code hcarry
    rw [output_of_carry? hcarry]
    exact List.prefix_append _ _
  · exact List.prefix_rfl

theorem output_append_took (context : Context) (steps : List Step) (token : Token) :
    context.output (steps ++ [.took token]) = context.output steps := by
  rw [output_append]
  split
  · rename_i next code hcarry
    rw [output_of_carry? hcarry]
    exact List.append_nil code
  · rfl

/-- What steps give out is the program of their transcript, however they end. -/
theorem program_followAfter (context : Context) (steps : List Step) (events : List Event)
    (failure : Option Failure) :
    (followAfter events context failure steps).program =
      events.reverse.filterMap Event.instruction? ++ context.output steps := by
  induction steps generalizing context events with
  | nil => simp [followAfter, Transcript.program_eq, output]
  | cons step rest ih =>
      cases step with
      | opened rule =>
          have hrest := ih context (.opened rule :: events)
          simpa [followAfter, output, List.filterMap_cons, Event.instruction?] using hrest
      | closed rule =>
          have hrest := ih context (.closed rule :: events)
          simpa [followAfter, output, List.filterMap_cons, Event.instruction?] using hrest
      | took token =>
          have hrest := ih context (.leaf token :: events)
          simpa [followAfter, output, List.filterMap_cons, Event.instruction?] using hrest
      | act action =>
          rcases heffect : context.perform action with ⟨added, next, error⟩
          cases error with
          | none =>
              have hrest := ih next (added.reverseAux events)
              simpa [followAfter, output, heffect, List.reverseAux_eq] using hrest
          | some error =>
              simp [followAfter, output, heffect, List.reverseAux_eq, Transcript.program_eq]

theorem counts_blank (context : Context) (action : Action) :
    context.Counts action.blank ↔ context.Counts action := by
  cases action <;> exact Iff.rfl

theorem counted_blank (context : Context) (steps : List Step) :
    context.Counted (steps.map Step.blank) ↔ context.Counted steps := by
  induction steps generalizing context with
  | nil => exact Iff.rfl
  | cons step rest ih =>
      cases step with
      | opened rule | closed rule | took token => exact ih context
      | act action =>
          obtain ⟨found, hblank, hfound⟩ := context.perform_blank action
          rcases heffect : context.perform action with ⟨events, next, error⟩
          rw [heffect] at hblank hfound
          simp only [List.map_cons, Step.blank, Counted, hblank, heffect, counts_blank]
          cases error with
          | none =>
              rw [hfound.mpr rfl]
              simp only [ih]
          | some error =>
              cases found with
              | none => cases hfound.mp rfl
              | some found => rfl

theorem Counted.of_isPrefix (h : context.Counted more) (hstarts : steps <+: more) :
    context.Counted steps := by
  obtain ⟨rest, rfl⟩ := hstarts
  exact ((counted_append _ _).mp h).1

end Context

theorem ClassUnit.Traces.output {unit : ClassUnit} {steps : List Step} (h : unit.Traces steps) :
    Context.initial.output steps <+: Context.initial.output unit.course := by
  obtain ⟨last, _, hstarts⟩ := h.starts
  have houtput : Context.initial.output _ <+: Context.initial.output _ :=
    Context.output_of_prefix hstarts
  rwa [Context.output_blank, Context.output_blank, Context.output_append_took] at houtput

theorem Scope.small_empty : Scope.empty.Small := by
  intro kind
  cases kind <;> exact Nat.zero_le _

theorem ClassUnit.Traces.counted {unit : ClassUnit} {steps : List Step} (h : unit.Traces steps) :
    Context.initial.Counted steps := by
  obtain ⟨_, hruns⟩ := unit.runs h.regular
  obtain ⟨last, _, hstarts⟩ := h.starts
  have hcourse : Context.initial.Counted (unit.course ++ [.took last]) := by
    refine (Context.counted_append _ _).mpr ⟨hruns.counted Scope.small_empty, ?_⟩
    intro next code hcarry
    exact (hruns.counted Scope.small_empty).small hcarry
  rw [← Context.counted_blank] at hcourse ⊢
  exact hcourse.of_isPrefix hstarts

theorem Transcript.program_ofTokens (tokens : List Token) :
    (Transcript.ofTokens tokens).program = Context.initial.output (readUnit tokens).steps := by
  rw [ofTokens, Context.program_followAfter]
  rfl

/-- The unit starts like the reading of the source. -/
def ClassUnit.Opens (unit : ClassUnit) (source : String) : Prop :=
  unit.Traces (readUnit (TokenStream.ofSource source).toList).steps

/-- A source is like the beginning of a unit of its own words and of fillers. -/
theorem exists_opens_of_words (source : String) :
    ∃ unit : ClassUnit, unit.Opens source ∧ ∀ word ∈ unit.words,
      word.Filler ∨ word ∈ (TokenStream.ofSource source).toList.map Token.word :=
  exists_traces (fun _ hmem => TokenStream.regular_of_mem hmem) rfl

theorem exists_opens (source : String) : ∃ unit : ClassUnit, unit.Opens source := by
  obtain ⟨unit, hopens, _⟩ := exists_opens_of_words source
  exact ⟨unit, hopens⟩

theorem ClassUnit.Derives.opens {unit : ClassUnit} {source : String} (h : unit.Derives source) :
    unit.Opens source := by
  have hlast : (Token.endOfFile (TokenStream.ofSource source).length).kind = .endOfFile := rfl
  have hread := readUnit_of_words h hlast
  have hsteps := congrArg (fun reading => reading.steps.map Step.blank) hread
  simp only [Reading.moved, map_blank_of_bare] at hsteps
  refine ⟨?_, (Token.endOfFile (TokenStream.ofSource source).length).bare, rfl, ?_⟩
  · intro word hmem
    rw [← h] at hmem
    obtain ⟨token, htoken, rfl⟩ := List.mem_map.mp hmem
    exact TokenStream.regular_of_mem htoken
  · rw [TokenStream.toList, hsteps]

/-- A unit that a source starts like has the program of the source at the beginning of
its code. -/
theorem ClassUnit.Opens.program_prefix {unit : ClassUnit} {source : String}
    (h : unit.Opens source) :
    (Transcript.ofSource source).program <+: unit.code ∧
      Bounded (Transcript.ofSource source).program := by
  obtain ⟨last, hruns⟩ := unit.runs h.regular
  rw [Transcript.ofSource, Transcript.program_ofTokens]
  have houtput := Traces.output h
  exact ⟨houtput.trans hruns.starts, fun instruction hmem =>
    hruns.bounded instruction (houtput.subset hmem)⟩

end JackLang
