import JackLang.Proofs.Compilation.Carry
import JackLang.Proofs.Compilation.Shown
import JackLang.Proofs.Output.Writing

/-! # Writing to sinks without a limit

An outlet on a sink without a limit never fails, and what it holds, in the sink
and in the buffer together, grows by just the pieces that are written. So the
text that a compilation leaves in its sink is the listing of the program of its
transcript, and its only errors are those of the unit.
-/

set_option autoImplicit false

namespace JackLang

/-- The text of a program, one instruction to a line. -/
def listing (program : List Instruction) : String :=
  String.join (program.map fun instruction => instruction.text ++ "\n")

@[simp] theorem listing_nil : listing [] = "" := rfl

theorem listing_append (first second : List Instruction) :
    listing (first ++ second) = listing first ++ listing second := by
  simp [listing, String.join_append]

theorem join_linePieces (instruction : Instruction) :
    String.join instruction.linePieces = instruction.text ++ "\n" := by
  simp [Instruction.linePieces, Instruction.text, String.join_append]

namespace Outlet

/-- The outlet `next` has no limit, and holds `text` behind what `outlet` holds. -/
structure Takes (outlet : Outlet) (text : String) (next : Outlet) : Prop where
  unlimited : next.sink.room = none
  held_eq : next.held = outlet.held ++ text

theorem Takes.nothing {outlet : Outlet} (h : outlet.sink.room = none) :
    outlet.Takes "" outlet :=
  ⟨h, by simp⟩

theorem Takes.trans {first second third : Outlet} {text more : String}
    (h : first.Takes text second) (hmore : second.Takes more third) :
    first.Takes (text ++ more) third :=
  ⟨hmore.unlimited, by rw [hmore.held_eq, h.held_eq, String.append_assoc]⟩

/-- Without a limit nothing goes beyond it. -/
theorem Writes.takes {outlet : Outlet} {text : String} {outcome : Outlet × Bool}
    (hwrites : outlet.Writes text outcome) (h : outlet.sink.room = none) :
    ∃ next, outcome = (next, true) ∧ outlet.Takes text next := by
  have hlimit : outlet.sink.limit? = none := by rw [Sink.limit?, h, Option.map_none]
  rcases hwrites with ⟨next, houtcome, hgains⟩ | ⟨_, _, _, hexceeded, _⟩
  · exact ⟨next, houtcome, Option.map_eq_none_iff.mp (hgains.limit_eq.trans hlimit),
      hgains.held_eq⟩
  · rw [hlimit] at hexceeded
    cases hexceeded

theorem flush_of_unlimited {outlet : Outlet} (h : outlet.sink.room = none) :
    outlet.flush = (⟨⟨outlet.held, none⟩, ""⟩, true) := by
  simp [flush, Sink.write?, h, held]

theorem writeAll_of_unlimited {outlet : Outlet} (h : outlet.sink.room = none)
    (pieces : List String) :
    ∃ next, outlet.writeAll pieces = (next, true) ∧
      outlet.Takes (String.join pieces) next :=
  (outlet.writeAll_writes pieces).takes h

end Outlet

namespace TreeWriter

/-- The tree `next` holds what the steps write behind what `tree` holds. -/
structure Grows (tree : TreeWriter) (steps : List Step) (next : TreeWriter) : Prop where
  takes : tree.outlet.Takes (treeText tree.depth steps) next.outlet
  depth_eq : next.depth = depthBehind tree.depth steps

variable {tree : TreeWriter}

theorem Grows.nothing (h : tree.outlet.sink.room = none) : tree.Grows [] tree :=
  ⟨Outlet.Takes.nothing h, rfl⟩

theorem Grows.trans {second third : TreeWriter} {steps more : List Step}
    (h : tree.Grows steps second) (hmore : second.Grows more third) :
    tree.Grows (steps ++ more) third := by
  constructor
  · rw [treeText_append, ← h.depth_eq]
    exact h.takes.trans hmore.takes
  · rw [depthBehind_append, ← h.depth_eq, hmore.depth_eq]

theorem Writes.grows {steps : List Step} {outcome : TreeWriter × Bool}
    (hwrites : tree.Writes steps outcome) (h : tree.outlet.sink.room = none) :
    ∃ next, outcome = (next, true) ∧ tree.Grows steps next := by
  rcases hwrites with ⟨next, houtcome, houtlet, hdepth⟩ | ⟨next, _, hoverruns⟩
  · obtain ⟨_, hsame, htakes⟩ := Outlet.Writes.takes (.inl ⟨next.outlet, rfl, houtlet⟩) h
    cases hsame
    exact ⟨next, houtcome, htakes, hdepth⟩
  · obtain ⟨_, hsame, _⟩ := Outlet.Writes.takes (.inr ⟨next.outlet, rfl, hoverruns⟩) h
    cases hsame

theorem close_of_unlimited (h : tree.outlet.sink.room = none) :
    tree.close = (⟨⟨⟨tree.outlet.held, none⟩, ""⟩, tree.depth⟩, true) := by
  simp [close, Outlet.flush_of_unlimited h]

end TreeWriter

theorem ProgramWriter.write_of_unlimited {writer : ProgramWriter}
    (h : writer.outlet.sink.room = none) (instruction : Instruction) :
    ∃ next, writer.write instruction = (next, true) ∧
      writer.outlet.Takes (listing [instruction]) next.outlet := by
  obtain ⟨outlet, hwrite, htakes⟩ :=
    Outlet.writeAll_of_unlimited h instruction.linePieces
  rw [join_linePieces] at htakes
  refine ⟨⟨outlet, writer.written + 1⟩, by simp [write, hwrite], ?_⟩
  simpa [listing] using htakes

namespace Writers

/-- None of the writers has a limit. -/
structure Unlimited (writers : Writers) : Prop where
  program : writers.program.outlet.sink.room = none
  tree : ∀ tree, writers.tree = some tree → tree.outlet.sink.room = none

/-- The tree grows by the steps, if one is written. -/
def TreeGrows (writers : Writers) (steps : List Step) (next : Writers) : Prop :=
  Option.Rel (fun tree grown => tree.Grows steps grown) writers.tree next.tree

theorem TreeGrows.refl {writers : Writers} (h : writers.Unlimited) :
    writers.TreeGrows [] writers := by
  obtain ⟨program, tree⟩ := writers
  cases tree with
  | none => exact .none
  | some tree => exact .some (.nothing (h.tree tree rfl))

theorem TreeGrows.trans {first second third : Writers} {steps more : List Step}
    (h : first.TreeGrows steps second) (hmore : second.TreeGrows more third) :
    first.TreeGrows (steps ++ more) third := by
  obtain ⟨_, firstTree⟩ := first
  obtain ⟨_, secondTree⟩ := second
  obtain ⟨_, thirdTree⟩ := third
  cases h with
  | none =>
      cases hmore
      exact .none
  | some hgrows =>
      cases hmore with
      | some hfurther => exact .some (hgrows.trans hfurther)

theorem TreeGrows.held_eq {writers next : Writers} {steps : List Step}
    (h : writers.TreeGrows steps next) :
    next.tree.map (·.outlet.held) =
      writers.tree.map fun tree => tree.outlet.held ++ treeText tree.depth steps := by
  obtain ⟨_, tree⟩ := writers
  obtain ⟨_, nextTree⟩ := next
  cases h with
  | none => rfl
  | some hgrows => exact congrArg some hgrows.takes.held_eq

theorem withTree_of_unlimited {writers : Writers} (h : writers.Unlimited)
    {step : TreeWriter → TreeWriter × Bool} {steps : List Step}
    (hstep : ∀ tree, tree.outlet.sink.room = none →
      ∃ next, step tree = (next, true) ∧ tree.Grows steps next) :
    ∃ next, writers.withTree step = (next, none) ∧ next.Unlimited ∧
      next.program = writers.program ∧ writers.TreeGrows steps next := by
  obtain ⟨program, tree⟩ := writers
  cases tree with
  | none => exact ⟨_, rfl, h, rfl, .none⟩
  | some tree =>
      obtain ⟨next, hnext, hgrows⟩ := hstep tree (h.tree tree rfl)
      refine ⟨⟨program, some next⟩, by simp [withTree, hnext], ⟨h.program, ?_⟩, rfl,
        .some hgrows⟩
      rintro tree ⟨⟩
      exact hgrows.takes.unlimited

/-- The writers `next` have no limit and hold, beyond what `writers` hold, the lines of
the instructions that the events give out and those that they add to the tree. -/
structure Shows (writers : Writers) (events : List Event) (next : Writers) : Prop where
  unlimited : next.Unlimited
  takes : writers.program.outlet.Takes (listing (events.filterMap Event.instruction?))
    next.program.outlet
  grows : writers.TreeGrows (events.filterMap Event.step?) next

/-- An event that gives out no instruction leaves the program as it is. -/
theorem Shows.silent {writers next : Writers} {event : Event} (h : next.Unlimited)
    (hprogram : next.program = writers.program) (hevent : event.instruction? = none)
    (hgrows : writers.TreeGrows event.step?.toList next) : writers.Shows [event] next := by
  refine ⟨h, ?_, ?_⟩
  · rw [List.filterMap_cons_none hevent, List.filterMap_nil, listing_nil, hprogram]
    exact Outlet.Takes.nothing (hprogram ▸ h.program)
  · cases hstep : event.step? with
    | none => simpa [hstep] using hgrows
    | some step => simpa [hstep] using hgrows

theorem record_of_unlimited {writers : Writers} (h : writers.Unlimited) (event : Event) :
    ∃ next, writers.record event = (next, none) ∧ writers.Shows [event] next := by
  cases event with
  | opened rule =>
      obtain ⟨next, hnext, hunlimited, hprogram, hgrows⟩ :=
        withTree_of_unlimited h fun tree htree => (tree.opening_writes rule).grows htree
      exact ⟨next, hnext, .silent hunlimited hprogram rfl hgrows⟩
  | closed rule =>
      obtain ⟨next, hnext, hunlimited, hprogram, hgrows⟩ :=
        withTree_of_unlimited h fun tree htree => (tree.closing_writes rule).grows htree
      exact ⟨next, hnext, .silent hunlimited hprogram rfl hgrows⟩
  | leaf token =>
      obtain ⟨next, hnext, hunlimited, hprogram, hgrows⟩ :=
        withTree_of_unlimited h fun tree htree => (tree.leaf_writes token).grows htree
      exact ⟨next, hnext, .silent hunlimited hprogram rfl hgrows⟩
  | emitted instruction =>
      obtain ⟨next, hnext, htakes⟩ := ProgramWriter.write_of_unlimited h.program instruction
      exact ⟨⟨next, writers.tree⟩, by simp [record, withProgram, hnext],
        ⟨htakes.unlimited, h.tree⟩, htakes, TreeGrows.refl h⟩
  | classNamed name => exact ⟨writers, rfl, .silent h rfl rfl (.refl h)⟩
  | subroutineNamed className name kind => exact ⟨writers, rfl, .silent h rfl rfl (.refl h)⟩

theorem recordAll_of_unlimited {writers : Writers} (h : writers.Unlimited)
    (events : List Event) :
    ∃ next, writers.recordAll events = (next, none) ∧ writers.Shows events next := by
  induction events generalizing writers with
  | nil => exact ⟨writers, rfl, h, Outlet.Takes.nothing h.program, .refl h⟩
  | cons event rest ih =>
      obtain ⟨second, hsecond, hshows⟩ := record_of_unlimited h event
      obtain ⟨third, hthird, hmore⟩ := ih hshows.unlimited
      refine ⟨third, by simp [recordAll, hsecond, hthird], hmore.unlimited, ?_, ?_⟩
      · rw [← List.singleton_append, List.filterMap_append, listing_append]
        exact hshows.takes.trans hmore.takes
      · rw [← List.singleton_append, List.filterMap_append]
        exact hshows.grows.trans hmore.grows

theorem close_of_unlimited {writers : Writers} (h : writers.Unlimited) :
    ∃ next, writers.close = (next, none) ∧
      next.program.outlet.taken = writers.program.outlet.held ∧
      next.tree.map (·.outlet.taken) = writers.tree.map (·.outlet.held) := by
  obtain ⟨program, tree⟩ := writers
  have hflush : program.flush = (⟨⟨⟨program.outlet.held, none⟩, ""⟩, program.written⟩, true) := by
    simp [ProgramWriter.flush, Outlet.flush_of_unlimited h.program]
  cases tree with
  | none =>
      exact ⟨⟨⟨⟨⟨program.outlet.held, none⟩, ""⟩, program.written⟩, none⟩,
        by simp [close, withProgram, hflush, withTree], rfl, rfl⟩
  | some tree =>
      have hclose := TreeWriter.close_of_unlimited (h.tree tree rfl)
      exact ⟨⟨⟨⟨⟨program.outlet.held, none⟩, ""⟩, program.written⟩,
          some ⟨⟨⟨tree.outlet.held, none⟩, ""⟩, tree.depth⟩⟩,
        by simp [close, withProgram, hflush, withTree, hclose], rfl, rfl⟩

end Writers

/-- A sink that takes everything, behind what it has taken already. -/
def Sink.working (taken : String) : Sink := ⟨taken, none⟩

theorem Writers.unlimited_toSinks (taken : String) (tree : Option String) :
    (toSinks (.working taken) (tree.map .working)).Unlimited := by
  refine ⟨rfl, ?_⟩
  intro writer hwriter
  obtain ⟨sink, hsink, rfl⟩ := Option.map_eq_some_iff.mp hwriter
  obtain ⟨text, _, rfl⟩ := Option.map_eq_some_iff.mp hsink
  rfl

section Reports

variable (transcript : Transcript) (taken : String) (tree : Option String)

/-- With sinks that work, all that the events show reaches the sinks. -/
theorem Transcript.report_shows :
    ∃ written, (Writers.toSinks (.working taken) (tree.map .working)).Shows
        transcript.events written ∧
      (transcript.report (.working taken) (tree.map .working)).error =
        transcript.failure.map .failure ∧
      (transcript.report (.working taken) (tree.map .working)).writers.program.outlet.taken =
        written.program.outlet.held ∧
      (transcript.report (.working taken) (tree.map .working)).writers.tree.map
        (·.outlet.taken) = written.tree.map (·.outlet.held) := by
  obtain ⟨written, hwritten, hshows⟩ :=
    Writers.recordAll_of_unlimited (Writers.unlimited_toSinks taken tree) transcript.events
  obtain ⟨closed, hclosed, htaken, htree⟩ := Writers.close_of_unlimited hshows.unlimited
  refine ⟨written, hshows, ?_⟩
  simp only [report, hwritten, hclosed]
  exact ⟨by simp, htaken, htree⟩

/-- Sinks that work leave only the errors of the unit, and take the listing of
its program. -/
theorem Transcript.report_of_working :
    (transcript.report (.working taken) (tree.map .working)).error =
        transcript.failure.map .failure ∧
      (transcript.report (.working taken) (tree.map .working)).writers.program.outlet.taken =
        taken ++ listing transcript.program := by
  obtain ⟨written, hshows, herror, htaken, _⟩ := transcript.report_shows taken tree
  refine ⟨herror, ?_⟩
  rw [htaken, hshows.takes.held_eq, transcript.program_eq]
  simp [Outlet.held, Writers.toSinks, ProgramWriter.toSink, Outlet.toSink, Sink.working]

/-- The tree's sink takes the lines of the nodes and tokens that the events show. -/
theorem Transcript.report_tree_of_working :
    (transcript.report (.working taken) (tree.map .working)).writers.tree.map
        (·.outlet.taken) =
      tree.map (· ++ treeText 0 (transcript.events.filterMap Event.step?)) := by
  obtain ⟨written, hshows, _, _, htree⟩ := transcript.report_shows taken tree
  rw [htree, hshows.grows.held_eq]
  cases tree with
  | none => rfl
  | some text =>
      simp [Outlet.held, Writers.toSinks, TreeWriter.toSink, Outlet.toSink, Sink.working]

end Reports

end JackLang
