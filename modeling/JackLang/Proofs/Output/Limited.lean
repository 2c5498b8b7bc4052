import JackLang.Proofs.Output.Unlimited

/-! # Trees on sinks that give out

A tree whose sink has reached its limit ends the compilation with an error. The program
has been written up to there as it would be without the tree. Whatever the sink of the
program, nothing of an empty one gets to it.
-/

set_option autoImplicit false

namespace JackLang

namespace Writers

variable {program : ProgramWriter} {tree : TreeWriter}

/-- What has been written to a program without a limit and to a tree on any sink. -/
structure Keeps (program : ProgramWriter) (tree : TreeWriter) (events : List Event)
    (nextProgram : ProgramWriter) (nextTree : TreeWriter) : Prop where
  program : program.outlet.Takes (listing (events.filterMap Event.instruction?))
    nextProgram.outlet
  tree : tree.Gains (events.filterMap Event.step?) nextTree

theorem Keeps.trans {events more : List Event} {second third : ProgramWriter}
    {grown full : TreeWriter} (h : Keeps program tree events second grown)
    (hmore : Keeps second grown more third full) :
    Keeps program tree (events ++ more) third full := by
  constructor
  · rw [List.filterMap_append, listing_append]
    exact h.program.trans hmore.program
  · rw [List.filterMap_append]
    exact h.tree.trans hmore.tree

theorem record_of_writes (hprogram : program.outlet.sink.room = none) {event : Event}
    {step : Step} (operate : TreeWriter → TreeWriter × Bool)
    (hrecord : record ⟨program, some tree⟩ event = withTree operate ⟨program, some tree⟩)
    (hinstruction : event.instruction? = none) (hstep : event.step? = some step)
    (hwrites : tree.Writes [step] (operate tree)) :
    (∃ nextProgram nextTree,
      record ⟨program, some tree⟩ event = (⟨nextProgram, some nextTree⟩, none) ∧
      Keeps program tree [event] nextProgram nextTree) ∨
    ∃ nextTree, record ⟨program, some tree⟩ event = (⟨program, some nextTree⟩, some .tree) ∧
      tree.Overruns ([event].filterMap Event.step?) := by
  have hsteps : [event].filterMap Event.step? = [step] := List.filterMap_cons_some hstep
  have hsilent : [event].filterMap Event.instruction? = [] :=
    List.filterMap_cons_none hinstruction
  rw [hrecord, hsteps]
  rcases hwrites with ⟨nextTree, hoperate, hgains⟩ | ⟨nextTree, hoperate, hoverruns⟩
  · refine .inl ⟨program, nextTree, by simp [withTree, hoperate], ?_, by rwa [hsteps]⟩
    rw [hsilent]
    exact .nothing hprogram
  · exact .inr ⟨nextTree, by simp [withTree, hoperate], hoverruns⟩

/-- An event is written, or its line goes beyond the limit of the tree. -/
theorem record_cases (hprogram : program.outlet.sink.room = none) (tree : TreeWriter)
    (event : Event) :
    (∃ nextProgram nextTree,
      record ⟨program, some tree⟩ event = (⟨nextProgram, some nextTree⟩, none) ∧
      Keeps program tree [event] nextProgram nextTree) ∨
    ∃ nextTree, record ⟨program, some tree⟩ event = (⟨program, some nextTree⟩, some .tree) ∧
      tree.Overruns ([event].filterMap Event.step?) := by
  cases event with
  | opened rule => exact record_of_writes hprogram (·.opening rule) rfl rfl rfl (tree.opening_writes rule)
  | closed rule => exact record_of_writes hprogram (·.closing rule) rfl rfl rfl (tree.closing_writes rule)
  | leaf token => exact record_of_writes hprogram (·.leaf token) rfl rfl rfl (tree.leaf_writes token)
  | emitted instruction =>
      obtain ⟨nextProgram, hwrite, htakes⟩ :=
        ProgramWriter.write_of_unlimited hprogram instruction
      exact .inl ⟨nextProgram, tree, by simp [record, withProgram, hwrite], htakes,
        .nothing tree⟩
  | classNamed name | subroutineNamed className name kind =>
      exact .inl ⟨program, tree, rfl, .nothing hprogram, .nothing tree⟩

/-- All events are written, or the first of them up to one whose line goes beyond the
limit of the tree. -/
theorem recordAll_cases (hprogram : program.outlet.sink.room = none) (tree : TreeWriter)
    (events : List Event) :
    (∃ nextProgram nextTree,
      recordAll ⟨program, some tree⟩ events = (⟨nextProgram, some nextTree⟩, none) ∧
      Keeps program tree events nextProgram nextTree) ∨
    ∃ front nextProgram nextTree, front <+: events ∧
      recordAll ⟨program, some tree⟩ events = (⟨nextProgram, some nextTree⟩, some .tree) ∧
      program.outlet.Takes (listing (front.filterMap Event.instruction?)) nextProgram.outlet ∧
      tree.Overruns (events.filterMap Event.step?) := by
  induction events generalizing program tree with
  | nil => exact .inl ⟨program, tree, rfl, .nothing hprogram, .nothing tree⟩
  | cons event rest ih =>
      rw [← List.singleton_append]
      rcases record_cases hprogram tree event with
        ⟨second, grown, hrecord, hkeeps⟩ | ⟨nextTree, hrecord, hoverruns⟩
      · rcases ih hkeeps.program.unlimited grown with
          ⟨third, full, hrest, hmore⟩ | ⟨front, third, full, hfront, hrest, htakes, hoverruns⟩
        · exact .inl ⟨third, full, by simp [recordAll, hrecord, hrest], hkeeps.trans hmore⟩
        · refine .inr ⟨[event] ++ front, third, full, ?_, by simp [recordAll, hrecord, hrest],
            ?_, ?_⟩
          · exact List.prefix_append_right_inj _ |>.mpr hfront
          · rw [List.filterMap_append, listing_append]
            exact hkeeps.program.trans htakes
          · rw [List.filterMap_append]
            exact hkeeps.tree.overruns hoverruns
      · refine .inr ⟨[], program, nextTree, List.nil_prefix, by simp [recordAll, hrecord],
          .nothing hprogram, ?_⟩
        rw [List.filterMap_append]
        exact hoverruns.append _

/-- Closing passes the program on, and the tree too unless it goes beyond its limit. -/
theorem close_cases (hprogram : program.outlet.sink.room = none) (tree : TreeWriter) :
    ∃ nextProgram nextTree unclosed,
      close ⟨program, some tree⟩ = (⟨nextProgram, some nextTree⟩, unclosed) ∧
      nextProgram.outlet.taken = program.outlet.held ∧
      (unclosed = none ∧ tree.Gains [] nextTree ∧ nextTree.outlet.buffer = "" ∨
        unclosed = some .tree ∧ tree.Overruns []) := by
  obtain ⟨passed, hflush, htaken⟩ : ∃ passed, program.flush = (passed, true) ∧
      passed.outlet.taken = program.outlet.held := by
    refine ⟨⟨⟨⟨program.outlet.held, none⟩, ""⟩, program.written⟩, ?_, rfl⟩
    simp [ProgramWriter.flush, Outlet.flush_of_unlimited hprogram]
  rcases tree.close_writes with ⟨nextTree, hclose, hgains⟩ | ⟨nextTree, hclose, hoverruns⟩
  · exact ⟨passed, nextTree, none, by simp [close, withProgram, hflush, withTree, hclose], htaken,
      .inl ⟨rfl, hgains, TreeWriter.buffer_of_close hclose⟩⟩
  · exact ⟨passed, nextTree, some .tree, by simp [close, withProgram, hflush, withTree, hclose],
      htaken, .inr ⟨rfl, hoverruns⟩⟩

/-- The tree's sink refuses a write, of one of the events or of what is left in the end. -/
def TreeFails (writers : Writers) (events : List Event) : Prop :=
  (writers.recordAll events).2 = some .tree ∨ (writers.recordAll events).1.close.2 = some .tree

end Writers

/-- What has been passed on as a whole is within the limit. -/
theorem Outlet.Gains.not_exceeded {outlet next : Outlet} {text : String}
    (h : outlet.Gains text next) (hbuffer : next.buffer = "") :
    ¬outlet.sink.Exceeded (outlet.held ++ text) := by
  rintro ⟨limit, hlimit, hlt⟩
  rw [← h.held_eq, held, hbuffer, String.append_empty] at hlt
  rw [← h.limit_eq] at hlimit
  obtain ⟨room, _, rfl⟩ := Option.map_eq_some_iff.mp hlimit
  omega

theorem Transcript.report_of_recordAll {transcript : Transcript} (program : Sink)
    (tree : Option Sink) {written closed : Writers} {refused unclosed : Option OutputKind}
    (hrecord : (Writers.toSinks program tree).recordAll transcript.events = (written, refused))
    (hclose : written.close = (closed, unclosed)) :
    (transcript.report program tree).writers = closed ∧
      (transcript.report program tree).error =
        ((refused.map CompileError.unwritable).or (transcript.failure.map .failure)).or
          (unclosed.map .unwritable) := by
  constructor <;> simp only [report, hrecord, hclose]

/-- Compiling with a tree on some sink goes through as on one that works, or the sink has
no room for the tree, and then there is an error and the program ends where the tree
does. -/
theorem Transcript.report_tree_cases (transcript : Transcript) (taken : String) (sink : Sink) :
    (¬sink.Exceeded (sink.taken ++ treeText 0 (transcript.events.filterMap Event.step?)) ∧
      ¬(Writers.toSinks (.working taken) (some sink)).TreeFails transcript.events ∧
      (transcript.report (.working taken) (some sink)).error =
        transcript.failure.map .failure ∧
      (transcript.report (.working taken) (some sink)).writers.program.outlet.taken =
        taken ++ listing transcript.program ∧
      (transcript.report (.working taken) (some sink)).writers.tree.map (·.outlet.taken) =
        some (sink.taken ++ treeText 0 (transcript.events.filterMap Event.step?))) ∨
    (sink.Exceeded (sink.taken ++ treeText 0 (transcript.events.filterMap Event.step?)) ∧
      (Writers.toSinks (.working taken) (some sink)).TreeFails transcript.events ∧
      (transcript.report (.working taken) (some sink)).error ≠ none ∧
      ∃ front, front <+: transcript.events ∧
        (transcript.report (.working taken) (some sink)).writers.program.outlet.taken =
          taken ++ listing (front.filterMap Event.instruction?)) := by
  have hroom : (ProgramWriter.toSink (.working taken)).outlet.sink.room = none := rfl
  have hempty : (ProgramWriter.toSink (.working taken)).outlet.held = taken := String.append_empty
  have htree : (TreeWriter.toSink sink).outlet.held = sink.taken := String.append_empty
  have hsinks : Writers.toSinks (.working taken) (some sink) =
      ⟨.toSink (.working taken), some (.toSink sink)⟩ := rfl
  rcases Writers.recordAll_cases hroom (.toSink sink) transcript.events with
    ⟨program, tree, hrecord, hkeeps⟩ | ⟨front, program, tree, hfront, hrecord, htakes, hoverruns⟩
  · obtain ⟨closed, closedTree, unclosed, hclose, htaken, hcases⟩ :=
      Writers.close_cases hkeeps.program.unlimited tree
    obtain ⟨hwriters, herror⟩ := report_of_recordAll (.working taken) (some sink) hrecord hclose
    rw [hwriters, herror]
    have hprogram : closed.outlet.taken =
        taken ++ listing (transcript.events.filterMap Event.instruction?) := by
      rw [htaken, hkeeps.program.held_eq, hempty]
    rcases hcases with ⟨rfl, hgains, hbuffer⟩ | ⟨rfl, hoverruns⟩
    · have hall := hkeeps.tree.trans hgains
      rw [List.append_nil] at hall
      have hexceeded := hall.outlet.not_exceeded hbuffer
      have hheld := hall.outlet.held_eq
      rw [htree] at hexceeded hheld
      rw [Outlet.held, hbuffer, String.append_empty] at hheld
      refine .inl ⟨hexceeded, ?_, ?_, ?_, congrArg some hheld⟩
      · simp [Writers.TreeFails, hsinks, hrecord, hclose]
      · simp
      · rw [transcript.program_eq]
        exact hprogram
    · have hall := hkeeps.tree.overruns hoverruns
      rw [List.append_nil, TreeWriter.Overruns, htree] at hall
      exact .inr ⟨hall, .inr (by rw [hsinks, hrecord, hclose]), by simp, transcript.events, List.prefix_rfl, hprogram⟩
  · obtain ⟨closed, closedTree, unclosed, hclose, htaken, _⟩ :=
      Writers.close_cases htakes.unlimited tree
    obtain ⟨hwriters, herror⟩ := report_of_recordAll (.working taken) (some sink) hrecord hclose
    rw [hwriters, herror]
    rw [TreeWriter.Overruns, htree] at hoverruns
    refine .inr ⟨hoverruns, .inl (by rw [hsinks, hrecord]), by simp, front, hfront, ?_⟩
    rw [htaken, htakes.held_eq, hempty]

section Empty

variable {transcript : Transcript} (program : Sink) (tree : Option Sink)

theorem Transcript.report_error_ne_none (h : transcript.failure ≠ none) :
    (transcript.report program tree).error ≠ none := by
  obtain ⟨failure, hfailure⟩ := Option.ne_none_iff_exists'.mp h
  obtain ⟨_, herror⟩ := report_of_recordAll program tree rfl rfl
  rw [herror, hfailure]
  simp

theorem Writers.program_withTree (step : TreeWriter → TreeWriter × Bool) (writers : Writers) :
    (writers.withTree step).1.program = writers.program := by
  obtain ⟨program, tree⟩ := writers
  cases tree <;> rfl

theorem Writers.program_record {event : Event} (h : event.instruction? = none)
    (writers : Writers) : (writers.record event).1.program = writers.program := by
  cases event with
  | opened rule | closed rule | leaf token => exact writers.program_withTree _
  | emitted instruction => cases h
  | classNamed name | subroutineNamed className name kind => rfl

/-- Events without instructions leave the writer of the program as it is. -/
theorem Writers.program_recordAll {events : List Event}
    (h : events.filterMap Event.instruction? = []) (writers : Writers) :
    (writers.recordAll events).1.program = writers.program := by
  induction events generalizing writers with
  | nil => rfl
  | cons event rest ih =>
      obtain ⟨hevent, hrest⟩ :
          event.instruction? = none ∧ rest.filterMap Event.instruction? = [] := by
        simpa [List.filterMap_eq_nil_iff] using h
      have hprogram := program_record hevent writers
      rw [recordAll]
      rcases hrecord : writers.record event with ⟨next, _ | kind⟩
      · rw [hrecord] at hprogram
        exact (ih hrest next).trans hprogram
      · rw [hrecord] at hprogram
        exact hprogram

theorem Writers.program_close (writers : Writers) :
    writers.close.1.program = writers.program.flush.1 := by
  obtain ⟨program, tree⟩ := writers
  cases tree <;> rfl

theorem Outlet.taken_flush_toSink (sink : Sink) : (toSink sink).flush.1.taken = sink.taken := by
  rcases sink.write?_cases "" with ⟨next, hwrite, htaken, _⟩ | ⟨hwrite, _⟩
  · simp [toSink, flush, hwrite, taken, htaken]
  · simp [toSink, flush, hwrite, taken]

/-- A sink takes nothing of an empty program. -/
theorem Transcript.taken_of_program_eq_nil (h : transcript.program = []) :
    (transcript.report program tree).writers.program.outlet.taken = program.taken := by
  rw [program_eq] at h
  have hwritten := Writers.program_recordAll h (.toSinks program tree)
  rcases hrecord : (Writers.toSinks program tree).recordAll transcript.events with
    ⟨written, refused⟩
  rw [hrecord] at hwritten
  have hclosed := written.program_close
  rcases hclose : written.close with ⟨closed, unclosed⟩
  rw [hclose, hwritten] at hclosed
  rw [(report_of_recordAll program tree hrecord hclose).1, hclosed]
  exact Outlet.taken_flush_toSink program

end Empty

end JackLang
