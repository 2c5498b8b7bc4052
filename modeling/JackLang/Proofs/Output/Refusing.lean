import JackLang.Proofs.Output.Listing

/-! # Sinks that refuse everything

On a sink that refuses everything an outlet gathers what is written in its buffer, and fails
when the buffer has no room for more. So it fails no earlier than the buffer is full, and no
later than it would have to hold more. What is still in the buffer in the end makes closing
fail. The writers of a compilation and the list of tokens only pass this on.
-/

set_option autoImplicit false

namespace JackLang

/-- A sink that refuses everything, or one that takes everything. -/
def Sink.refusing (refuses : Bool) : Sink :=
  if refuses then .broken else .unlimited

theorem Sink.write?_broken (text : String) :
    broken.write? text = if text = "" then some broken else none := by
  have hroom : text.utf8ByteSize ≤ 0 ↔ text = "" := by
    rw [Nat.le_zero, String.utf8ByteSize_eq_zero_iff]
  simp only [write?, broken, hroom]
  split
  · rename_i hempty
    subst hempty
    rfl
  · rfl

namespace Outlet

/-- The text is all that has been written to the outlet, whose sink refuses everything or
takes everything. If it refuses, the text is in the buffer. -/
inductive Holds (text : String) : Bool → Outlet → Prop
  | refused (hsize : text.utf8ByteSize ≤ bufferSize) : Holds text true ⟨.broken, text⟩
  | taken {outlet : Outlet} (hroom : outlet.sink.room = none) (hheld : outlet.held = text) :
      Holds text false outlet

/-- Writing ends with the text held, or fails on a sink that refuses everything, with more
text than the buffer takes. -/
def Hands (text : String) (refuses : Bool) (outcome : Outlet × Bool) : Prop :=
  (∃ next, outcome = (next, true) ∧ Holds text refuses next) ∨
    ∃ next, outcome = (next, false) ∧ refuses = true ∧ bufferSize ≤ text.utf8ByteSize

variable {outlet : Outlet} {text : String} {refuses : Bool}

theorem holds_toSink (refuses : Bool) : Holds "" refuses (.toSink (.refusing refuses)) := by
  cases refuses with
  | true => exact .refused (Nat.zero_le _)
  | false => exact .taken rfl rfl

theorem append_hands_of_refused {buffer piece : String}
    (hsize : (buffer ++ piece).utf8ByteSize ≤ bufferSize) :
    Hands (buffer ++ piece) true (append ⟨.broken, buffer⟩ piece) := by
  unfold append
  split
  · exact .inl ⟨_, rfl, .refused hsize⟩
  · rename_i hlarge
    have hne : piece ≠ "" := by
      rintro rfl
      exact hlarge (by decide)
    refine .inr ⟨⟨.broken, buffer⟩, ?_, rfl, ?_⟩
    · simp only [Sink.write?_broken, if_neg hne]
    · rw [String.utf8ByteSize_append]
      omega

theorem Holds.write (h : Holds text refuses outlet) (piece : String) :
    Hands (text ++ piece) refuses (outlet.write piece) := by
  cases h with
  | taken hroom hheld =>
      obtain ⟨next, hwrite, htakes⟩ := (outlet.write_writes piece).takes hroom
      exact .inl ⟨next, hwrite, .taken htakes.unlimited (by rw [htakes.held_eq, hheld])⟩
  | refused hsize =>
      unfold Outlet.write
      split
      · rename_i hfit
        exact append_hands_of_refused (by rwa [String.utf8ByteSize_append])
      · rename_i hfull
        have hlarge : bufferSize < (text ++ piece).utf8ByteSize := by
          rw [String.utf8ByteSize_append]
          exact Nat.lt_of_not_le hfull
        refine .inr ⟨⟨.broken, text⟩, ?_, rfl, Nat.le_of_lt hlarge⟩
        by_cases hempty : text = ""
        · -- an empty buffer is passed on, but then the piece goes past the buffer
          subst hempty
          rw [String.empty_append] at hlarge
          have hne : piece ≠ "" := by
            rintro rfl
            exact absurd hlarge (by decide)
          have hflush : flush ⟨.broken, ""⟩ = (⟨.broken, ""⟩, true) := rfl
          simp only [hflush, append, if_neg (Nat.not_lt_of_lt hlarge), Sink.write?_broken,
            if_neg hne]
        · simp only [flush, Sink.write?_broken, if_neg hempty]

theorem Holds.writeAll (h : Holds text refuses outlet) (pieces : List String) :
    Hands (text ++ String.join pieces) refuses (outlet.writeAll pieces) := by
  induction pieces generalizing outlet text with
  | nil => exact .inl ⟨outlet, rfl, by rwa [String.join_nil, String.append_empty]⟩
  | cons piece rest ih =>
      rw [String.join_cons, ← String.append_assoc]
      rcases h.write piece with ⟨next, hwrite, hholds⟩ | ⟨next, hwrite, hrefuses, hsize⟩
      · rw [Outlet.writeAll, hwrite]
        exact ih hholds
      · refine .inr ⟨next, by rw [Outlet.writeAll, hwrite], hrefuses, ?_⟩
        rw [String.utf8ByteSize_append]
        omega

/-- Closing fails if something is left that the sink refuses. -/
theorem Holds.flush (h : Holds text refuses outlet) :
    outlet.flush.2 = !(refuses && decide (text ≠ "")) := by
  cases h with
  | taken hroom hheld => rw [flush_of_unlimited hroom, Bool.false_and, Bool.not_false]
  | refused hsize =>
      by_cases hempty : text = ""
      · simp [Outlet.flush, Sink.write?_broken, hempty]
      · simp [Outlet.flush, Sink.write?_broken, hempty]

theorem Holds.size_le (h : Holds text true outlet) : text.utf8ByteSize ≤ bufferSize := by
  cases h with
  | refused hsize => exact hsize

end Outlet

namespace TreeWriter

variable {tree : TreeWriter} {text : String} {refuses : Bool}

/-- The tree holds the lines of the steps. -/
structure Holds (steps : List Step) (refuses : Bool) (tree : TreeWriter) : Prop where
  outlet : Outlet.Holds (treeText 0 steps) refuses tree.outlet
  depth_eq : tree.depth = depthBehind 0 steps

/-- Writing ends with the lines of the steps held, or fails on a sink that refuses
everything, with more of them than the buffer takes. -/
def Hands (steps : List Step) (refuses : Bool) (outcome : TreeWriter × Bool) : Prop :=
  (∃ next, outcome = (next, true) ∧ Holds steps refuses next) ∨
    ∃ next, outcome = (next, false) ∧ refuses = true ∧
      bufferSize ≤ (treeText 0 steps).utf8ByteSize

variable {steps : List Step} {step : Step}

theorem treeText_concat (depth : Nat) (steps : List Step) (step : Step) :
    treeText depth (steps ++ [step]) =
      treeText depth steps ++ step.lineAt (depthBehind depth steps) := by
  rw [treeText_append, treeText, treeText, String.append_empty]

/-- A line is written at the depth of its step, and the next one stands where the step
leaves off. -/
theorem Holds.hands (h : Holds steps refuses tree) {depth : Nat} {pieces : List String}
    {outcome : TreeWriter × Bool}
    (hline : String.join (indent depth ++ pieces) = step.lineAt tree.depth)
    (hwritten : ∀ outlet, writeLine tree.outlet depth pieces = (outlet, true) →
      outcome = (⟨outlet, step.depthBehind tree.depth⟩, true))
    (hrefused : ∀ outlet, writeLine tree.outlet depth pieces = (outlet, false) →
      outcome.2 = false) : Hands (steps ++ [step]) refuses outcome := by
  have hhands := h.outlet.writeAll (indent depth ++ pieces)
  rw [hline, h.depth_eq, ← treeText_concat] at hhands
  rcases hhands with ⟨outlet, hwrite, hholds⟩ | ⟨outlet, hwrite, hrefuses, hsize⟩
  · refine .inl ⟨_, hwritten outlet hwrite, hholds, ?_⟩
    rw [depthBehind_append, ← h.depth_eq]
    rfl
  · exact .inr ⟨outcome.1, Prod.ext rfl (hrefused outlet hwrite), hrefuses, hsize⟩

theorem Holds.opening (h : Holds steps refuses tree) (rule : Rule) :
    Hands (steps ++ [.opened rule]) refuses (tree.opening rule) :=
  h.hands (join_line tree.depth rule.join_openingPieces)
    (fun outlet hwrite => by simp [TreeWriter.opening, hwrite, Step.depthBehind])
    (fun outlet hwrite => by simp [TreeWriter.opening, hwrite])

theorem Holds.closing (h : Holds steps refuses tree) (rule : Rule) :
    Hands (steps ++ [.closed rule]) refuses (tree.closing rule) :=
  h.hands (join_line (tree.depth - 1) rule.join_closingPieces)
    (fun outlet hwrite => by simp [TreeWriter.closing, hwrite, Step.depthBehind])
    (fun outlet hwrite => by simp [TreeWriter.closing, hwrite])

theorem Holds.leaf (h : Holds steps refuses tree) (token : Token) :
    Hands (steps ++ [.took token]) refuses (tree.leaf token) := by
  by_cases hclass : token.kind.tokenClass = .auxiliary
  · refine .inl ⟨tree, by simp [TreeWriter.leaf, hclass], ?_, ?_⟩
    · rw [treeText_concat, Step.lineAt, if_pos hclass, String.append_empty]
      exact h.outlet
    · rw [depthBehind_append]
      exact h.depth_eq
  · have hline : (Step.took token).lineAt tree.depth =
        ParseTree.lines.indented tree.depth (ParseTree.wordLine token.word) ++ "\n" :=
      if_neg hclass
    exact h.hands (hline ▸ join_line tree.depth (join_tokenPieces token))
      (fun outlet hwrite => by simp [TreeWriter.leaf, hclass, hwrite, Step.depthBehind])
      (fun outlet hwrite => by simp [TreeWriter.leaf, hclass, hwrite])

theorem Holds.close (h : Holds steps refuses tree) :
    tree.close.2 = !(refuses && decide (treeText 0 steps ≠ "")) :=
  h.outlet.flush

end TreeWriter

/-- The text of an output that events show. -/
def OutputKind.shown (kind : OutputKind) (events : List Event) : String :=
  match kind with
  | .program => listing (events.filterMap Event.instruction?)
  | .tree => treeText 0 (events.filterMap Event.step?)
  | .tokens => ""

theorem OutputKind.size_shown_le (kind : OutputKind) (events more : List Event) :
    (kind.shown events).utf8ByteSize ≤ (kind.shown (events ++ more)).utf8ByteSize := by
  cases kind with
  | program =>
      rw [shown, shown, List.filterMap_append, listing_append, String.utf8ByteSize_append]
      exact Nat.le_add_right _ _
  | tree =>
      rw [shown, shown, List.filterMap_append, treeText_append, String.utf8ByteSize_append]
      exact Nat.le_add_right _ _
  | tokens => exact Nat.le_refl _

section Silent

variable {event : Event} (events : List Event)

theorem OutputKind.shown_program_of_silent (h : event.instruction? = none) :
    shown .program (events ++ [event]) = shown .program events := by
  rw [shown, List.filterMap_append, List.filterMap_cons_none h, List.filterMap_nil,
    List.append_nil, shown]

theorem steps_of_silent (h : event.step? = none) :
    (events ++ [event]).filterMap Event.step? = events.filterMap Event.step? := by
  rw [List.filterMap_append, List.filterMap_cons_none h, List.filterMap_nil, List.append_nil]

end Silent

namespace Writers

variable {refuses : OutputKind → Bool} {writers : Writers} {shown : List Event}

/-- The writers hold what the events show. Only the sinks of outputs that are written
refuse anything. -/
structure Holds (refuses : OutputKind → Bool) (shown : List Event) (writers : Writers) :
    Prop where
  program : Outlet.Holds (OutputKind.shown .program shown) (refuses .program)
    writers.program.outlet
  tree : ∀ tree, writers.tree = some tree →
    TreeWriter.Holds (shown.filterMap Event.step?) (refuses .tree) tree
  noTree : writers.tree = none → refuses .tree = false

/-- Writing ends with what the events show held, or fails at an output whose sink refuses
everything, with more text than the buffer takes. -/
def Hands (refuses : OutputKind → Bool) (shown : List Event)
    (outcome : Writers × Option OutputKind) : Prop :=
  (∃ next, outcome = (next, none) ∧ Holds refuses shown next) ∨
    ∃ next kind, outcome = (next, some kind) ∧ refuses kind = true ∧
      bufferSize ≤ (kind.shown shown).utf8ByteSize

/-- Writing to the tree leaves the program as it is. -/
theorem Holds.withTree (h : Holds refuses shown writers) {event : Event} {step : Step}
    {operate : TreeWriter → TreeWriter × Bool} (hstep : event.step? = some step)
    (hinstruction : event.instruction? = none)
    (hoperate : ∀ tree,
      TreeWriter.Holds (shown.filterMap Event.step?) (refuses .tree) tree →
      TreeWriter.Hands (shown.filterMap Event.step? ++ [step]) (refuses .tree)
        (operate tree)) :
    Hands refuses (shown ++ [event]) (writers.withTree operate) := by
  have hsteps : (shown ++ [event]).filterMap Event.step? =
      shown.filterMap Event.step? ++ [step] := by
    rw [List.filterMap_append, List.filterMap_cons_some hstep, List.filterMap_nil]
  have hprogram : Outlet.Holds (OutputKind.shown .program (shown ++ [event]))
      (refuses .program) writers.program.outlet := by
    rw [OutputKind.shown_program_of_silent shown hinstruction]
    exact h.program
  obtain ⟨program, tree⟩ := writers
  cases tree with
  | none =>
      refine .inl ⟨_, rfl, hprogram, ?_, h.noTree⟩
      rintro tree ⟨⟩
  | some tree =>
      rcases hoperate tree (h.tree tree rfl) with
        ⟨next, hnext, hholds⟩ | ⟨next, hnext, hrefuses, hsize⟩
      · refine .inl ⟨⟨program, some next⟩, by simp [Writers.withTree, hnext], hprogram, ?_, nofun⟩
        rintro tree ⟨⟩
        rwa [hsteps]
      · refine .inr ⟨⟨program, some next⟩, .tree, by simp [Writers.withTree, hnext], hrefuses, ?_⟩
        rwa [OutputKind.shown, hsteps]

theorem Holds.emitted (h : Holds refuses shown writers) (instruction : Instruction) :
    Hands refuses (shown ++ [.emitted instruction])
      (writers.withProgram (·.write instruction)) := by
  have htext : OutputKind.shown .program (shown ++ [.emitted instruction]) =
      OutputKind.shown .program shown ++ String.join instruction.linePieces := by
    rw [OutputKind.shown, List.filterMap_append, listing_append, OutputKind.shown, join_linePieces]
    simp [listing, Event.instruction?]
  have hhands := h.program.writeAll instruction.linePieces
  rw [← htext] at hhands
  rcases hhands with ⟨outlet, hwrite, hholds⟩ | ⟨outlet, hwrite, hrefuses, hsize⟩
  · refine .inl ⟨⟨⟨outlet, writers.program.written + 1⟩, writers.tree⟩, ?_, hholds, ?_, h.noTree⟩
    · simp [withProgram, ProgramWriter.write, hwrite]
    · rw [steps_of_silent shown rfl]
      exact h.tree
  · refine .inr ⟨⟨⟨outlet, writers.program.written⟩, writers.tree⟩, .program, ?_, hrefuses, hsize⟩
    simp [withProgram, ProgramWriter.write, hwrite]

theorem Holds.silent (h : Holds refuses shown writers) {event : Event}
    (hstep : event.step? = none) (hinstruction : event.instruction? = none) :
    Holds refuses (shown ++ [event]) writers := by
  obtain ⟨hprogram, htree, hnoTree⟩ := h
  constructor
  · rwa [OutputKind.shown_program_of_silent shown hinstruction]
  · rwa [steps_of_silent shown hstep]
  · exact hnoTree

theorem Holds.record (h : Holds refuses shown writers) (event : Event) :
    Hands refuses (shown ++ [event]) (writers.record event) := by
  cases event with
  | opened rule => exact h.withTree rfl rfl fun _ htree => htree.opening rule
  | closed rule => exact h.withTree rfl rfl fun _ htree => htree.closing rule
  | leaf token => exact h.withTree rfl rfl fun _ htree => htree.leaf token
  | emitted instruction => exact h.emitted instruction
  | classNamed name => exact .inl ⟨writers, rfl, h.silent rfl rfl⟩
  | subroutineNamed className name kind => exact .inl ⟨writers, rfl, h.silent rfl rfl⟩

theorem Holds.recordAll (h : Holds refuses shown writers) (events : List Event) :
    Hands refuses (shown ++ events) (writers.recordAll events) := by
  induction events generalizing writers shown with
  | nil => exact .inl ⟨writers, rfl, by rwa [List.append_nil]⟩
  | cons event rest ih =>
      rw [← List.singleton_append, ← List.append_assoc]
      rcases h.record event with
        ⟨next, hrecord, hholds⟩ | ⟨next, kind, hrecord, hrefuses, hsize⟩
      · rw [List.singleton_append, Writers.recordAll, hrecord]
        exact ih hholds
      · refine .inr ⟨next, kind, ?_, hrefuses, ?_⟩
        · rw [List.singleton_append, Writers.recordAll, hrecord]
        · exact Nat.le_trans hsize (kind.size_shown_le _ rest)

/-- Closing fails at the first output, the program before the tree, that has something left
for a sink that refuses it. -/
theorem Holds.close (h : Holds refuses shown writers) :
    writers.close.2 = [OutputKind.program, .tree].find? fun kind =>
      refuses kind && decide (kind.shown shown ≠ "") := by
  obtain ⟨program, tree⟩ := writers
  have hprogram : program.flush.2 = !(refuses .program &&
      decide (OutputKind.shown .program shown ≠ "")) := h.program.flush
  rcases hflush : program.flush with ⟨passed, flushed⟩
  rw [hflush] at hprogram
  subst hprogram
  cases tree with
  | none =>
      simp only [Writers.close, withProgram, hflush, Writers.withTree, List.find?_cons,
        h.noTree rfl, Bool.false_and]
      cases refuses .program && decide (OutputKind.shown .program shown ≠ "") <;> rfl
  | some tree =>
      have htree : tree.close.2 = !(refuses .tree &&
          decide (OutputKind.shown .tree shown ≠ "")) := (h.tree tree rfl).close
      rcases hclose : tree.close with ⟨closed, isClosed⟩
      rw [hclose] at htree
      subst htree
      simp only [Writers.close, withProgram, hflush, Writers.withTree, hclose, List.find?_cons]
      cases refuses .program && decide (OutputKind.shown .program shown ≠ "") <;>
        cases refuses .tree && decide (OutputKind.shown .tree shown ≠ "") <;> rfl

/-- What is held for a sink that refuses everything is in a buffer. -/
theorem Holds.size_le (h : Holds refuses shown writers) {kind : OutputKind}
    (hrefuses : refuses kind = true) : (kind.shown shown).utf8ByteSize ≤ bufferSize := by
  cases kind with
  | program =>
      have hprogram := h.program
      rw [hrefuses] at hprogram
      exact hprogram.size_le
  | tree =>
      cases htree : writers.tree with
      | none =>
          rw [h.noTree htree] at hrefuses
          cases hrefuses
      | some tree =>
          have houtlet := (h.tree tree htree).outlet
          rw [hrefuses] at houtlet
          exact houtlet.size_le
  | tokens => exact Nat.zero_le _

end Writers

/-- Listing ends as with a sink that takes everything, or else the sink refuses everything
and the list is more than the buffer takes. -/
theorem listTokens_cases (source : String) (refuses : Bool) :
    (∃ next, listTokens (.ofSource source) (.toSink (.refusing refuses)) =
          (next, listingEnd 0 (TokenStream.ofSource source).pending) ∧
        Outlet.Holds (tokenListText (TokenStream.ofSource source).pending) refuses next) ∨
      ∃ next, listTokens (.ofSource source) (.toSink (.refusing refuses)) = (next, .unwritten) ∧
        refuses = true ∧
        bufferSize ≤ (tokenListText (TokenStream.ofSource source).pending).utf8ByteSize := by
  have hhands := (Outlet.holds_toSink refuses).writeAll
    ("<tokens>\n" :: tokenListPieces (TokenStream.ofSource source).pending)
  rw [join_tokenListPieces, String.empty_append] at hhands
  rw [listTokens_eq]
  rcases hhands with ⟨next, hwrite, hholds⟩ | ⟨next, hwrite, hrefuses, hsize⟩
  · exact .inl ⟨next, by rw [hwrite], hholds⟩
  · exact .inr ⟨next, by rw [hwrite], hrefuses, hsize⟩

end JackLang
