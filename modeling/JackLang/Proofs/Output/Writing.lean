import JackLang.Compile
import JackLang.Proofs.Output.TreeText

/-! # Writing to a sink

Whatever the sink, what is written to an outlet is held by it or is refused, and it is
refused only where all that has been written goes beyond the limit of the sink.
-/

set_option autoImplicit false

namespace JackLang

/-- The number of bytes that a sink takes in all, with those it has taken already. -/
def Sink.limit? (sink : Sink) : Option Nat :=
  sink.room.map (sink.taken.utf8ByteSize + ·)

/-- The text goes beyond the limit of the sink. -/
def Sink.Exceeded (sink : Sink) (text : String) : Prop :=
  ∃ limit, sink.limit? = some limit ∧ limit < text.utf8ByteSize

theorem Sink.Exceeded.append {sink : Sink} {text : String} (h : sink.Exceeded text)
    (more : String) : sink.Exceeded (text ++ more) := by
  obtain ⟨limit, hlimit, hlt⟩ := h
  refine ⟨limit, hlimit, ?_⟩
  rw [String.utf8ByteSize_append]
  omega

theorem Sink.write?_cases (sink : Sink) (text : String) :
    (∃ next, sink.write? text = some next ∧ next.taken = sink.taken ++ text ∧
      next.limit? = sink.limit?) ∨
    sink.write? text = none ∧ sink.Exceeded (sink.taken ++ text) := by
  obtain ⟨taken, room⟩ := sink
  cases room with
  | none => exact .inl ⟨_, rfl, rfl, rfl⟩
  | some room =>
      by_cases hfit : text.utf8ByteSize ≤ room
      · refine .inl ⟨⟨taken ++ text, some (room - text.utf8ByteSize)⟩, by simp [write?, hfit],
          rfl, congrArg some ?_⟩
        simp only [String.utf8ByteSize_append]
        omega
      · refine .inr ⟨by simp [write?, hfit], taken.utf8ByteSize + room, rfl, ?_⟩
        rw [String.utf8ByteSize_append]
        exact Nat.add_lt_add_left (Nat.lt_of_not_le hfit) _

namespace Outlet

/-- What has been written to an outlet, passed on or not. -/
def held (outlet : Outlet) : String :=
  outlet.sink.taken ++ outlet.buffer

/-- The outlet `next` holds `text` behind what `outlet` holds, on a sink with the same
limit. -/
structure Gains (outlet : Outlet) (text : String) (next : Outlet) : Prop where
  limit_eq : next.sink.limit? = outlet.sink.limit?
  held_eq : next.held = outlet.held ++ text

/-- Writing the text ends with the text held, or fails where it goes beyond the limit. -/
def Writes (outlet : Outlet) (text : String) (outcome : Outlet × Bool) : Prop :=
  (∃ next, outcome = (next, true) ∧ outlet.Gains text next) ∨
    ∃ next, outcome = (next, false) ∧ outlet.sink.Exceeded (outlet.held ++ text)

/-- Goes on behind a write unless it has failed. -/
def andThen (outcome : Outlet × Bool) (operate : Outlet → Outlet × Bool) : Outlet × Bool :=
  match outcome with
  | (next, true) => operate next
  | (next, false) => (next, false)

variable {outlet second third : Outlet} {text more : String}

theorem Gains.nothing (outlet : Outlet) : outlet.Gains "" outlet :=
  ⟨rfl, by simp⟩

theorem Gains.trans (h : outlet.Gains text second) (hmore : second.Gains more third) :
    outlet.Gains (text ++ more) third :=
  ⟨hmore.limit_eq.trans h.limit_eq, by rw [hmore.held_eq, h.held_eq, String.append_assoc]⟩

/-- What goes beyond the limit behind the text does so with the text. -/
theorem Gains.exceeded (h : outlet.Gains text second)
    (hmore : second.sink.Exceeded (second.held ++ more)) :
    outlet.sink.Exceeded (outlet.held ++ (text ++ more)) := by
  rw [h.held_eq, String.append_assoc] at hmore
  obtain ⟨limit, hlimit, hlt⟩ := hmore
  exact ⟨limit, h.limit_eq ▸ hlimit, hlt⟩

/-- What is written one behind the other stops at the first write that is refused. -/
theorem Writes.andThen {outcome : Outlet × Bool} (h : outlet.Writes text outcome)
    {operate : Outlet → Outlet × Bool}
    (hmore : ∀ next, outcome = (next, true) → next.Writes more (operate next)) :
    outlet.Writes (text ++ more) (andThen outcome operate) := by
  rcases h with ⟨second, rfl, hgains⟩ | ⟨second, rfl, hexceeded⟩
  · rcases hmore second rfl with ⟨third, houtcome, hfurther⟩ | ⟨third, houtcome, hexceeded⟩
    · exact .inl ⟨third, houtcome, hgains.trans hfurther⟩
    · exact .inr ⟨third, houtcome, hgains.exceeded hexceeded⟩
  · refine .inr ⟨second, rfl, ?_⟩
    rw [← String.append_assoc]
    exact hexceeded.append more

theorem flush_writes (outlet : Outlet) : outlet.Writes "" outlet.flush := by
  obtain ⟨sink, buffer⟩ := outlet
  rcases sink.write?_cases buffer with ⟨next, hwrite, htaken, hlimit⟩ | ⟨hwrite, hexceeded⟩
  · refine .inl ⟨⟨next, ""⟩, by simp [flush, hwrite], hlimit, ?_⟩
    simp [held, htaken]
  · refine .inr ⟨_, by simp only [flush, hwrite]; rfl, ?_⟩
    simpa [held] using hexceeded

theorem buffer_of_flush (h : outlet.flush = (second, true)) : second.buffer = "" := by
  unfold flush at h
  split at h <;> cases h
  rfl

/-- A piece that is too large for the buffer goes past it, which keeps the order
only because the buffer is empty then. -/
theorem append_writes (outlet : Outlet) (piece : String)
    (hlarge : bufferSize ≤ piece.utf8ByteSize → outlet.buffer = "") :
    outlet.Writes piece (outlet.append piece) := by
  obtain ⟨sink, buffer⟩ := outlet
  unfold append
  split
  · exact .inl ⟨_, rfl, rfl, String.append_assoc.symm⟩
  · rename_i hsize
    have hbuffer : buffer = "" := hlarge (Nat.le_of_not_lt hsize)
    rcases sink.write?_cases piece with ⟨next, hwrite, htaken, hlimit⟩ | ⟨hwrite, hexceeded⟩
    · exact .inl ⟨⟨next, buffer⟩, by simp only [hwrite], hlimit, by simp [held, htaken, hbuffer]⟩
    · exact .inr ⟨_, by simp only [hwrite]; rfl, by simpa [held, hbuffer] using hexceeded⟩

theorem write_writes (outlet : Outlet) (piece : String) :
    outlet.Writes piece (outlet.write piece) := by
  unfold write
  split
  · rename_i hfit
    apply append_writes
    intro hlarge
    have hempty : outlet.buffer.utf8ByteSize = 0 := by omega
    exact String.utf8ByteSize_eq_zero_iff.mp hempty
  · have hwrites := (flush_writes outlet).andThen fun flushed hflush =>
      append_writes flushed piece fun _ => buffer_of_flush hflush
    rwa [String.empty_append] at hwrites

theorem writeAll_append (outlet : Outlet) (first second : List String) :
    outlet.writeAll (first ++ second) =
      andThen (outlet.writeAll first) fun next => next.writeAll second := by
  induction first generalizing outlet with
  | nil => rfl
  | cons piece rest ih =>
      rw [List.cons_append, writeAll, writeAll]
      rcases outlet.write piece with ⟨next, _ | _⟩
      · rfl
      · exact ih next

theorem writeAll_writes (outlet : Outlet) (pieces : List String) :
    outlet.Writes (String.join pieces) (outlet.writeAll pieces) := by
  induction pieces generalizing outlet with
  | nil => exact .inl ⟨outlet, rfl, .nothing outlet⟩
  | cons piece rest ih =>
      rw [String.join_cons]
      exact (write_writes outlet piece).andThen fun next _ => ih next

end Outlet

theorem join_tokenPieces (token : Token) :
    String.join token.linePieces = ParseTree.wordLine token.word ++ "\n" := by
  simp [Token.linePieces, ParseTree.wordLine, Token.word, String.join_cons, String.append_assoc]

theorem Rule.join_openingPieces (rule : Rule) :
    String.join rule.openingPieces = "<" ++ rule.tag ++ ">" ++ "\n" := by
  simp [openingPieces, String.join_cons, String.append_assoc]

theorem Rule.join_closingPieces (rule : Rule) :
    String.join rule.closingPieces = "</" ++ rule.tag ++ ">" ++ "\n" := by
  simp [closingPieces, String.join_cons, String.append_assoc]

namespace TreeWriter

theorem join_indent (depth : Nat) (line : String) :
    String.join (indent depth) ++ line = ParseTree.lines.indented depth line := by
  have hblanks : ∀ count : Nat,
      String.join (List.replicate count " ") = String.ofList (List.replicate count ' ') := by
    intro count
    induction count with
    | zero => rfl
    | succ count ih =>
        rw [List.replicate_succ, String.join_cons, ih, List.replicate_succ, String.ofList_cons]
        rfl
  rw [indent, hblanks, ParseTree.lines.indented]

theorem join_line (depth : Nat) {pieces : List String} {line : String}
    (hline : String.join pieces = line ++ "\n") :
    String.join (indent depth ++ pieces) = ParseTree.lines.indented depth line ++ "\n" := by
  rw [String.join_append, hline, ← String.append_assoc, join_indent]

/-- The tree `next` holds what the steps write behind what `tree` holds, on a sink with the
same limit. -/
structure Gains (tree : TreeWriter) (steps : List Step) (next : TreeWriter) : Prop where
  outlet : tree.outlet.Gains (treeText tree.depth steps) next.outlet
  depth_eq : next.depth = depthBehind tree.depth steps

/-- What the steps write goes beyond the limit of the sink. -/
def Overruns (tree : TreeWriter) (steps : List Step) : Prop :=
  tree.outlet.sink.Exceeded (tree.outlet.held ++ treeText tree.depth steps)

/-- Writing the steps ends with their text held, or fails where it goes beyond the limit. -/
def Writes (tree : TreeWriter) (steps : List Step) (outcome : TreeWriter × Bool) : Prop :=
  (∃ next, outcome = (next, true) ∧ tree.Gains steps next) ∨
    ∃ next, outcome = (next, false) ∧ tree.Overruns steps

variable {tree second third : TreeWriter} {steps more : List Step}

theorem Gains.nothing (tree : TreeWriter) : tree.Gains [] tree :=
  ⟨.nothing tree.outlet, rfl⟩

theorem Gains.trans (h : tree.Gains steps second) (hmore : second.Gains more third) :
    tree.Gains (steps ++ more) third := by
  constructor
  · rw [treeText_append, ← h.depth_eq]
    exact h.outlet.trans hmore.outlet
  · rw [depthBehind_append, ← h.depth_eq, hmore.depth_eq]

theorem Gains.overruns (h : tree.Gains steps second) (hmore : second.Overruns more) :
    tree.Overruns (steps ++ more) := by
  rw [Overruns, treeText_append, ← h.depth_eq]
  exact h.outlet.exceeded hmore

theorem Overruns.append (h : tree.Overruns steps) (more : List Step) :
    tree.Overruns (steps ++ more) := by
  rw [Overruns, treeText_append, ← String.append_assoc]
  exact Sink.Exceeded.append h _

theorem writeLine_writes (outlet : Outlet) (depth : Nat) {pieces : List String} {line : String}
    (hline : String.join pieces = line ++ "\n") :
    outlet.Writes (ParseTree.lines.indented depth line ++ "\n") (writeLine outlet depth pieces) := by
  have hwrites := outlet.writeAll_writes (indent depth ++ pieces)
  rwa [join_line depth hline] at hwrites

theorem Gains.single {step : Step} {next : TreeWriter}
    (h : tree.outlet.Gains (step.lineAt tree.depth) next.outlet)
    (hdepth : next.depth = step.depthBehind tree.depth) : tree.Gains [step] next := by
  refine ⟨?_, hdepth⟩
  rwa [treeText, treeText, String.append_empty]

theorem overruns_single {step : Step}
    (h : tree.outlet.sink.Exceeded (tree.outlet.held ++ step.lineAt tree.depth)) :
    tree.Overruns [step] := by
  rwa [Overruns, treeText, treeText, String.append_empty]

theorem opening_writes (tree : TreeWriter) (rule : Rule) :
    tree.Writes [.opened rule] (tree.opening rule) := by
  rcases writeLine_writes tree.outlet tree.depth rule.join_openingPieces with
    ⟨outlet, hwrite, hgains⟩ | ⟨outlet, hwrite, hexceeded⟩
  · exact .inl ⟨⟨outlet, tree.depth + 1⟩, by simp [opening, hwrite], .single hgains rfl⟩
  · exact .inr ⟨⟨outlet, tree.depth⟩, by simp [opening, hwrite], overruns_single hexceeded⟩

theorem closing_writes (tree : TreeWriter) (rule : Rule) :
    tree.Writes [.closed rule] (tree.closing rule) := by
  rcases writeLine_writes tree.outlet (tree.depth - 1) rule.join_closingPieces with
    ⟨outlet, hwrite, hgains⟩ | ⟨outlet, hwrite, hexceeded⟩
  · exact .inl ⟨⟨outlet, tree.depth - 1⟩, by simp [closing, hwrite], .single hgains rfl⟩
  · exact .inr ⟨⟨outlet, tree.depth - 1⟩, by simp [closing, hwrite], overruns_single hexceeded⟩

theorem leaf_writes (tree : TreeWriter) (token : Token) :
    tree.Writes [.took token] (tree.leaf token) := by
  by_cases hclass : token.kind.tokenClass = .auxiliary
  · refine .inl ⟨tree, by simp [leaf, hclass], .single ?_ rfl⟩
    rw [Step.lineAt, if_pos hclass]
    exact .nothing tree.outlet
  · have hline : (Step.took token).lineAt tree.depth =
        ParseTree.lines.indented tree.depth (ParseTree.wordLine token.word) ++ "\n" :=
      if_neg hclass
    rcases writeLine_writes tree.outlet tree.depth (join_tokenPieces token) with
      ⟨outlet, hwrite, hgains⟩ | ⟨outlet, hwrite, hexceeded⟩
    · exact .inl ⟨⟨outlet, tree.depth⟩, by simp [leaf, hclass, hwrite],
        .single (hline ▸ hgains) rfl⟩
    · exact .inr ⟨⟨outlet, tree.depth⟩, by simp [leaf, hclass, hwrite],
        overruns_single (hline ▸ hexceeded)⟩

theorem close_writes (tree : TreeWriter) : tree.Writes [] tree.close := by
  rcases tree.outlet.flush_writes with ⟨outlet, hflush, hgains⟩ | ⟨outlet, hflush, hexceeded⟩
  · exact .inl ⟨⟨outlet, tree.depth⟩, by simp [close, hflush], hgains, rfl⟩
  · exact .inr ⟨⟨outlet, tree.depth⟩, by simp [close, hflush], hexceeded⟩

theorem buffer_of_close (h : tree.close = (second, true)) : second.outlet.buffer = "" := by
  obtain ⟨rfl, hflag⟩ := Prod.mk.inj h
  exact Outlet.buffer_of_flush (Prod.ext rfl hflag)

end TreeWriter

end JackLang
