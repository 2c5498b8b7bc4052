import JackLang.Log
import JackLang.Output.ProgramWriter
import JackLang.Output.TokenList
import JackLang.Output.TreeWriter

/-! # Compiling a unit

A unit is compiled to a program, and its parse tree or its tokens can be
written as elements. What has been written before an error stays written. An
error of the unit itself comes before an outlet that cannot be closed, and the
program's outlet comes before the tree's.
-/

set_option autoImplicit false

namespace JackLang

inductive OutputKind where
  | program | tokens | tree
deriving DecidableEq, Repr

/-- What is appended to the name of a unit to name its output. -/
def OutputKind.suffix : OutputKind → String
  | .program => ".vm"
  | .tokens => "T.xml"
  | .tree => ".xml"

inductive CompileError where
  | failure (failure : Failure)
  /-- The sink of an output refused what was written to it. -/
  | unwritable (kind : OutputKind)
deriving DecidableEq, Repr

namespace CompileError

def diagnostic : CompileError → Diagnostic
  | .failure cause => cause.diagnostic
  | .unwritable .program => ⟨"Unable to write instruction: " ++ Sink.refusal, none⟩
  | .unwritable .tokens => ⟨"Unable to write token: " ++ Sink.refusal, none⟩
  | .unwritable .tree => ⟨"Unable to write parse tree: " ++ Sink.refusal, none⟩

end CompileError

/-- The writers of a compilation. The tree is written only if it is asked for. -/
structure Writers where
  program : ProgramWriter
  tree : Option TreeWriter
deriving DecidableEq, Repr

namespace Writers

def toSinks (program : Sink) (tree : Option Sink) : Writers :=
  ⟨.toSink program, tree.map .toSink⟩

/-- Applies a step of the tree's writer, if there is one. -/
def withTree (step : TreeWriter → TreeWriter × Bool) : Writers → Writers × Option OutputKind
  | ⟨program, none⟩ => (⟨program, none⟩, none)
  | ⟨program, some tree⟩ =>
      let (tree, written) := step tree
      (⟨program, some tree⟩, if written then none else some .tree)

def withProgram (step : ProgramWriter → ProgramWriter × Bool) :
    Writers → Writers × Option OutputKind
  | ⟨program, tree⟩ =>
      let (program, written) := step program
      (⟨program, tree⟩, if written then none else some .program)

/-- Writes what an event shows. The kind of the output that fails is given with
the writers. -/
def record (writers : Writers) : Event → Writers × Option OutputKind
  | .opened rule => writers.withTree (·.opening rule)
  | .closed rule => writers.withTree (·.closing rule)
  | .leaf token => writers.withTree (·.leaf token)
  | .emitted instruction => writers.withProgram (·.write instruction)
  | .classNamed _ => (writers, none)
  | .subroutineNamed _ _ _ => (writers, none)

def recordAll (writers : Writers) : List Event → Writers × Option OutputKind
  | [] => (writers, none)
  | event :: rest =>
      match writers.record event with
      | (writers, none) => writers.recordAll rest
      | (writers, some kind) => (writers, some kind)

/-- Closes the writers, and gives the kind of the first one that fails. -/
def close (writers : Writers) : Writers × Option OutputKind :=
  let (writers, unclosed) := writers.withProgram (·.flush)
  let (writers, treeUnclosed) := writers.withTree (·.close)
  (writers, unclosed.or treeUnclosed)

end Writers

/-- The end of a compilation: the writers, the error if there is one, and the
log. -/
structure Report where
  writers : Writers
  error : Option CompileError
  log : List LogEntry
deriving DecidableEq, Repr

def Transcript.report (transcript : Transcript) (program : Sink) (tree : Option Sink) :
    Report :=
  let (written, refused) := (Writers.toSinks program tree).recordAll transcript.events
  let error :=
    (refused.map CompileError.unwritable).or (transcript.failure.map CompileError.failure)
  let (closed, unclosed) := written.close
  { writers := closed
    error := error.or (unclosed.map CompileError.unwritable)
    log := transcript.events.filterMap Event.logEntry? ++
      [.classFinished transcript.context.className written.program.written
        transcript.context.numbers error.isNone] }

/-- Compiles a source, and writes its parse tree too if there is a sink for it. -/
def compile (source : String) (program : Sink) (tree : Option Sink) : Report :=
  (Transcript.ofSource source).report program tree

/-- What turning a source into one kind of output gives: the text that reached
the sink, the error if there is one, and the log. -/
structure Outcome where
  text : String
  error : Option CompileError
  log : List LogEntry
deriving DecidableEq, Repr

def writeTokens (source : String) (sink : Sink) : Outcome :=
  let (outlet, finish) := listTokens (.ofSource source) (.toSink sink)
  let (closed, isClosed) := outlet.flush
  let unwritable := CompileError.unwritable .tokens
  match finish with
  | .complete count =>
      ⟨closed.taken, if isClosed then none else some unwritable, [.tokensListed count]⟩
  | .invalid error found => ⟨closed.taken, some (.failure (.lexical error found)), []⟩
  | .unwritten => ⟨closed.taken, some unwritable, []⟩

/-- Turns a source into output of a kind. The program of a source whose parse
tree is asked for goes nowhere. -/
def OutputKind.write (kind : OutputKind) (source : String) (sink : Sink) : Outcome :=
  match kind with
  | .program =>
      let report := compile source sink none
      ⟨report.writers.program.outlet.taken, report.error, report.log⟩
  | .tokens => writeTokens source sink
  | .tree =>
      let report := compile source .unlimited (some sink)
      ⟨(report.writers.tree.map (·.outlet.taken)).getD "", report.error, report.log⟩

end JackLang
