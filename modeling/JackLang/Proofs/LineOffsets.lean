import JackLang.Proofs.Compilation.LookAhead
import JackLang.Proofs.Source.Lines
import JackLang.Proofs.Token.Reader

/-! # Line offsets do not depend on the run

A run takes tokens until it succeeds or fails, and then asks its scanner for the lines of
the source. However far the run has got, the scanner has the lines in front of where it
stands, and it reads the rest before it answers.
-/

set_option autoImplicit false

namespace JackLang

/-- The events that are written, up to the first one whose output fails, and with it. -/
def Writers.attempted (writers : Writers) : List Event → List Event
  | [] => []
  | event :: rest =>
      match writers.record event with
      | (writers, none) => event :: writers.attempted rest
      | (_, some _) => [event]

/-- What is written of the events is written of the attempted ones alone. -/
theorem Writers.recordAll_attempted (writers : Writers) (events : List Event) :
    writers.recordAll (writers.attempted events) = writers.recordAll events := by
  induction events generalizing writers with
  | nil => rfl
  | cons event rest ih =>
      rcases hrecord : writers.record event with ⟨next, _ | kind⟩
      · simp only [attempted, recordAll, hrecord, ih]
      · simp only [attempted, recordAll, hrecord]

/-- How many tokens are listed, with the one at which the list ends early. -/
def listedCount (outlet : Outlet) : List Token → Nat
  | [] => 0
  | token :: rest =>
      match token.kind with
      | .invalid _ => 1
      | _ =>
          match outlet.writeAll token.linePieces with
          | (outlet, true) => listedCount outlet rest + 1
          | (_, false) => 1

/-- The line offsets that compiling a source gives. A token is taken before its leaf is
written. -/
def compiledOffsets (source : String) (program : Sink) (tree : Option Sink) :
    Except LineOffsets.Malformed LineOffsets :=
  let events := (Writers.toSinks program tree).attempted (Transcript.ofSource source).events
  ((Scanner.ofSource source).advanced (events.countP Event.isLeaf)).lineOffsets

/-- The line offsets that listing the tokens of a source gives. -/
def listedOffsets (source : String) (sink : Sink) : Except LineOffsets.Malformed LineOffsets :=
  let number :=
    match (Outlet.toSink sink).writeAll ["<tokens>\n"] with
    | (outlet, true) => listedCount outlet (TokenStream.ofSource source).pending
    | (_, false) => 0
  ((Scanner.ofSource source).advanced number).lineOffsets

/-- The line offsets that a run gives when it turns a source into output of a kind. -/
def OutputKind.offsets (kind : OutputKind) (source : String) (sink : Sink) :
    Except LineOffsets.Malformed LineOffsets :=
  match kind with
  | .program => compiledOffsets source sink none
  | .tokens => listedOffsets source sink
  | .tree => compiledOffsets source .unlimited (some sink)

/-- Behind any number of tokens the scanner holds the next one, and gives the line offsets
of the whole source. -/
theorem Scanner.advanced_ofSource (source : String) (number : Nat) :
    ((Scanner.ofSource source).advanced number).lookAhead =
        (TokenStream.ofSource source).token number ∧
      ((Scanner.ofSource source).advanced number).lineOffsets = .ok (.ofSource source) := by
  obtain ⟨stream, hfollows, hpeek⟩ := (follows_ofSource source).advanced number
  exact ⟨hfollows.lookAhead.trans hpeek, hfollows.lineOffsets_eq⟩

theorem compiledOffsets_eq (source : String) (program : Sink) (tree : Option Sink) :
    compiledOffsets source program tree = .ok (.ofSource source) :=
  (Scanner.advanced_ofSource source _).2

theorem listedOffsets_eq (source : String) (sink : Sink) :
    listedOffsets source sink = .ok (.ofSource source) :=
  (Scanner.advanced_ofSource source _).2

/-- Behind any number of tokens the scanner holds the next one of the source, and gives the
line offsets that belong to the bytes of the whole source. So does every run, whatever its
sinks take, and whether it succeeds or fails. -/
theorem line_offsets_wherever_scanning_stops (source : String) :
    ∃ offsets : LineOffsets, offsets.IsOf source ∧
      (∀ number,
        ((Scanner.ofSource source).advanced number).lookAhead =
          (TokenStream.ofSource source).token number ∧
        ((Scanner.ofSource source).advanced number).lineOffsets = .ok offsets) ∧
      (∀ program tree, compiledOffsets source program tree = .ok offsets) ∧
      ∀ (kind : OutputKind) sink, kind.offsets source sink = .ok offsets := by
  refine ⟨.ofSource source, LineOffsets.isOf_ofSource source, Scanner.advanced_ofSource source,
    compiledOffsets_eq source, ?_⟩
  intro kind sink
  cases kind with
  | program => exact compiledOffsets_eq source sink none
  | tree => exact compiledOffsets_eq source .unlimited (some sink)
  | tokens => exact listedOffsets_eq source sink

end JackLang
