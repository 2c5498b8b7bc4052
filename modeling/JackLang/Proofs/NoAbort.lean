import JackLang.Proofs.Compilation.ByteTurns
import JackLang.Proofs.Jobs
import JackLang.Proofs.OnePass

/-! # No source stops the work in the middle

A source whose offsets fit into words is scanned and compiled to an end, well or badly. No
range that is taken out of it cuts a character, no offset loses its upper bytes, no counter
gets to its greatest number, and what is checked for safety only never fails.
-/

set_option autoImplicit false

namespace JackLang

section Trees

theorem Writers.isSome_withTree (step : TreeWriter → TreeWriter × Bool) (writers : Writers) :
    (writers.withTree step).1.tree.isSome = writers.tree.isSome := by
  obtain ⟨program, _ | tree⟩ := writers <;> rfl

/-- There is a writer for the tree behind an event if there has been one. -/
theorem Writers.isSome_record (writers : Writers) (event : Event) :
    (writers.record event).1.tree.isSome = writers.tree.isSome := by
  cases event with
  | opened rule => exact writers.isSome_withTree (·.opening rule)
  | closed rule => exact writers.isSome_withTree (·.closing rule)
  | leaf token => exact writers.isSome_withTree (·.leaf token)
  | emitted instruction => rfl
  | classNamed name => rfl
  | subroutineNamed kind name locals => rfl

theorem Writers.isSome_recordAll (writers : Writers) (events : List Event) :
    (writers.recordAll events).1.tree.isSome = writers.tree.isSome := by
  induction events generalizing writers with
  | nil => rfl
  | cons event rest ih =>
      have hsame := writers.isSome_record event
      rcases hrecord : writers.record event with ⟨next, _ | kind⟩
      · rw [recordAll, hrecord]
        rw [hrecord] at hsame
        exact (ih next).trans hsame
      · rw [recordAll, hrecord]
        rw [hrecord] at hsame
        exact hsame

theorem Writers.isSome_close (writers : Writers) :
    writers.close.1.tree.isSome = writers.tree.isSome :=
  (writers.withProgram (·.flush)).1.isSome_withTree (·.close)

/-- A tree that is asked for is recorded. -/
theorem recordTree_ne_notRecorded (source : String) (sink : Sink) :
    recordTree source sink ≠ .error .notRecorded := by
  have htree : (compile source .unlimited (some sink)).writers.tree.isSome = true :=
    (Writers.isSome_close _).trans (Writers.isSome_recordAll _ _)
  intro hnone
  simp only [recordTree] at hnone
  split at hnone
  · cases hnone
  · rename_i hmissing
    rw [hmissing] at htree
    cases htree
  · cases hnone

end Trees

section Constants

variable {source : String} {token : Token}

/-- The digits of a constant stand for a number that is none too great. -/
theorem IsToken.parseWord?_eq {behind text : List Char} {lexeme : String}
    (h : IsToken behind .integerConstant lexeme text) :
    ∃ value, parseWord? lexeme = some value ∧ value ≤ maxConstant := by
  have hwords : maxConstant < wordLimit := by decide
  cases h with
  | integer hne hdigits hvalue hend =>
      refine ⟨decimalValue text, ?_, hvalue⟩
      exact (Reader.parseWord?_of_digits hne hdigits).trans
        (if_pos (Nat.lt_of_le_of_lt hvalue hwords))

theorem parseWord?_of_constant (h : token ∈ (TokenStream.ofSource source).toList)
    (hkind : token.kind = .integerConstant) :
    ∃ value, parseWord? token.lexeme = some value ∧ value ≤ maxConstant := by
  rcases List.mem_append.mp h with hmem | hmem
  · obtain ⟨_, word, behind, _, _, htoken⟩ :=
      ((TokenStream.laidOut_iff source _).mpr rfl).exists_word token hmem
    rw [hkind] at htoken
    exact htoken.parseWord?_eq
  · rw [List.mem_singleton.mp hmem] at hkind
    cases hkind

/-- A constant that compiling refuses has been refused by scanning. -/
theorem compile_ne_integerOutOfRange (source : String) (program : Sink) (tree : Option Sink)
    (constant : Token) :
    (compile source program tree).error ≠
      some (.failure (.static (.integerOutOfRange constant))) := by
  intro herror
  obtain ⟨last, hreaches, hends⟩ := Standing.reaches_end (TokenStream.ofSource source).toList
  have hfailure := failure_of_error herror
  rw [Transcript.ofSource] at hfailure
  rw [hfailure] at hends
  rcases hends.lexical_or hreaches fun token hmem =>
      TokenStream.constant_le_of_mem_toList ((List.takeWhile_prefix _).subset hmem) with
    ⟨error, found, hlexical, _⟩ | ⟨_, _, hmessage⟩
  · cases hlexical
  · exact hmessage .integerOutOfRange rfl

end Constants

/-- What it is that nothing stops the work on a source in the middle. -/
structure NeverAborts (source : String) : Prop where
  /-- Wherever a scanner stands, its cursor is the offset of the next character, and the
  ranges that it takes out of the source are texts. Its offsets fit into words. -/
  placed : ∀ scanner, ByteScanner.Occurs source scanner → ByteScanner.Placed source scanner
  /-- Any number of tokens can be taken, behind the end of the file too, and the lines of
  the source can be asked for at any time. -/
  scanning : ∃ first, ByteScanner.ofSource source = .ok first ∧ ∀ number, ∃ scanner,
    first.advanced number = .ok scanner ∧ ByteScanner.Occurs source scanner ∧
    scanner.lookAhead = (TokenStream.ofSource source).token number ∧
    scanner.lineOffsets = .ok (.ofSource source)
  /-- Any number of turns can be taken, whatever the outputs, and no counter is full. -/
  turns : ∀ program tree turns, ∃ turn, compileInWords source program tree turns = .ok turn ∧
    ByteScanner.Occurs source turn.pass.scanner ∧
    turn.pass.scanner.lineOffsets = .ok (.ofSource source)
  /-- In the end there is what compiling the source gives. -/
  ends : ∀ program tree, ∃ turns last error,
    compileInWords source program tree turns = .ok (.ended last error) ∧
    (compile source program tree).writers = last.writers.close.1 ∧
    (compile source program tree).error = error.or (last.writers.close.2.map .unwritable)
  /-- The digits of each constant can be parsed, and compiling never finds a constant out of
  range. -/
  constants : ∀ token ∈ (TokenStream.ofSource source).toList, token.kind = .integerConstant →
    ∃ value, parseWord? token.lexeme = some value ∧ value ≤ maxConstant
  inRange : ∀ program tree constant, (compile source program tree).error ≠
    some (.failure (.static (.integerOutOfRange constant)))
  recorded : ∀ sink, recordTree source sink ≠ .error .notRecorded

section Scanning

variable {source : String}

theorem compileInWords_eq (hsource : source.utf8ByteSize < offsetLimit - 1) {program : Sink}
    {tree : Option Sink} {turns : Nat} {turn : Turn Scanner}
    (hrun : (Pass.start (Scanner.ofSource source) program tree).run turns = .ok turn) :
    ∃ reached, compileInWords source program tree turns = .ok (turn.bytes reached) ∧
      turn.pass.scanner.Mirrored source reached := by
  obtain ⟨start, hstart, hmirrored⟩ := Scanner.exists_mirrored hsource
  let first := Pass.start (Scanner.ofSource source) program tree
  have hfirst : first.scanner.Mirrored source start := hmirrored
  rw [compileInWords, hstart]
  exact Pass.run_bytes hfirst hrun

theorem Scanner.lineOffsets_advanced (source : String) (number start : Nat) :
    (((Scanner.ofSource source).advanced number).bytes start).lineOffsets =
      .ok (.ofSource source) := by
  rw [lineOffsets_bytes, (advanced_ofSource source number).2]
  rfl

/-- A source of fewer bytes than the greatest offset never stops the work in the middle. -/
theorem short_sources_never_abort (hsource : source.utf8ByteSize < offsetLimit - 1) :
    NeverAborts source := by
  constructor
  case placed => exact fun _ hoccurs => hoccurs.placed hsource
  case scanning =>
    obtain ⟨start, hstart, hmirrored⟩ := Scanner.exists_mirrored hsource
    refine ⟨_, hstart, fun number => ?_⟩
    obtain ⟨reached, hadvanced, hlast⟩ := hmirrored.advanced number
    exact ⟨_, hadvanced, hlast.occurs, (Scanner.advanced_ofSource source number).1,
      Scanner.lineOffsets_advanced source number reached⟩
  case turns =>
    intro program tree turns
    obtain ⟨turn, hrun, hran⟩ := (Pass.steady_start source program tree).ran turns
    obtain ⟨reached, hbytes, hmirrored⟩ := compileInWords_eq hsource hrun
    obtain ⟨rest, -, hscanner⟩ := hran.follows
    have hturn : (turn.bytes reached).pass.scanner = turn.pass.scanner.bytes reached := by
      cases turn <;> rfl
    refine ⟨_, hbytes, ?_, ?_⟩
    · rw [hturn]
      exact hmirrored.occurs
    · rw [hturn, hscanner]
      exact Scanner.lineOffsets_advanced source _ reached
  case ends =>
    intro program tree
    obtain ⟨turns, last, error, -, hrun, hends⟩ := (Pass.steady_start source program tree).ends
    obtain ⟨reached, hbytes, -⟩ := compileInWords_eq hsource hrun
    exact ⟨turns, _, error, hbytes, Pass.report_of_ends hends⟩
  case constants => exact fun _ hmem hkind => parseWord?_of_constant hmem hkind
  case inRange => exact compile_ne_integerOutOfRange source
  case recorded => exact recordTree_ne_notRecorded source

theorem short_sources_never_abort_of_loop :
    loopSource.utf8ByteSize < offsetLimit - 1 ∧ NeverAborts loopSource :=
  ⟨by decide, short_sources_never_abort (by decide)⟩

end Scanning

end JackLang
