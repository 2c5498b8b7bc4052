import JackLang.Proofs.Compilation.OwnCalls
import JackLang.Proofs.Compilation.Stops
import JackLang.Proofs.Output.Limited
import JackLang.Proofs.ProgramText

/-! # The class that a source declares

The first two tokens of a source tell the class that it declares, and what is compiled is
a class of this name: its functions are named for it, and so is what is called without a
qualifier, also where the program is cut short. A source that declares no class does not
compile, and nothing is given out for it.
-/

set_option autoImplicit false

namespace JackLang

section Declared

variable {source : String} {unit : ClassUnit}

/-- A unit that a source derives has the name of the class that the source declares. -/
theorem ClassUnit.Derives.declaredClass? (h : unit.Derives source) :
    SourceUnit.declaredClass? source = some unit.name := by
  rw [Derives, unit.words_eq] at h
  obtain ⟨first, others, hpending, hfirst, hothers⟩ := List.map_eq_cons_iff.mp h
  obtain ⟨second, behind, rfl, hsecond, _⟩ := List.map_eq_cons_iff.mp hothers
  have hclass : first.kind = .keyword .class := congrArg Word.kind hfirst
  have hname : second.kind = .identifier := congrArg Word.kind hsecond
  have hlexeme : second.lexeme = unit.name := congrArg Word.lexeme hsecond
  simp [SourceUnit.declaredClass?, TokenStream.advance, TokenStream.peek, hpending, hclass, hname,
    hlexeme]

theorem program_eq_nil_of_undeclared (h : SourceUnit.declaredClass? source = none) :
    (Transcript.ofSource source).program = [] := by
  by_contra hne
  obtain ⟨unit, hopens⟩ := exists_opens source
  rw [hopens.declaredClass? hne] at h
  cases h

theorem failure_of_undeclared (h : SourceUnit.declaredClass? source = none) :
    (Transcript.ofSource source).failure ≠ none := by
  intro hfailure
  obtain ⟨unit, hderives⟩ := exists_derives_of_failure_eq_none hfailure
  rw [hderives.declaredClass?] at h
  cases h

end Declared

section Names

variable {source : String} {unit : ClassUnit}

/-- The program is that of a class of the given name: functions are named for the class and
an identifier, and behind each call without a qualifier follows the call of the class and
the identifier that is called. -/
structure Transcript.NamedFor (transcript : Transcript) (className : String) : Prop where
  functions : ∀ name locals, .function name locals ∈ transcript.program →
    ∃ own, (Word.identifier own).Printable ∧ name = className ++ "." ++ own
  ownCalls : ∀ front close next back own,
    transcript.events = front ++ .leaf close :: next :: back →
    EndsInOwnCall (wordsShown (front ++ [.leaf close])) own →
    (Word.identifier own).Printable ∧
      ∃ count, next = .emitted (.call (className ++ "." ++ own) count)

theorem printable_of_mem_words (source : String) {name : String}
    (h : .identifier name ∈ (TokenStream.ofSource source).toList.map Token.word) :
    (Word.identifier name).Printable := by
  obtain ⟨token, htoken, hword⟩ := List.mem_map.mp h
  rcases List.mem_append.mp htoken with hpending | hlast
  · have hlaidOut := (TokenStream.laidOut_iff source _).mpr rfl
    obtain ⟨_, _, _, _, _, hspelled⟩ := hlaidOut.exists_word token hpending
    have hkind : token.kind = .identifier := congrArg Word.kind hword
    have hlexeme : token.lexeme = name := congrArg Word.lexeme hword
    rw [hkind, hlexeme] at hspelled
    exact hspelled.printable nofun
  · rw [List.mem_singleton.mp hlast] at hword
    cases hword

/-- The words that are shown are those of the first tokens. -/
theorem wordsShown_ofSource (source : String) :
    wordsShown (Transcript.ofSource source).events =
      ((TokenStream.ofSource source).toList.take
        (Transcript.ofSource source).lookAhead).map Token.word := by
  have hmap : ∀ steps, wordsTaken steps = (tokensTaken steps).map Token.word := by
    intro steps
    rw [wordsTaken, tokensTaken, List.map_filterMap]
    congr 1
    funext step
    cases step <;> rfl
  rw [wordsShown, Transcript.ofSource, Transcript.shown_ofTokens, wordsTaken_shape, hmap,
    Transcript.tokensTaken_ofTokens]

theorem ClassUnit.Opens.answered (h : unit.Opens source) :
    OpenCalls.start.Answered unit.name (Transcript.ofSource source).events :=
  answered_followAfter _ rfl h.follow?

/-- A name that is called without a qualifier is among the words. -/
theorem EndsInOwnCall.name_mem {words : List Word} {name : String}
    (h : EndsInOwnCall words name) : .identifier name ∈ words := by
  obtain ⟨front, before, inner, rfl, _⟩ := h
  simp

/-- Whatever a source starts like, its program is named for it. -/
theorem ClassUnit.Opens.namedFor (h : unit.Opens source) (hwords : AllPrintable unit.words) :
    (Transcript.ofSource source).NamedFor unit.name where
  functions _ _ hmem := named_code hwords _ (h.program_prefix.1.subset hmem)
  ownCalls front close next back own hevents hends := by
    have hanswered := h.answered
    rw [hevents] at hanswered
    have hshown : .identifier own ∈ wordsShown (Transcript.ofSource source).events := by
      rw [hevents, List.append_cons, wordsShown_append]
      exact List.mem_append_left _ hends.name_mem
    rw [wordsShown_ofSource] at hshown
    have hword := ((List.take_sublist _ _).map Token.word).subset hshown
    exact ⟨printable_of_mem_words source hword, hanswered.next_of_endsInOwnCall hends⟩

end Names

/-- What a working sink takes is the text of the program, and the words that are shown on
the way are the first of the source. If there is any instruction, the source declares a
class, and the program is named for it, whether the source compiles or not. What compiles
declares a class. What declares none does not compile, and nothing is given out for it. -/
theorem program_named_for_declared_class (source taken : String) (tree : Option String) :
    let transcript := Transcript.ofSource source
    (compile source (.working taken) (tree.map .working)).writers.program.outlet.taken =
        taken ++ listing transcript.program ∧
      wordsShown transcript.events =
        ((TokenStream.ofSource source).toList.take transcript.lookAhead).map Token.word ∧
      (transcript.program ≠ [] →
        ∃ className, SourceUnit.declaredClass? source = some className ∧
          transcript.NamedFor className) ∧
      ∀ (program : Sink) (tree : Option Sink),
        ((compile source program tree).error = none →
          (SourceUnit.declaredClass? source).isSome = true) ∧
        (SourceUnit.declaredClass? source = none →
          (compile source program tree).error ≠ none ∧
          (compile source program tree).writers.program.outlet.taken = program.taken) := by
  intro transcript
  refine ⟨(transcript.report_of_working taken tree).2, wordsShown_ofSource source, ?_, ?_⟩
  · intro hne
    obtain ⟨unit, hopens, hwords⟩ := exists_opens_printable source
    exact ⟨unit.name, hopens.declaredClass? hne, hopens.namedFor hwords⟩
  · intro program tree
    have hundeclared (h : SourceUnit.declaredClass? source = none) :=
      transcript.report_error_ne_none program tree (failure_of_undeclared h)
    refine ⟨?_, ?_⟩
    · intro haccepted
      rw [Option.isSome_iff_ne_none]
      exact fun h => hundeclared h haccepted
    · intro h
      exact ⟨hundeclared h, transcript.taken_of_program_eq_nil program tree
        (program_eq_nil_of_undeclared h)⟩

/-- The file ends in a statement behind calls without a qualifier, one within the other. -/
def nestedCalls : String := "class Main \x7b method void run() \x7b do put(2 * (get(1))); let"

/-- The last parenthesis of the outer call. -/
def nestedCallsEnd : Token := ⟨.symbol .rightParen, ")", ⟨52, 53⟩⟩

/-- A subroutine without a class around it. -/
def classless : String := "function int get() \x7b return 1; \x7d"

theorem nestedCalls_events :
    (Transcript.ofSource nestedCalls).events =
      (Transcript.ofSource nestedCalls).events.take 56 ++
        .leaf nestedCallsEnd :: .emitted (.call "Main.put" 2) ::
          (Transcript.ofSource nestedCalls).events.drop 58 := by
  have hdrop : (Transcript.ofSource nestedCalls).events.drop 56 =
      .leaf nestedCallsEnd :: .emitted (.call "Main.put" 2) ::
        (Transcript.ofSource nestedCalls).events.drop 58 := by
    decide +kernel
  rw [← hdrop, List.take_append_drop]

theorem nestedCalls_endsInOwnCall :
    EndsInOwnCall (wordsShown ((Transcript.ofSource nestedCalls).events.take 56 ++
      [.leaf nestedCallsEnd])) "put" := by
  have hnumber : Matched [⟨.integerConstant, "1"⟩] := .plain nofun nofun .nil
  have hget : Matched [.identifier "get", .symbol .leftParen, ⟨.integerConstant, "1"⟩,
      .symbol .rightParen] :=
    .plain nofun nofun (.enclosed hnumber .nil)
  refine ⟨[.keyword .class, .identifier "Main", .symbol .leftBrace, .keyword .method,
      .keyword .void, .identifier "run", .symbol .leftParen, .symbol .rightParen,
      .symbol .leftBrace], .keyword .do,
    [⟨.integerConstant, "2"⟩, .symbol .star, .symbol .leftParen, .identifier "get",
      .symbol .leftParen, ⟨.integerConstant, "1"⟩, .symbol .rightParen, .symbol .rightParen],
    ?_, rfl, ?_⟩
  · decide +kernel
  · exact .plain nofun nofun (.plain nofun nofun (.enclosed hget .nil))

theorem program_named_for_declared_class_of_nestedCalls :
    (Transcript.ofSource nestedCalls).failure ≠ none ∧
      (Transcript.ofSource nestedCalls).program ≠ [] ∧
      SourceUnit.declaredClass? nestedCalls = some "Main" ∧
      (Transcript.ofSource nestedCalls).NamedFor "Main" ∧
      (Word.identifier "put").Printable ∧
      SourceUnit.declaredClass? classless = none ∧
      (compile classless (.working "") (some (.working ""))).error ≠ none ∧
      (compile classless (.working "") (some (.working ""))).writers.program.outlet.taken =
        "" := by
  have hfails : (Transcript.ofSource nestedCalls).failure ≠ none := by decide +kernel
  have hne : (Transcript.ofSource nestedCalls).program ≠ [] := by decide +kernel
  have hclass : SourceUnit.declaredClass? nestedCalls = some "Main" := by decide +kernel
  have hclassless : SourceUnit.declaredClass? classless = none := by decide +kernel
  obtain ⟨className, hdeclared, hnamed⟩ :=
    (program_named_for_declared_class nestedCalls "" (some "")).2.2.1 hne
  obtain rfl : className = "Main" := Option.some.inj (hdeclared.symm.trans hclass)
  have hput := (hnamed.ownCalls _ _ _ _ _ nestedCalls_events nestedCalls_endsInOwnCall).1
  obtain ⟨herror, htaken⟩ :=
    ((program_named_for_declared_class classless "" (some "")).2.2.2 (.working "")
      (some (.working ""))).2 hclassless
  exact ⟨hfails, hne, hclass, hnamed, hput, hclassless, herror, htaken⟩

end JackLang
