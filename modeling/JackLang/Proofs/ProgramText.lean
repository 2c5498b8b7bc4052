import JackLang.Proofs.Compilation.Names
import JackLang.SourceUnit

/-! # The text of programs

A program that is written can be read back, so its text says all that it does. What is
written for a source is such a text, whole or cut short: its functions are named for the
class that the source declares, and whatever is called is named by two words.
-/

set_option autoImplicit false

namespace JackLang

section Words

theorem Word.Filler.printable {word : Word} (h : word.Filler)
    (hvalid : ∀ error, word.kind ≠ .invalid error) : word.Printable := by
  cases h with
  | keyword reserved => exact .keyword reserved
  | symbol mark => exact .symbol mark
  | name =>
      have hname : ∀ reserved : Keyword, reserved.text.toList ≠ ['x'] := by
        intro reserved
        cases reserved <;> decide
      exact @Printable.identifier 'x' [] (by decide) (by simp) hname
  | number => exact @Printable.integer ['0'] (by decide) (by simp) (by decide)
  | string => exact @Printable.string [] (by simp)
  | invalid error => exact absurd rfl (hvalid error)

/-- A source is like the beginning of a unit whose words are all valid. -/
theorem exists_opens_printable (source : String) :
    ∃ unit : ClassUnit, unit.Opens source ∧ AllPrintable unit.words := by
  obtain ⟨unit, hopens, hwords⟩ := exists_opens_of_words source
  refine ⟨unit, hopens, ?_⟩
  intro word hmem
  have hvalid := unit.inner_words.ne_invalid word hmem
  rcases hwords word hmem with hfiller | htoken
  · exact hfiller.printable hvalid
  · obtain ⟨token, hmember, rfl⟩ := List.mem_map.mp htoken
    rcases List.mem_append.mp hmember with htoken | hlast
    · have hlaidOut := (TokenStream.laidOut_iff source _).mpr rfl
      obtain ⟨_, _, _, _, _, hword⟩ := hlaidOut.exists_word token htoken
      exact hword.printable hvalid
    · refine absurd ?_ (unit.inner_words token.word hmem)
      rw [List.mem_singleton.mp hlast]
      rfl

end Words

section ClassName

/-- The steps of a reading that gives anything out start with the class and its name. -/
theorem readUnit_starts (tokens : List Token)
    (h : Context.initial.output (readUnit tokens).steps ≠ []) :
    ∃ first second rest, tokens = first :: second :: rest ∧ first.kind = .keyword .class ∧
      second.kind = .identifier ∧
      [.opened .class, .took first, .took second] <+: (readUnit tokens).steps := by
  rw [readUnit_eq_read] at h ⊢
  cases tokens with
  | nil => exact absurd rfl h
  | cons first others =>
      by_cases hclass : first.kind = .keyword .class
      · have hfirst : Progress.initial.take? [first] =
            some ⟨[.took first, .opened .class], 0, Goal.unit.tail.tail⟩ := by
          simp [Progress.initial, Progress.take?, Goal.unit, hclass, TokenKind.isInvalid]
        rw [← List.singleton_append, Progress.read_append hfirst] at h ⊢
        cases others with
        | nil => exact absurd rfl h
        | cons second rest =>
            by_cases hname : second.kind = .identifier
            · have hsecond : Progress.take?
                  ⟨[.took first, .opened .class], 0, Goal.unit.tail.tail⟩ [second] =
                  some ⟨[.took second, .took first, .opened .class], 0,
                    .act (.nameClass second.lexeme) :: Goal.unit.tail.tail.tail⟩ := by
                simp [Progress.take?, Goal.unit, hname, TokenKind.isInvalid, NameRole.next]
              refine ⟨first, second, rest, rfl, hclass, hname, ?_⟩
              have hread := Progress.read_append hsecond rest
              rw [List.singleton_append] at hread
              rw [hread]
              exact Progress.prefix_read ⟨[.took second, .took first, .opened .class], 0, _⟩ rest
            · refine absurd ?_ h
              rw [Progress.read, readAfter]
              split <;> simp [Goal.unit, hname] <;> rfl
      · refine absurd ?_ h
        rw [Progress.read, readAfter]
        split <;> simp [Progress.initial, Goal.unit, hclass] <;> rfl

/-- A unit that a source starts like has the name of the class that the source declares,
unless nothing is given out. -/
theorem ClassUnit.Opens.declaredClass? {unit : ClassUnit} {source : String}
    (h : unit.Opens source) (hne : (Transcript.ofSource source).program ≠ []) :
    SourceUnit.declaredClass? source = some unit.name := by
  rw [Transcript.ofSource, Transcript.program_ofTokens] at hne
  obtain ⟨first, second, rest, htokens, hclass, hname, hstarts⟩ := readUnit_starts _ hne
  obtain ⟨last, _, hsteps⟩ := h.starts
  have hsecond : second.lexeme = unit.name := by
    have hcourse : ∃ more, (unit.course ++ [Step.took last]).map Step.blank =
        Step.blank (.opened .class) :: Step.blank (.keyword .class) ::
          Step.blank (.identifier unit.name) :: more := ⟨_, rfl⟩
    obtain ⟨more, hcourse⟩ := hcourse
    have hsame := (hstarts.map Step.blank).trans hsteps
    rw [hcourse] at hsame
    simp only [List.map_cons, List.cons_prefix_cons] at hsame
    exact congrArg Token.lexeme (Step.took.inj hsame.2.2.1)
  generalize hpending : (TokenStream.ofSource source).pending = pending at htokens
  rw [TokenStream.toList, hpending] at htokens
  have hadvance : ∃ behind, pending = first :: second :: behind := by
    rcases pending with _ | ⟨one, _ | ⟨other, behind⟩⟩
    · cases htokens
    · cases htokens
      cases hname
    · cases htokens
      exact ⟨behind, rfl⟩
  obtain ⟨behind, rfl⟩ := hadvance
  simp [SourceUnit.declaredClass?, TokenStream.advance, TokenStream.peek, hpending, hclass, hname,
    hsecond]

end ClassName

/-- A program whose names and labels have no blanks is written as a whole, counted, and
read back from its text, whatever its operands are. What is written for a source, whether
it compiles or not, is the text of such a program: each function is named for the class
that the source declares and an identifier, and each call for two words. -/
theorem program_text_reads_back {program : List Instruction}
    (h : Instruction.AllSolid program) (source : String) (tree : Option String) :
    (∃ written closed,
      (ProgramWriter.toSink .unlimited).writeEach program = (written, true) ∧
      written.written = program.length ∧ written.flush = (closed, true) ∧
      closed.written = program.length ∧ ReadsAs closed.outlet.taken program) ∧
    ∃ given,
      ReadsAs (compile source .unlimited (tree.map .working)).writers.program.outlet.taken
        given ∧
      (∀ name locals, .function name locals ∈ given → ∃ className own,
        SourceUnit.declaredClass? source = some className ∧
        (Word.identifier className).Printable ∧ (Word.identifier own).Printable ∧
        name = className ++ "." ++ own) ∧
      ∀ name count, .call name count ∈ given → IsQualified name := by
  constructor
  · obtain ⟨written, closed, hwritten, hcount, hclosed, hstill, htaken⟩ :=
      ProgramWriter.writeEach_toSink program
    exact ⟨written, closed, hwritten, hcount, hclosed, hstill, htaken ▸ listing_readsAs h⟩
  · obtain ⟨unit, hopens, hprintable⟩ := exists_opens_printable source
    have hname := (ClassUnit.allPrintable_words.mp hprintable).1
    have hnamed : AllNamed unit.name (Transcript.ofSource source).program :=
      fun instruction hmem =>
        ClassUnit.named_code hprintable instruction (hopens.program_prefix.1.subset hmem)
    obtain ⟨_, htaken⟩ := (Transcript.ofSource source).report_of_working "" tree
    rw [String.empty_append] at htaken
    refine ⟨(Transcript.ofSource source).program, ?_, ?_, ?_⟩
    · have hreads := listing_readsAs (hnamed.allSolid (.of_identifier hname))
      rw [← htaken] at hreads
      exact hreads
    · intro name locals hmem
      obtain ⟨own, hown, rfl⟩ := hnamed _ hmem
      exact ⟨unit.name, own, hopens.declaredClass? (List.ne_nil_of_mem hmem), hname, hown, rfl⟩
    · exact fun name count hmem => hnamed _ hmem

/-- Names that look like an opcode, a segment and a number. -/
def lookalikes : List Instruction :=
  [.label "push", .function "constant" 0, .call "7" 65535, .ifGoto "if-goto"]

/-- A method of a number is called, and behind the call the text ends. -/
def cutShortSource : String := "class Main \x7b function int get(int n) \x7b do n.next();"

theorem lookalikes_read_back :
    Instruction.AllSolid lookalikes ∧
    (∃ written closed,
      (ProgramWriter.toSink .unlimited).writeEach lookalikes = (written, true) ∧
      written.flush = (closed, true) ∧ ReadsAs closed.outlet.taken lookalikes) ∧
    ∃ given,
      ReadsAs (compile cutShortSource .unlimited none).writers.program.outlet.taken given ∧
      ∀ name count, .call name count ∈ given → IsQualified name := by
  have hsolid : Instruction.AllSolid lookalikes := by
    simp only [Instruction.AllSolid, lookalikes, Instruction.name?, List.forall_mem_cons,
      Option.some.injEq, forall_eq']
    decide
  obtain ⟨⟨written, closed, hwritten, _, hclosed, _, hreads⟩, given, hgiven, _, hcalls⟩ :=
    program_text_reads_back hsolid cutShortSource none
  exact ⟨hsolid, ⟨written, closed, hwritten, hclosed, hreads⟩, given, hgiven, hcalls⟩

end JackLang
