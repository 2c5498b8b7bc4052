import JackLang.Proofs.Acceptance
import JackLang.Proofs.Reading.Progress

/-! # Where the tokens leave the grammar

A syntax error is found at the first token that no unit goes on with: the tokens
in front of it are the first words of a unit, and together with it they are not.
The error points at this token and tells what was found there.
-/

set_option autoImplicit false

namespace JackLang

/-- Carrying out steps ends as the reading does, or earlier at an action that is
not allowed. -/
theorem followAfter_failure (steps : List Step) (events : List Event) (context : Context)
    (failure : Option Failure) :
    (followAfter events context failure steps).failure = failure ∨
      ∃ error, (followAfter events context failure steps).failure = some (.static error) := by
  induction steps generalizing events context with
  | nil => exact .inl rfl
  | cons step rest ih =>
      cases step with
      | opened rule | closed rule | took token => exact ih (_ :: events) context
      | act action =>
          rcases heffect : context.perform action with ⟨added, next, error⟩
          cases error with
          | none => simpa only [followAfter, heffect] using ih (added.reverseAux events) next
          | some error => exact .inr ⟨error, by simp [followAfter, heffect]⟩

theorem CompileError.eq_failure_of_or {refused unclosed : Option OutputKind}
    {cause : Option Failure} {failure : Failure}
    (h : ((refused.map unwritable).or (cause.map CompileError.failure)).or
      (unclosed.map unwritable) = some (.failure failure)) : cause = some failure := by
  cases refused <;> cases cause <;> cases unclosed <;> simp_all

/-- Whatever the sinks take, a failure of a compilation is that of its transcript. -/
theorem failure_of_error {source : String} {program : Sink} {tree : Option Sink}
    {failure : Failure} (h : (compile source program tree).error = some (.failure failure)) :
    (Transcript.ofSource source).failure = some failure := by
  exact CompileError.eq_failure_of_or h

theorem head?_append_of_head? {first : String} {c : Char} (h : first.toList.head? = some c)
    (second : String) : (first ++ second).toList.head? = some c := by
  rw [String.toList_append, List.head?_append, h]
  rfl

theorem LexicalError.head?_message (error : LexicalError) :
    error.message.toList.head? ≠ some 'E' := by
  cases error <;> decide

/-- The character that a message starts with. -/
def StaticError.initial : StaticError → Char
  | .undeclared _ => 'U'
  | .redeclared _ => '\''
  | .tooManyVariables _ _ => 'T'
  | .tooManyArguments _ => 'T'
  | .integerOutOfRange _ => 'I'
  | .stringTooLong _ => 'S'
  | .noCharacterCode _ _ => 'C'

theorem StaticError.head?_message (error : StaticError) :
    error.message.toList.head? = some error.initial := by
  cases error with
  | undeclared name | redeclared name | tooManyArguments first | noCharacterCode c constant =>
      exact head?_append_of_head? (head?_append_of_head? rfl _) _
  | tooManyVariables kind name =>
      have hkind : (toString "Too many " ++ toString kind.text).toList.head? = some 'T' :=
        head?_append_of_head? (by decide) _
      exact head?_append_of_head? (head?_append_of_head? (head?_append_of_head? hkind _) _) _
  | integerOutOfRange constant =>
      have hmessage : LexicalError.integerOutOfRange.message.toList.head? = some 'I' := by decide
      exact hmessage
  | stringTooLong constant =>
      have hmessage : "String constant is too long.".toList.head? = some 'S' := by decide
      exact hmessage

theorem StaticError.head?_message_ne (error : StaticError) :
    error.message.toList.head? ≠ some 'E' := by
  rw [head?_message]
  cases error <;> simp [initial]

theorem CompileError.head?_unwritable (kind : OutputKind) :
    (unwritable kind).diagnostic.message.toList.head? ≠ some 'E' := by
  cases kind <;> decide

/-- Only where the tokens leave the grammar does the message tell what was expected. -/
theorem CompileError.exists_unexpected {error : CompileError}
    (h : "Expected ".toList <+: error.diagnostic.message.toList) :
    ∃ expected found, error = .failure (.unexpected expected found) := by
  have hhead : error.diagnostic.message.toList.head? = some 'E' := by
    obtain ⟨rest, hrest⟩ := h
    rw [← hrest]
    rfl
  cases error with
  | unwritable kind => exact absurd hhead (head?_unwritable kind)
  | failure cause =>
      cases cause with
      | unexpected expected found => exact ⟨expected, found, rfl⟩
      | lexical error found => exact absurd hhead error.head?_message
      | static error => exact absurd hhead error.head?_message_ne

theorem readUnit_of_unexpected {tokens : List Token} {expected : Expectation} {found : Token}
    (h : (Transcript.ofTokens tokens).failure = some (.unexpected expected found)) :
    (readUnit tokens).verdict = .unexpected expected found := by
  rcases followAfter_failure (readUnit tokens).steps [] .initial
      (readUnit tokens).verdict.failure? with hfailure | ⟨error, hfailure⟩
  · rw [Transcript.ofTokens, hfailure] at h
    cases hverdict : (readUnit tokens).verdict <;> rw [hverdict] at h <;> cases h
    rfl
  · rw [Transcript.ofTokens, hfailure] at h
    cases h

/-- No unit goes on with a token that is refused. -/
theorem not_prefix_of_refused {front : List Token} {found : Token} {next : Progress}
    {expected : Expectation} {steps : List Step}
    (h : Progress.initial.take? front = some next) (hvalid : found.kind.isInvalid = false)
    (hsettle : settle found next.number next.steps next.goals = .refused expected steps)
    (unit : ClassUnit) {last : Word} (hlast : last.kind = .endOfFile) :
    ¬(front ++ [found]).map Token.word <+: unit.words ++ [last] := by
  rintro ⟨more, hmore⟩
  -- the unit is read to its end, but its reading starts like the one that is refused
  have hlastToken : last.token.kind = .endOfFile := hlast
  have hsame : (front ++ found :: more.map Word.token).map Token.word =
      (unit.words.map Word.token ++ [last.token]).map Token.word := by
    simpa [Function.comp_def] using hmore
  have hread := readUnit_bare_congr hsame
  rw [readUnit_eq_read, Progress.read_of_refused h hvalid hsettle,
    unit.readUnit_words hlastToken] at hread
  exact absurd (congrArg Reading.verdict hread) (by simp [Reading.moved, Verdict.moved])

/-- The tokens in front of another one do not end the file. -/
theorem TokenStream.prefix_pending {stream : TokenStream} {front rest : List Token}
    {found : Token} (h : stream.toList = front ++ found :: rest) : front <+: stream.pending := by
  have hpending := congrArg List.dropLast h
  rw [toList, List.dropLast_concat, List.dropLast_append_of_ne_nil (by simp)] at hpending
  exact hpending ▸ List.prefix_append _ _

def missingNameSource : String := "class Main \x7b field int \x7d"

theorem missingNameSource_fails :
    (compile missingNameSource (.working "") none).error =
      some (.failure (.unexpected .variableName ⟨.symbol .rightBrace, "\x7d", ⟨23, 24⟩⟩)) := by
  decide +kernel

/-- A message of what was expected comes with the first token at which the source
leaves the grammar. -/
theorem compile_blames_first_unviable_token (source : String) (program : Sink)
    (tree : Option Sink) {error : CompileError}
    (h : (compile source program tree).error = some error)
    (hmessage : "Expected ".toList <+: error.diagnostic.message.toList) :
    ∃ front found rest,
      (TokenStream.ofSource source).toList = front ++ found :: rest ∧
      (∃ unit : ClassUnit, front.map Token.word <+: unit.words) ∧
      (∀ (unit : ClassUnit) (last : Word), last.kind = .endOfFile →
        ¬(front ++ [found]).map Token.word <+: unit.words ++ [last]) ∧
      error.diagnostic.label = some ⟨found.span,
        if found.kind = .endOfFile then "found end of file"
        else "found '" ++ found.lexeme ++ "'"⟩ := by
  obtain ⟨expected, found, rfl⟩ := CompileError.exists_unexpected hmessage
  have hverdict := readUnit_of_unexpected (failure_of_error h)
  obtain ⟨front, others, next, htokens, htake, hstops⟩ :=
    Progress.initial.exists_stops (TokenStream.ofSource source).toList
  rw [← readUnit_eq_read] at hstops
  generalize hreading : readUnit (TokenStream.ofSource source).toList = reading at hstops
  rw [hreading] at hverdict
  cases hstops with
  | finished => cases hverdict
  | invalid rest hkind => cases hverdict
  | refused rest hvalid hsettle =>
      cases hverdict
      refine ⟨front, found, rest, htokens, ?_, ?_, ?_⟩
      · exact exists_prefix_of_take? (fun token hmem => TokenStream.regular_of_mem
          ((TokenStream.prefix_pending htokens).subset hmem)) htake
      · intro unit last hlast
        exact not_prefix_of_refused htake hvalid hsettle unit hlast
      · have hnote : found.foundNote = if found.kind = .endOfFile then "found end of file"
            else "found '" ++ found.lexeme ++ "'" := rfl
        rw [← hnote]
        rfl

theorem compile_blames_first_unviable_token_of_missingName :
    (compile missingNameSource (.working "") none).error =
        some (.failure (.unexpected .variableName ⟨.symbol .rightBrace, "\x7d", ⟨23, 24⟩⟩)) ∧
      "Expected ".toList <+: "Expected variable name.".toList ∧
      ∃ front found rest,
        (TokenStream.ofSource missingNameSource).toList = front ++ found :: rest ∧
        (∃ unit : ClassUnit, front.map Token.word <+: unit.words) ∧
        (∀ (unit : ClassUnit) (last : Word), last.kind = .endOfFile →
          ¬(front ++ [found]).map Token.word <+: unit.words ++ [last]) ∧
        some (Label.mk ⟨23, 24⟩ "found '\x7d'") = some ⟨found.span,
          if found.kind = .endOfFile then "found end of file"
          else "found '" ++ found.lexeme ++ "'"⟩ :=
  have hmessage : "Expected ".toList <+: "Expected variable name.".toList := by decide
  ⟨missingNameSource_fails, hmessage,
    compile_blames_first_unviable_token missingNameSource (.working "") none
      missingNameSource_fails hmessage⟩

end JackLang
