import JackLang.Proofs.Compilation.RenamedUnits
import JackLang.Proofs.PartialPrograms
import JackLang.Proofs.Token.Respelling

/-! # Names of variables do not matter

A source that compiles still does if one of its variables gets a name that is new to it,
where it is declared and everywhere it is used. The program is the same.
-/

set_option autoImplicit false

namespace JackLang

theorem Word.Printable.notKeyword {word : Word} (h : word.Printable)
    (hkind : word.kind = .identifier) (reserved : Keyword) : word.lexeme ≠ reserved.text := by
  cases h with
  | @identifier first rest hfirst hrest hname =>
      intro htext
      apply hname reserved
      rw [← htext, Word.lexeme_identifier, String.toList_ofList]
  | _ => cases hkind

theorem Word.Renamed.respells {old new : String} {word next : Word}
    (h : word.Renamed old new next) (hnew : (Word.identifier new).Printable) :
    word.Respells next := by
  rcases h with hsame | ⟨rfl, rfl⟩
  · exact .inl hsame
  · exact .inr ⟨rfl, rfl, hnew⟩

/-- The source with the name of the variable replaced by the new one, in the declaration
and in the places that stand for it. -/
def ClassUnit.renamedSource (unit : ClassUnit) (source : String) (declaration : DeclaredName)
    (new : String) : String :=
  respelled source (unit.renamed declaration new).words

theorem ClassUnit.Derives.renamed {unit : ClassUnit} {source new : String}
    (h : unit.Derives source) (declaration : DeclaredName)
    (hnew : (Word.identifier new).Printable) :
    (unit.renamed declaration new).Derives (unit.renamedSource source declaration new) := by
  apply words_of_respelled
  rw [h]
  exact (unit.words_renamed declaration new).imp fun _ _ hword => hword.respells hnew

/-- A source that compiles has a derivation. For each of them, for each variable that is
declared in it and for each identifier that is not in it, the source with this identifier
as the name of the variable compiles to the same program: its words are the same but for
the places of the name. -/
theorem compile_renamed_variable (source taken : String) (tree : Option String)
    (h : (compile source (.working taken) (tree.map .working)).error = none) :
    (∃ unit : ClassUnit, unit.Derives source) ∧
    ∀ unit : ClassUnit, unit.Derives source →
      ∀ declaration, unit.DeclaresName declaration →
        ∀ new, (Word.identifier new).Printable → Word.identifier new ∉ unit.words →
          let renamedSource := unit.renamedSource source declaration new
          (unit.renamed declaration new).Derives renamedSource ∧
          WordsRenamed declaration.name new unit.words (unit.renamed declaration new).words ∧
          (compile renamedSource (.working taken) (tree.map .working)).error = none ∧
          (compile renamedSource (.working taken)
              (tree.map .working)).writers.program.outlet.taken =
            (compile source (.working taken)
              (tree.map .working)).writers.program.outlet.taken := by
  refine ⟨exists_derives_of_failure_eq_none (failure_of_compiles source taken tree h), ?_⟩
  intro unit hderives declaration hdeclares new hprintable hnew
  have hnext := hderives.renamed declaration hprintable
  obtain ⟨hpermitted, htaken⟩ := taken_of_compiles source taken tree h hderives
  have hthis : new ≠ "this" := hprintable.notKeyword rfl .thisConstant
  obtain ⟨hcode, hstill⟩ := ClassUnit.code_renamed hderives.opens.regular hnew hthis hdeclares
  have hcompiles : (compile (unit.renamedSource source declaration new) (.working taken)
      (tree.map .working)).error = none := by
    obtain ⟨herror, _⟩ := (Transcript.ofSource
      (unit.renamedSource source declaration new)).report_of_working taken tree
    rw [compile, herror, Option.map_eq_none_iff]
    exact (ofSource_of_derives hnext).1.mpr (hstill hpermitted)
  refine ⟨hnext, unit.words_renamed declaration new, hcompiles, ?_⟩
  rw [(taken_of_compiles _ taken tree hcompiles hnext).2, htaken, hcode]

/-- A class whose subroutines use its variable `n`. The parameter of the first one hides
it. -/
def hidingSource : String :=
  "class Main \x7b static Main n; " ++
    "function int get(int n) \x7b return n; \x7d // n\n" ++
    "function void set() \x7b let n = n.n(); return; \x7d \x7d"

def hidingUnit : ClassUnit where
  name := "Main"
  declarations := [⟨.static, ⟨.named "Main", "n", []⟩⟩]
  subroutines :=
    [{ kind := .function
       result := some .int
       name := "get"
       parameters := [⟨.int, "n"⟩]
       locals := []
       body := .cons (.returnValue (.single (.name "n"))) .nil },
     { kind := .function
       result := none
       name := "set"
       parameters := []
       locals := []
       body := .cons (.assign "n" (.single (.memberCall "n" "n" .none)))
        (.cons .returnNothing .nil) }]

theorem words_hidingUnit : hidingUnit.words =
    [.keyword .class, .identifier "Main", .symbol .leftBrace, .keyword .static,
      .identifier "Main", .identifier "n", .symbol .semicolon, .keyword .function,
      .keyword .int, .identifier "get", .symbol .leftParen, .keyword .int, .identifier "n",
      .symbol .rightParen, .symbol .leftBrace, .keyword .return, .identifier "n",
      .symbol .semicolon, .symbol .rightBrace, .keyword .function, .keyword .void,
      .identifier "set", .symbol .leftParen, .symbol .rightParen, .symbol .leftBrace,
      .keyword .let, .identifier "n", .symbol .equal, .identifier "n", .symbol .dot,
      .identifier "n", .symbol .leftParen, .symbol .rightParen, .symbol .semicolon,
      .keyword .return, .symbol .semicolon, .symbol .rightBrace, .symbol .rightBrace] := by
  rw [ClassUnit.words_eq]
  simp [hidingUnit, ClassVariables.words, ClassVariableKind.word, Subroutine.words, localWords,
    VariableGroup.words, moreNameWords, parameterWords, moreParameterWords, resultWord,
    SubroutineKind.keyword, TypeName.word]

theorem derives_hiding : hidingUnit.Derives hidingSource := by
  rw [ClassUnit.Derives, words_hidingUnit]
  decide +kernel

theorem hiding_compiles : (compile hidingSource (.working "") none).error = none := by
  have hmem : "n" ∈ namesOf hidingUnit.declared := by decide
  have hdeclares : ∀ ofSubroutine,
      Surroundings.Declares ⟨"Main", hidingUnit.declared, ofSubroutine⟩ "n" := fun _ => .inr hmem
  have hpermitted : hidingUnit.Permitted := by
    refine ⟨by decide, by decide, by decide, ?_⟩
    rintro subroutine (_ | ⟨_, _ | ⟨_, hnone⟩⟩)
    · refine ⟨by decide, by decide, by decide, ?_⟩
      exact ⟨hdeclares _, trivial⟩
    · refine ⟨by decide, by decide, by decide, ?_⟩
      exact ⟨⟨hdeclares _, by decide, trivial⟩, trivial, trivial⟩
    · cases hnone
  obtain ⟨herror, _⟩ := (Transcript.ofSource hidingSource).report_of_working "" none
  rw [(ofSource_of_derives derives_hiding).1.mpr hpermitted] at herror
  exact herror

theorem printable_m : (Word.identifier "m").Printable := by
  have hname : ∀ reserved : Keyword, reserved.text.toList ≠ ['m'] := by
    intro reserved
    cases reserved <;> decide
  exact @Word.Printable.identifier 'm' [] (by decide) (by simp) hname

/-- The variable of the class by another name. The parameter that hides it, the subroutine
of its name and the comment stay. -/
def hidingSourceOfM : String :=
  "class Main \x7b static Main m; " ++
    "function int get(int n) \x7b return n; \x7d // n\n" ++
    "function void set() \x7b let m = m.n(); return; \x7d \x7d"

theorem renamedSource_hiding :
    hidingUnit.renamedSource hidingSource (.ofClass "n") "m" = hidingSourceOfM := by
  have hwords : (hidingUnit.renamed (.ofClass "n") "m").words =
      [.keyword .class, .identifier "Main", .symbol .leftBrace, .keyword .static,
        .identifier "Main", .identifier "m", .symbol .semicolon, .keyword .function,
        .keyword .int, .identifier "get", .symbol .leftParen, .keyword .int, .identifier "n",
        .symbol .rightParen, .symbol .leftBrace, .keyword .return, .identifier "n",
        .symbol .semicolon, .symbol .rightBrace, .keyword .function, .keyword .void,
        .identifier "set", .symbol .leftParen, .symbol .rightParen, .symbol .leftBrace,
        .keyword .let, .identifier "m", .symbol .equal, .identifier "m", .symbol .dot,
        .identifier "n", .symbol .leftParen, .symbol .rightParen, .symbol .semicolon,
        .keyword .return, .symbol .semicolon, .symbol .rightBrace, .symbol .rightBrace] := by
    rw [ClassUnit.words_eq]
    simp [hidingUnit, ClassVariables.words, ClassVariableKind.word, Subroutine.words, localWords,
      VariableGroup.words, moreNameWords, parameterWords, moreParameterWords, resultWord,
      SubroutineKind.keyword, TypeName.word, ClassUnit.renamed, ClassVariables.renamed,
      VariableGroup.renamed, Subroutine.withBodyRenamed, Subroutine.ownNames, Statements.renamed,
      Statement.renamed, Expression.renamed, Term.renamed, Arguments.renamed, renameTo]
  rw [ClassUnit.renamedSource, hwords]
  decide +kernel

theorem compile_renamed_variable_of_hiding :
    (compile hidingSource (.working "") none).error = none ∧ hidingUnit.Derives hidingSource ∧
      hidingUnit.DeclaresName (.ofClass "n") ∧ (Word.identifier "m").Printable ∧
      Word.identifier "m" ∉ hidingUnit.words ∧
      (compile hidingSourceOfM (.working "") none).error = none ∧
      (compile hidingSourceOfM (.working "") none).writers.program.outlet.taken =
        (compile hidingSource (.working "") none).writers.program.outlet.taken := by
  have hdeclares : hidingUnit.DeclaresName (.ofClass "n") := by
    show "n" ∈ namesOf hidingUnit.declared
    decide
  have hnew : Word.identifier "m" ∉ hidingUnit.words := by
    rw [words_hidingUnit]
    decide
  obtain ⟨_, hrenamed⟩ := compile_renamed_variable hidingSource "" none hiding_compiles
  obtain ⟨_, _, herror, htaken⟩ :=
    hrenamed _ derives_hiding (.ofClass "n") hdeclares "m" printable_m hnew
  rw [renamedSource_hiding] at herror htaken
  exact ⟨hiding_compiles, derives_hiding, hdeclares, printable_m, hnew, herror, htaken⟩

end JackLang
