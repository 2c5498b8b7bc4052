import JackLang.Proofs.Reading.Spelling

/-! # What is accepted is a sentence

Each token that is taken is the first word of what the goals in front of it can
spell. From the end of the file backwards, the tokens of an accepted reading
are therefore the words of a unit and the end of its file.
-/

set_option autoImplicit false

namespace JackLang

variable {look : Token} {words : List Word}

theorem NameRole.spells_of_next (role : NameRole) (hkind : look.kind = .identifier)
    (h : SpellsAll (role.next look) words) : role.Spells (look.word :: words) := by
  have hword : look.word = .identifier look.lexeme := by
    simp [Token.word, hkind, Word.identifier]
  rw [hword]
  cases role with
  | className =>
      simp only [next, spellsAll_act, spellsAll_nil] at h
      exact ⟨look.lexeme, by rw [h]⟩
  | declared kind type =>
      simp only [next, spellsAll_act, spellsAll_phrase, spellsAll_nil] at h
      obtain ⟨_, _, rfl, ⟨names, rfl⟩, rfl⟩ := h
      exact ⟨look.lexeme, names, by simp⟩
  | parameter type =>
      simp only [next, spellsAll_act, spellsAll_phrase, spellsAll_nil] at h
      obtain ⟨_, _, rfl, ⟨parameters, rfl⟩, rfl⟩ := h
      exact ⟨look.lexeme, parameters, by simp⟩
  | subroutine kind =>
      intro kind result
      simp only [next, Goal.subroutine, spellsAll_act, spellsAll_opening, spellsAll_closing,
        spellsAll_symbol, spellsAll_phrase, spellsAll_nil] at h
      obtain ⟨_, rfl, _, _, rfl, ⟨parameters, rfl⟩, _, rfl, _, rfl, _, _, rfl, ⟨groups, rfl⟩,
        _, _, rfl, ⟨body, rfl⟩, _, rfl, rfl⟩ := h
      exact ⟨⟨kind, result, look.lexeme, parameters, groups, body⟩, by
        simp [Subroutine.words]⟩
  | letTarget =>
      obtain ⟨_, _, rfl, hrest, rfl⟩ := h
      obtain ⟨statement, hwords⟩ := hrest look.lexeme
      exact ⟨statement, by simp [hwords]⟩
  | doCallee =>
      obtain ⟨_, _, rfl, hcall, rfl⟩ := h
      obtain ⟨call, hwords⟩ := hcall look.lexeme
      exact ⟨call, by simp [hwords]⟩
  | member receiver =>
      intro receiver
      simp only [next, spellsAll_act, spellsAll_symbol, spellsAll_phrase, spellsAll_nil] at h
      obtain ⟨_, rfl, _, _, rfl, ⟨arguments, rfl⟩, rfl⟩ := h
      exact ⟨.member receiver look.lexeme arguments, by simp⟩

theorem exists_typeName (hkind : look.kind.isType = true) (hregular : look.word.Regular) :
    ∃ type : TypeName, look.word = type.word := by
  obtain ⟨kind, lexeme, span⟩ := look
  simp only [Token.word] at hkind hregular ⊢
  unfold TokenKind.isType at hkind
  split at hkind
  · exact ⟨.int, hregular⟩
  · exact ⟨.char, hregular⟩
  · exact ⟨.boolean, hregular⟩
  · exact ⟨.named lexeme, rfl⟩
  · cases hkind

theorem TypeRole.spells_of_next (role : TypeRole) {type : TypeName} {text : String}
    (h : SpellsAll (role.next text) words) : role.Spells (type.word :: words) := by
  cases role with
  | declared kind =>
      obtain ⟨_, _, rfl, ⟨name, names, rfl⟩, rfl⟩ := h
      exact ⟨⟨type, name, names⟩, by simp [VariableGroup.words]⟩
  | parameter =>
      obtain ⟨_, _, rfl, ⟨name, parameters, rfl⟩, rfl⟩ := h
      exact ⟨⟨type, name⟩, parameters, by simp [parameterWords]⟩
  | result =>
      exact ⟨type, by rw [spellsAll_nil.mp h]⟩

/-- Settling goals takes a word that they can spell: what is spelled behind it
continues them. -/
theorem spells_of_settle {number number' : Nat} {steps steps' : List Step}
    {goals goals' : List Goal} (hregular : look.kind ≠ .endOfFile → look.word.Regular)
    (hsettle : settle look number steps goals = .taken goals' number' steps')
    (h : SpellsAll goals' words) : SpellsAll goals (look.word :: words) := by
  fun_induction settle look number steps goals with
  | case1 => cases hsettle
  | case2 number steps expected rest =>
      cases hsettle
      exact ⟨[look.word], words, rfl, ⟨look.word, rfl, hregular, rfl⟩, h⟩
  | case3 => cases hsettle
  | case4 number steps rest =>
      cases hsettle
      exact spellsAll_shift.mpr ⟨look.word, words, rfl, h⟩
  | case5 number steps role rest hkind =>
      cases hsettle
      obtain ⟨named, others, rfl, hnamed, hothers⟩ := (spellsAll_append _).mp h
      exact ⟨look.word :: named, others, rfl, role.spells_of_next hkind hnamed, hothers⟩
  | case6 => cases hsettle
  | case7 number steps role rest hkind =>
      cases hsettle
      have hword : look.word.Regular := by
        apply hregular
        intro heof
        simp [heof, TokenKind.isType] at hkind
      obtain ⟨type, htype⟩ := exists_typeName hkind hword
      obtain ⟨typed, others, rfl, htyped, hothers⟩ := (spellsAll_append _).mp h
      exact ⟨look.word :: typed, others, rfl, by rw [htype]; exact role.spells_of_next htyped,
        hothers⟩
  | case8 => cases hsettle
  | case9 number steps rule rest ih => exact (spellsAll_opening rule).mpr (ih hsettle)
  | case10 number steps rule rest ih => exact (spellsAll_closing rule).mpr (ih hsettle)
  | case11 number steps action rest ih => exact (spellsAll_act action).mpr (ih hsettle)
  | case12 number steps replaced rest goals hexpand ih =>
      obtain ⟨first, others, hwords, hfirst, hothers⟩ := (spellsAll_append _).mp (ih hsettle)
      refine ⟨first, others, hwords, spells_of_expand hexpand ⟨hregular, ?_, hfirst⟩, hothers⟩
      intro word hword
      cases first with
      | nil => cases hword
      | cons head tail =>
          cases hword
          exact (List.cons.inj hwords).1.symm
  | case13 => cases hsettle

def Expression.zero : Expression := .single (.integer "0")

/-- The words that are put in for what is left to be read. -/
inductive Word.Filler : Word → Prop
  | keyword (reserved : Keyword) : Filler (.keyword reserved)
  | symbol (mark : Symbol) : Filler (.symbol mark)
  | name : Filler (.identifier "x")
  | number : Filler ⟨.integerConstant, "0"⟩
  | string : Filler ⟨.stringConstant, ""⟩
  | invalid (error : LexicalError) : Filler ⟨.invalid error, ""⟩

attribute [simp] Word.Filler.keyword Word.Filler.symbol Word.Filler.name Word.Filler.number

theorem Word.Filler.regular {word : Word} (h : word.Filler) : word.Regular := by
  cases h with
  | keyword reserved | symbol mark => rfl
  | name =>
      have hname : Keyword.ofText? "x" = none := by decide
      exact hname
  | number =>
      have hvalue : decimalValue "0".toList ≤ maxConstant := by decide
      exact hvalue
  | string | invalid error => trivial

theorem Phrase.exists_spells (spelled : Phrase) :
    ∃ words, spelled.Spells words ∧ ∀ word ∈ words, word.Filler := by
  cases spelled with
  | classVariables | moreNames kind type | subroutines | parameters | moreParameters | locals =>
      exact ⟨_, ⟨[], rfl⟩, List.forall_mem_nil _⟩
  | resultType => exact ⟨_, ⟨none, rfl⟩, by simp [resultWord]⟩
  | statements | moreStatements => exact ⟨_, ⟨.nil, rfl⟩, by simp⟩
  | letRest target =>
      exact ⟨_, fun name => ⟨.assign name .zero, Statement.words_assign name .zero⟩,
        by simp [Expression.zero]⟩
  | ifRest =>
      exact ⟨_, ⟨.conditional .zero .nil, Statement.words_conditional .zero .nil⟩,
        by simp [Expression.zero]⟩
  | elseRest =>
      exact ⟨[], fun condition first =>
        ⟨.conditional condition first, (List.append_nil _).symm⟩, List.forall_mem_nil _⟩
  | whileRest =>
      exact ⟨_, ⟨.loop .zero .nil, Statement.words_loop .zero .nil⟩, by simp [Expression.zero]⟩
  | returnRest => exact ⟨_, ⟨.returnNothing, Statement.words_returnNothing⟩, by simp⟩
  | expression => exact ⟨_, ⟨.zero, rfl⟩, by simp [Expression.zero]⟩
  | operators =>
      exact ⟨[], fun first => ⟨first, (List.append_nil _).symm⟩, List.forall_mem_nil _⟩
  | term | termBody => exact ⟨_, ⟨.trueConstant, rfl⟩, by simp⟩
  | afterName name =>
      exact ⟨[], fun name => ⟨.name name, Term.words_name name⟩, List.forall_mem_nil _⟩
  | call name =>
      exact ⟨_, fun name => ⟨.own name .none, Call.words_own name .none⟩, by simp⟩
  | arguments callee => exact ⟨_, ⟨.none, rfl⟩, by simp⟩
  | argument callee count =>
      exact ⟨_, ⟨.zero, [.symbol .rightParen], rfl, fun list => ⟨list, rfl⟩⟩,
        by simp [Expression.zero]⟩
  | moreArguments callee count =>
      exact ⟨[.symbol .rightParen], fun list => ⟨list, rfl⟩, by simp⟩

theorem NameRole.exists_spells (role : NameRole) :
    ∃ words, role.Spells words ∧ ∀ word ∈ words, word.Filler := by
  cases role with
  | className => exact ⟨_, ⟨"x", rfl⟩, by simp⟩
  | declared kind type => exact ⟨_, ⟨"x", [], rfl⟩, by simp [moreNameWords]⟩
  | parameter type => exact ⟨_, ⟨"x", [], rfl⟩, by simp [moreParameterWords]⟩
  | subroutine kind =>
      exact ⟨[.identifier "x", .symbol .leftParen, .symbol .rightParen, .symbol .leftBrace,
        .symbol .rightBrace], fun kind result => ⟨⟨kind, result, "x", [], [], .nil⟩, rfl⟩,
        by simp⟩
  | letTarget =>
      exact ⟨_, ⟨.assign "x" .zero, Statement.words_assign "x" .zero⟩, by simp [Expression.zero]⟩
  | doCallee => exact ⟨_, ⟨.own "x" .none, rfl⟩, by simp⟩
  | member receiver =>
      exact ⟨_, fun receiver =>
        ⟨.member receiver "x" .none, Call.words_member receiver "x" .none⟩, by simp⟩

theorem TypeRole.exists_spells (role : TypeRole) :
    ∃ words, role.Spells words ∧ ∀ word ∈ words, word.Filler := by
  cases role with
  | declared kind =>
      exact ⟨[.keyword .int, .identifier "x"], ⟨⟨.int, "x", []⟩, rfl⟩, by simp⟩
  | parameter =>
      exact ⟨parameterWords [⟨.int, "x"⟩], ⟨⟨.int, "x"⟩, [], rfl⟩,
        by simp [parameterWords, moreParameterWords, TypeName.word]⟩
  | result => exact ⟨[.keyword .int], ⟨.int, rfl⟩, by simp⟩

theorem TokenKind.exists_word (kind : TokenKind) :
    ∃ word : Word, word.kind = kind ∧ (kind ≠ .endOfFile → word.Filler) := by
  cases kind with
  | keyword reserved => exact ⟨.keyword reserved, rfl, fun _ => .keyword reserved⟩
  | symbol mark => exact ⟨.symbol mark, rfl, fun _ => .symbol mark⟩
  | identifier => exact ⟨.identifier "x", rfl, fun _ => .name⟩
  | integerConstant => exact ⟨⟨.integerConstant, "0"⟩, rfl, fun _ => .number⟩
  | stringConstant => exact ⟨⟨.stringConstant, ""⟩, rfl, fun _ => .string⟩
  | invalid error => exact ⟨⟨.invalid error, ""⟩, rfl, fun _ => .invalid error⟩
  | endOfFile => exact ⟨⟨.endOfFile, ""⟩, rfl, fun h => absurd rfl h⟩

/-- Whatever goals are left, there are words that they can spell. -/
theorem exists_spellsAll (goals : List Goal) :
    ∃ words, SpellsAll goals words ∧
      ∀ word ∈ words, word.kind ≠ .endOfFile → word.Filler := by
  induction goals with
  | nil => exact ⟨[], rfl, by simp⟩
  | cons goal rest ih =>
      obtain ⟨others, hothers, hfilled⟩ := ih
      have hgoal : ∃ words, goal.Spells words ∧
          ∀ word ∈ words, word.kind ≠ .endOfFile → word.Filler := by
        cases goal with
        | token kind expected =>
            obtain ⟨word, hkind, hword⟩ := kind.exists_word
            exact ⟨[word], ⟨word, hkind, fun hne => (hword hne).regular, rfl⟩,
              by simpa [hkind] using hword⟩
        | shift => exact ⟨[.symbol .dot], ⟨.symbol .dot, rfl⟩, by simp⟩
        | name role =>
            obtain ⟨words, hspells, hwords⟩ := role.exists_spells
            exact ⟨words, hspells, fun word hmem _ => hwords word hmem⟩
        | type role =>
            obtain ⟨words, hspells, hwords⟩ := role.exists_spells
            exact ⟨words, hspells, fun word hmem _ => hwords word hmem⟩
        | phrase spelled =>
            obtain ⟨words, hspells, hwords⟩ := spelled.exists_spells
            exact ⟨words, hspells, fun word hmem _ => hwords word hmem⟩
        | opening rule | closing rule | act action => exact ⟨[], rfl, by simp⟩
      obtain ⟨first, hfirst, hfirstFilled⟩ := hgoal
      refine ⟨first ++ others, ⟨first, others, rfl, hfirst, hothers⟩, ?_⟩
      intro word hmem
      rcases List.mem_append.mp hmem with hmem | hmem
      · exact hfirstFilled word hmem
      · exact hfilled word hmem

/-- Tokens that are accepted can be spelled by the goals, as far as they go. -/
theorem spells_of_readAfter {tokens : List Token} {steps : List Step} {number : Nat}
    {goals : List Goal}
    (hregular : ∀ token ∈ tokens, token.kind ≠ .endOfFile → token.word.Regular)
    (h : (readAfter steps number goals tokens).verdict = .accepted) :
    ∃ words, SpellsAll goals (tokens.map Token.word ++ words) := by
  induction tokens generalizing steps number goals with
  | nil =>
      obtain ⟨words, hwords, _⟩ := exists_spellsAll goals
      exact ⟨words, hwords⟩
  | cons look rest ih =>
      rw [readAfter] at h
      split at h
      · cases h
      · split at h
        · rename_i goals' number' steps' hsettle
          have hrest := fun token hmem => hregular token (.tail look hmem)
          obtain ⟨words, hwords⟩ := ih hrest h
          exact ⟨words, spells_of_settle (hregular look (.head rest)) hsettle hwords⟩
        · cases h

theorem spells_unit {words : List Word} (h : SpellsAll Goal.unit words) :
    ∃ (unit : ClassUnit) (last : Word),
      words = unit.words ++ [last] ∧ last.kind = .endOfFile := by
  simp only [Goal.unit, spellsAll_opening, spellsAll_closing, spellsAll_keyword,
    spellsAll_name, spellsAll_symbol, spellsAll_phrase] at h
  obtain ⟨_, rfl, _, _, rfl, ⟨name, rfl⟩, _, rfl, _, _, rfl, ⟨declarations, rfl⟩, _, _, rfl,
    ⟨subroutines, rfl⟩, _, rfl, _, _, rfl, ⟨last, hlast, _, rfl⟩, rfl⟩ := h
  exact ⟨⟨name, declarations, subroutines⟩, last, by simp [ClassUnit.words_eq], hlast⟩

/-- Whether all of the words are tokens of the language. -/
def Inner (words : List Word) : Prop := ∀ word ∈ words, word.kind.tokenClass ≠ .auxiliary

namespace TokenKind

@[simp] theorem tokenClass_keyword (reserved : Keyword) :
    (keyword reserved).tokenClass = .keyword := rfl

@[simp] theorem tokenClass_symbol (mark : Symbol) : (symbol mark).tokenClass = .symbol := rfl

@[simp] theorem tokenClass_identifier : identifier.tokenClass = .identifier := rfl

@[simp] theorem tokenClass_integerConstant :
    integerConstant.tokenClass = .integerConstant := rfl

@[simp] theorem tokenClass_stringConstant : stringConstant.tokenClass = .stringConstant := rfl

end TokenKind

@[simp] theorem inner_nil : Inner [] := by simp [Inner]

@[simp] theorem inner_cons (word : Word) (words : List Word) :
    Inner (word :: words) ↔ word.kind.tokenClass ≠ .auxiliary ∧ Inner words := by
  simp [Inner]

@[simp] theorem inner_append (first second : List Word) :
    Inner (first ++ second) ↔ Inner first ∧ Inner second := by
  simp [Inner, or_imp, forall_and]

@[simp] theorem inner_flatMap {α : Type} (items : List α) (words : α → List Word) :
    Inner (items.flatMap words) ↔ ∀ item ∈ items, Inner (words item) := by
  simp only [Inner, List.mem_flatMap]
  exact ⟨fun h item hitem word hword => h word ⟨item, hitem, hword⟩,
    fun h word ⟨item, hitem, hword⟩ => h item hitem word hword⟩

mutual

theorem Expression.inner_words : ∀ expression : Expression, Inner expression.words
  | .single term => by simpa using term.inner_words
  | .operate first _ last => by simpa using ⟨first.inner_words, last.inner_words⟩

theorem Term.inner_words : ∀ term : Term, Inner term.words
  | .integer _ | .string _ | .trueConstant | .falseConstant | .nullConstant | .thisConstant
  | .name _ => by simp
  | .parenthesized inner => by simpa using inner.inner_words
  | .unary _ operand => by simpa using operand.inner_words
  | .element _ index => by simpa using index.inner_words
  | .ownCall _ arguments => by simpa using arguments.inner_words
  | .memberCall _ _ arguments => by simpa using arguments.inner_words

theorem Arguments.inner_words : ∀ arguments : Arguments, Inner arguments.words
  | .none => by simp
  | .some list => by simpa using list.inner_words

theorem ArgumentList.inner_words : ∀ list : ArgumentList, Inner list.words
  | .single argument => by simpa using argument.inner_words
  | .append list last => by simpa using ⟨list.inner_words, last.inner_words⟩

end

theorem Call.inner_words (call : Call) : Inner call.words := by
  cases call with
  | own name arguments => simpa using arguments.inner_words
  | member receiver name arguments => simpa using arguments.inner_words

mutual

theorem Statement.inner_words : ∀ statement : Statement, Inner statement.words
  | .assign _ value => by simpa using value.inner_words
  | .assignElement _ index value => by simpa using ⟨index.inner_words, value.inner_words⟩
  | .conditional condition body => by simpa using ⟨condition.inner_words, body.inner_words⟩
  | .alternative condition first second => by
      simpa using ⟨condition.inner_words, first.inner_words, second.inner_words⟩
  | .loop condition body => by simpa using ⟨condition.inner_words, body.inner_words⟩
  | .call call => by simpa using call.inner_words
  | .returnNothing => by simp
  | .returnValue value => by simpa using value.inner_words

theorem Statements.inner_words : ∀ statements : Statements, Inner statements.words
  | .nil => by simp
  | .cons first rest => by simpa using ⟨first.inner_words, rest.inner_words⟩

end

theorem TypeName.inner_word (type : TypeName) : type.word.kind.tokenClass ≠ .auxiliary := by
  cases type <;> simp [word]

theorem VariableGroup.inner_words (group : VariableGroup) : Inner group.words := by
  simp [words, moreNameWords, group.type.inner_word]

theorem Subroutine.inner_words (subroutine : Subroutine) : Inner subroutine.words := by
  have hparameters : Inner (parameterWords subroutine.parameters) := by
    cases subroutine.parameters with
    | nil => exact inner_nil
    | cons first others =>
        simp [parameterWords, moreParameterWords, TypeName.inner_word]
  have hresult : (resultWord subroutine.result).kind.tokenClass ≠ .auxiliary := by
    cases subroutine.result with
    | none => simp [resultWord]
    | some type => exact type.inner_word
  simp [words, localWords, hparameters, hresult, VariableGroup.inner_words,
    Statements.inner_words]

theorem ClassUnit.inner_words (unit : ClassUnit) : Inner unit.words := by
  have hdeclaration : ∀ declaration : ClassVariables, Inner declaration.words := by
    rintro ⟨kind, group⟩
    cases kind <;> simp [ClassVariables.words, ClassVariableKind.word, group.inner_words]
  simp [words_eq, hdeclaration, Subroutine.inner_words]

/-- Words up to the end of a file are cut off at the only place where it can be. -/
theorem words_eq_of_inner {first second others : List Word} {last final : Word}
    (h : first ++ last :: others = second ++ [final]) (hlast : last.kind = .endOfFile)
    (hsecond : Inner second) : first = second := by
  induction first generalizing second with
  | nil =>
      cases second with
      | nil => rfl
      | cons word words =>
          have hword := (List.cons.inj h).1
          have hclass := ((inner_cons word words).mp hsecond).1
          rw [← hword, hlast] at hclass
          exact absurd rfl hclass
  | cons word words ih =>
      cases second with
      | nil => simp at h
      | cons word' words' =>
          obtain ⟨hhead, htail⟩ := List.cons.inj h
          rw [hhead, ih htail ((inner_cons word' words').mp hsecond).2]

/-- Tokens that are accepted in front of the end of a file are the words of a
unit. -/
theorem exists_unit_of_accepted {tokens : List Token} {last : Token}
    (hregular : ∀ token ∈ tokens, token.word.Regular) (hlast : last.kind = .endOfFile)
    (h : (readUnit (tokens ++ [last])).verdict = .accepted) :
    ∃ unit : ClassUnit, tokens.map Token.word = unit.words := by
  have hall : ∀ token ∈ tokens ++ [last], token.kind ≠ .endOfFile → token.word.Regular := by
    intro token hmem hkind
    rcases List.mem_append.mp hmem with hmem | hmem
    · exact hregular token hmem
    · rw [List.mem_singleton.mp hmem] at hkind
      exact absurd hlast hkind
  obtain ⟨others, hothers⟩ := spells_of_readAfter hall h
  obtain ⟨unit, final, hwords, hfinal⟩ := spells_unit hothers
  rw [List.map_append, List.append_assoc] at hwords
  exact ⟨unit, words_eq_of_inner hwords hlast unit.inner_words⟩

end JackLang
