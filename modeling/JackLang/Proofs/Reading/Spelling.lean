import JackLang.Proofs.Reading.Declarations
import JackLang.Proofs.Token.Regular

/-! # Tokens that are read are a sentence

What a goal can spell are the words that a reading can take for it. They are
described by derivation trees: the words of a phrase complete those that are
already taken to the words of some tree. Settling goals in front of a token
never takes a word that they cannot spell, so tokens that are accepted are the
words of a unit.
-/

set_option autoImplicit false

namespace JackLang

def Phrase.Spells (words : List Word) : Phrase → Prop
  | .classVariables =>
      ∃ declarations : List ClassVariables, words = declarations.flatMap ClassVariables.words
  | .moreNames _ _ => ∃ names, words = moreNameWords names
  | .subroutines =>
      ∃ subroutines : List Subroutine, words = subroutines.flatMap Subroutine.words
  | .resultType => ∃ result, words = [resultWord result]
  | .parameters => ∃ parameters, words = parameterWords parameters
  | .moreParameters => ∃ parameters, words = moreParameterWords parameters
  | .locals => ∃ groups, words = localWords groups
  | .statements => ∃ statements : Statements, words = statements.words
  | .moreStatements => ∃ statements : Statements, words = statements.words
  | .letRest _ =>
      ∀ target, ∃ statement : Statement,
        statement.words = .keyword .let :: .identifier target :: words
  | .ifRest => ∃ statement : Statement, statement.words = .keyword .if :: words
  | .elseRest =>
      ∀ (condition : Expression) (first : Statements), ∃ statement : Statement,
        statement.words = (Statement.conditional condition first).words ++ words
  | .whileRest => ∃ statement : Statement, statement.words = .keyword .while :: words
  | .returnRest => ∃ statement : Statement, statement.words = .keyword .return :: words
  | .expression => ∃ expression : Expression, words = expression.words
  | .operators => ∀ first : Expression, ∃ whole : Expression, whole.words = first.words ++ words
  | .term => ∃ term : Term, words = term.words
  | .termBody => ∃ term : Term, words = term.words
  | .afterName _ => ∀ name, ∃ term : Term, term.words = .identifier name :: words
  | .call _ => ∀ name, ∃ call : Call, call.words = .identifier name :: words
  | .arguments _ => ∃ arguments : Arguments, words = arguments.words ++ [.symbol .rightParen]
  | .argument _ _ =>
      ∃ (argument : Expression) (more : List Word), words = argument.words ++ more ∧
        ∀ list : ArgumentList, ∃ whole : ArgumentList,
          whole.words ++ [.symbol .rightParen] = list.words ++ more
  | .moreArguments _ _ =>
      ∀ list : ArgumentList, ∃ whole : ArgumentList,
        whole.words ++ [.symbol .rightParen] = list.words ++ words

def NameRole.Spells (words : List Word) : NameRole → Prop
  | .className => ∃ name, words = [.identifier name]
  | .declared _ _ => ∃ name names, words = .identifier name :: moreNameWords names
  | .parameter _ =>
      ∃ name parameters, words = .identifier name :: moreParameterWords parameters
  | .subroutine _ =>
      ∀ kind result, ∃ subroutine : Subroutine,
        subroutine.words = .keyword (SubroutineKind.keyword kind) :: resultWord result :: words
  | .letTarget => ∃ statement : Statement, statement.words = .keyword .let :: words
  | .doCallee => ∃ call : Call, words = call.words
  | .member _ =>
      ∀ receiver, ∃ call : Call,
        call.words = .identifier receiver :: .symbol .dot :: words

def TypeRole.Spells (words : List Word) : TypeRole → Prop
  | .declared _ => ∃ group : VariableGroup, group.words = words ++ [.symbol .semicolon]
  | .parameter =>
      ∃ (first : Parameter) (others : List Parameter), words = parameterWords (first :: others)
  | .result => ∃ type : TypeName, words = [type.word]

def Goal.Spells (words : List Word) : Goal → Prop
  | .token kind _ =>
      ∃ word : Word, word.kind = kind ∧ (kind ≠ .endOfFile → word.Regular) ∧ words = [word]
  | .shift => ∃ word, words = [word]
  | .name role => role.Spells words
  | .type role => role.Spells words
  | .opening _ => words = []
  | .closing _ => words = []
  | .act _ => words = []
  | .phrase spelled => spelled.Spells words

def SpellsAll : List Goal → List Word → Prop
  | [], words => words = []
  | goal :: rest, words =>
      ∃ first others, words = first ++ others ∧ goal.Spells first ∧ SpellsAll rest others

section Spells

variable {words : List Word} {goals : List Goal}

@[simp] theorem spellsAll_nil : SpellsAll [] words ↔ words = [] := Iff.rfl

theorem spellsAll_cons (goal : Goal) :
    SpellsAll (goal :: goals) words ↔
      ∃ first others, words = first ++ others ∧ goal.Spells first ∧ SpellsAll goals others :=
  Iff.rfl

theorem spellsAll_append (front : List Goal) :
    SpellsAll (front ++ goals) words ↔
      ∃ first others, words = first ++ others ∧ SpellsAll front first ∧
        SpellsAll goals others := by
  induction front generalizing words with
  | nil =>
      constructor
      · intro hwords
        exact ⟨[], words, rfl, rfl, hwords⟩
      · rintro ⟨first, others, rfl, rfl, hothers⟩
        exact hothers
  | cons goal rest ih =>
      simp only [List.cons_append, spellsAll_cons, ih]
      constructor
      · rintro ⟨first, _, rfl, hfirst, second, others, rfl, hsecond, hothers⟩
        exact ⟨first ++ second, others, (List.append_assoc ..).symm,
          ⟨first, second, rfl, hfirst, hsecond⟩, hothers⟩
      · rintro ⟨_, others, rfl, ⟨first, second, rfl, hfirst, hsecond⟩, hothers⟩
        exact ⟨first, second ++ others, List.append_assoc .., hfirst, second, others, rfl,
          hsecond, hothers⟩

/-- A goal that takes no word leaves all of them to the goals behind it. -/
theorem spellsAll_silent {goal : Goal} (h : ∀ first, goal.Spells first ↔ first = []) :
    SpellsAll (goal :: goals) words ↔ SpellsAll goals words := by
  constructor
  · rintro ⟨first, others, rfl, hfirst, hothers⟩
    rw [(h first).mp hfirst]
    exact hothers
  · intro hwords
    exact ⟨[], words, rfl, (h []).mpr rfl, hwords⟩

@[simp] theorem spellsAll_opening (rule : Rule) :
    SpellsAll (.opening rule :: goals) words ↔ SpellsAll goals words :=
  spellsAll_silent fun _ => Iff.rfl

@[simp] theorem spellsAll_closing (rule : Rule) :
    SpellsAll (.closing rule :: goals) words ↔ SpellsAll goals words :=
  spellsAll_silent fun _ => Iff.rfl

@[simp] theorem spellsAll_act (action : Action) :
    SpellsAll (.act action :: goals) words ↔ SpellsAll goals words :=
  spellsAll_silent fun _ => Iff.rfl

@[simp] theorem spellsAll_emit (instruction : Instruction) :
    SpellsAll (.emit instruction :: goals) words ↔ SpellsAll goals words :=
  spellsAll_act _

@[simp] theorem spellsAll_shift :
    SpellsAll (.shift :: goals) words ↔
      ∃ word others, words = word :: others ∧ SpellsAll goals others := by
  constructor
  · rintro ⟨_, others, rfl, ⟨word, rfl⟩, hothers⟩
    exact ⟨word, others, rfl, hothers⟩
  · rintro ⟨word, others, rfl, hothers⟩
    exact ⟨[word], others, rfl, ⟨word, rfl⟩, hothers⟩

@[simp] theorem spellsAll_symbol (mark : Symbol) (expected : Expectation) :
    SpellsAll (.symbol mark expected :: goals) words ↔
      ∃ others, words = .symbol mark :: others ∧ SpellsAll goals others := by
  constructor
  · rintro ⟨_, others, rfl, ⟨word, hkind, hregular, rfl⟩, hothers⟩
    have hword : word = .symbol mark := by
      simpa [Word.Regular, hkind] using hregular (by simp)
    exact ⟨others, by rw [hword]; rfl, hothers⟩
  · rintro ⟨others, rfl, hothers⟩
    exact ⟨[.symbol mark], others, rfl, ⟨.symbol mark, rfl, fun _ => rfl, rfl⟩, hothers⟩

@[simp] theorem spellsAll_keyword (reserved : Keyword) (expected : Expectation) :
    SpellsAll (.token (.keyword reserved) expected :: goals) words ↔
      ∃ others, words = .keyword reserved :: others ∧ SpellsAll goals others := by
  constructor
  · rintro ⟨_, others, rfl, ⟨word, hkind, hregular, rfl⟩, hothers⟩
    have hword : word = .keyword reserved := by
      simpa [Word.Regular, hkind] using hregular (by simp)
    exact ⟨others, by rw [hword]; rfl, hothers⟩
  · rintro ⟨others, rfl, hothers⟩
    exact ⟨[.keyword reserved], others, rfl, ⟨.keyword reserved, rfl, fun _ => rfl, rfl⟩,
      hothers⟩

@[simp] theorem spellsAll_name (role : NameRole) :
    SpellsAll (.name role :: goals) words ↔
      ∃ first others, words = first ++ others ∧ role.Spells first ∧ SpellsAll goals others :=
  Iff.rfl

@[simp] theorem spellsAll_type (role : TypeRole) :
    SpellsAll (.type role :: goals) words ↔
      ∃ first others, words = first ++ others ∧ role.Spells first ∧ SpellsAll goals others :=
  Iff.rfl

@[simp] theorem spellsAll_phrase (spelled : Phrase) :
    SpellsAll (.phrase spelled :: goals) words ↔
      ∃ first others, words = first ++ others ∧ spelled.Spells first ∧
        SpellsAll goals others :=
  Iff.rfl

end Spells

/-- Goals in front of a look-ahead can spell the words, of which it is the first
one if there is one. -/
structure Continues (look : Token) (goals : List Goal) (words : List Word) : Prop where
  regular : look.kind ≠ .endOfFile → look.word.Regular
  starts : ∀ word ∈ words.head?, word = look.word
  spells : SpellsAll goals words

namespace Continues

variable {look : Token} {number : Nat} {goals : List Goal} {words : List Word}

theorem word_keyword (h : Continues look goals words) {reserved : Keyword}
    (hkind : look.kind = .keyword reserved) : look.word = .keyword reserved := by
  have hregular := h.regular (by simp [hkind])
  simpa [Word.Regular, Token.word, hkind] using hregular

theorem word_symbol (h : Continues look goals words) {mark : Symbol}
    (hkind : look.kind = .symbol mark) : look.word = .symbol mark := by
  have hregular := h.regular (by simp [hkind])
  simpa [Word.Regular, Token.word, hkind] using hregular

/-- Goals that start with the look-ahead. -/
theorem shift (h : Continues look (.shift :: goals) words) :
    ∃ others, words = look.word :: others ∧ SpellsAll goals others := by
  obtain ⟨word, others, rfl, hothers⟩ := spellsAll_shift.mp h.spells
  exact ⟨others, by rw [h.starts word rfl], hothers⟩

/-- Goals that take the look-ahead and nothing else. -/
theorem single (h : Continues look (.shift :: goals) words)
    (hsilent : ∀ others, SpellsAll goals others ↔ others = []) : words = [look.word] := by
  obtain ⟨others, rfl, hothers⟩ := h.shift
  rw [(hsilent others).mp hothers]

theorem opening {rule : Rule} (h : Continues look (.opening rule :: goals) words) :
    Continues look goals words :=
  ⟨h.regular, h.starts, (spellsAll_opening rule).mp h.spells⟩

theorem act {action : Action} (h : Continues look (.act action :: goals) words) :
    Continues look goals words :=
  ⟨h.regular, h.starts, (spellsAll_act action).mp h.spells⟩

/-- A declaration is its keyword and a group of variables. -/
theorem declaration {rule : Rule} {kind : VariableKind} {more : Phrase}
    (h : Continues look (Phrase.declaration rule kind more) words) :
    ∃ (group : VariableGroup) (others : List Word),
      words = look.word :: group.words ++ others ∧ more.Spells others := by
  obtain ⟨_, rfl, hrest⟩ := h.opening.shift
  simp only [spellsAll_type, spellsAll_symbol, spellsAll_closing, spellsAll_phrase,
    spellsAll_nil] at hrest
  obtain ⟨front, _, rfl, ⟨group, hgroup⟩, _, rfl, others, _, rfl, hothers, rfl⟩ := hrest
  exact ⟨group, others, by simp [hgroup], hothers⟩

/-- A statement is its keyword, the words of what is behind it, and more
statements. -/
theorem statement {rule : Rule} {inner : List Goal}
    (h : Continues look (Phrase.statement rule inner) words) :
    ∃ (front : List Word) (others : Statements),
      words = look.word :: front ++ others.words ∧ SpellsAll inner front := by
  obtain ⟨_, rfl, hrest⟩ := h.opening.shift
  obtain ⟨front, _, rfl, hfront, hothers⟩ := (spellsAll_append inner).mp hrest
  obtain ⟨_, _, rfl, ⟨others, rfl⟩, rfl⟩ := (spellsAll_closing rule).mp hothers
  exact ⟨front, others, by simp, hfront⟩

end Continues

section Expand

variable {look : Token} {number : Nat} {goals : List Goal} {words : List Word}

theorem spells_classVariables (hexpand : Phrase.classVariables.expand look number = .ok goals)
    (h : Continues look goals words) : Phrase.classVariables.Spells words := by
  simp only [Phrase.expand] at hexpand
  split at hexpand <;> cases hexpand
  · rename_i hkind
    obtain ⟨group, _, rfl, declarations, rfl⟩ := h.declaration
    exact ⟨⟨.static, group⟩ :: declarations, by
      simp [h.word_keyword hkind, ClassVariables.words, ClassVariableKind.word]⟩
  · rename_i hkind
    obtain ⟨group, _, rfl, declarations, rfl⟩ := h.declaration
    exact ⟨⟨.field, group⟩ :: declarations, by
      simp [h.word_keyword hkind, ClassVariables.words, ClassVariableKind.word]⟩
  · exact ⟨[], h.spells⟩

theorem spells_moreNames {kind : VariableKind} {type : String}
    (hexpand : (Phrase.moreNames kind type).expand look number = .ok goals)
    (h : Continues look goals words) : (Phrase.moreNames kind type).Spells words := by
  simp only [Phrase.expand] at hexpand
  split at hexpand <;> cases hexpand
  · rename_i hkind
    obtain ⟨_, rfl, _, _, rfl, ⟨name, names, rfl⟩, rfl⟩ := h.shift
    exact ⟨name :: names, by simp [h.word_symbol hkind, moreNameWords]⟩
  · exact ⟨[], h.spells⟩

theorem spells_subroutine {kind : SubroutineKind}
    (hkind : look.kind = .keyword kind.keyword)
    (h : Continues look (Phrase.subroutine kind) words) :
    Phrase.subroutines.Spells words := by
  obtain ⟨_, rfl, hrest⟩ := h.opening.shift
  simp only [spellsAll_act, spellsAll_phrase, spellsAll_name, spellsAll_nil] at hrest
  obtain ⟨_, _, rfl, ⟨result, rfl⟩, named, _, rfl, hnamed, _, _, rfl, ⟨others, rfl⟩, rfl⟩ := hrest
  obtain ⟨subroutine, hsubroutine⟩ := hnamed kind result
  exact ⟨subroutine :: others, by simp [h.word_keyword hkind, hsubroutine]⟩

theorem spells_subroutines (hexpand : Phrase.subroutines.expand look number = .ok goals)
    (h : Continues look goals words) : Phrase.subroutines.Spells words := by
  simp only [Phrase.expand] at hexpand
  split at hexpand <;> cases hexpand
  · rename_i hkind
    exact spells_subroutine hkind h
  · rename_i hkind
    exact spells_subroutine hkind h
  · rename_i hkind
    exact spells_subroutine hkind h
  · exact ⟨[], h.spells⟩

theorem spells_resultType (hexpand : Phrase.resultType.expand look number = .ok goals)
    (h : Continues look goals words) : Phrase.resultType.Spells words := by
  simp only [Phrase.expand] at hexpand
  split at hexpand <;> cases hexpand
  · rename_i hkind
    obtain ⟨_, rfl, rfl⟩ := h.shift
    exact ⟨none, by simp [h.word_keyword hkind, resultWord]⟩
  · obtain ⟨_, _, rfl, ⟨type, rfl⟩, rfl⟩ := (spellsAll_type _).mp h.spells
    exact ⟨some type, rfl⟩

theorem spells_parameters (hexpand : Phrase.parameters.expand look number = .ok goals)
    (h : Continues look goals words) : Phrase.parameters.Spells words := by
  simp only [Phrase.expand] at hexpand
  split at hexpand <;> cases hexpand
  · exact ⟨[], h.spells⟩
  · obtain ⟨_, _, rfl, ⟨first, others, rfl⟩, rfl⟩ := (spellsAll_type _).mp h.spells
    exact ⟨first :: others, by simp⟩

theorem spells_moreParameters (hexpand : Phrase.moreParameters.expand look number = .ok goals)
    (h : Continues look goals words) : Phrase.moreParameters.Spells words := by
  simp only [Phrase.expand] at hexpand
  split at hexpand <;> cases hexpand
  · rename_i hkind
    obtain ⟨_, rfl, _, _, rfl, ⟨first, others, rfl⟩, rfl⟩ := h.shift
    exact ⟨first :: others, by
      simp [h.word_symbol hkind, moreParameterWords, parameterWords]⟩
  · exact ⟨[], h.spells⟩

theorem spells_locals (hexpand : Phrase.locals.expand look number = .ok goals)
    (h : Continues look goals words) : Phrase.locals.Spells words := by
  simp only [Phrase.expand] at hexpand
  split at hexpand <;> cases hexpand
  · rename_i hkind
    obtain ⟨group, _, rfl, groups, rfl⟩ := h.declaration
    exact ⟨group :: groups, by simp [h.word_keyword hkind, localWords]⟩
  · exact ⟨[], h.spells⟩

theorem spells_moreStatements (hexpand : Phrase.moreStatements.expand look number = .ok goals)
    (h : Continues look goals words) : Phrase.moreStatements.Spells words := by
  simp only [Phrase.expand] at hexpand
  split at hexpand <;> cases hexpand
  · rename_i hkind
    obtain ⟨_, others, rfl, _, _, rfl, ⟨statement, hstatement⟩, rfl⟩ := h.statement
    exact ⟨.cons statement others, by simp [h.word_keyword hkind, hstatement]⟩
  · rename_i hkind
    obtain ⟨_, others, rfl, _, _, rfl, ⟨statement, hstatement⟩, rfl⟩ := h.statement
    exact ⟨.cons statement others, by simp [h.word_keyword hkind, hstatement]⟩
  · rename_i hkind
    obtain ⟨_, others, rfl, _, _, rfl, ⟨statement, hstatement⟩, rfl⟩ := h.statement
    exact ⟨.cons statement others, by simp [h.word_keyword hkind, hstatement]⟩
  · rename_i hkind
    obtain ⟨_, others, rfl, hcall⟩ := h.statement
    simp only [spellsAll_name, spellsAll_symbol, spellsAll_emit, spellsAll_nil] at hcall
    obtain ⟨_, _, rfl, ⟨called, rfl⟩, _, rfl, rfl⟩ := hcall
    exact ⟨.cons (.call called) others, by simp [h.word_keyword hkind]⟩
  · rename_i hkind
    obtain ⟨_, others, rfl, _, _, rfl, ⟨statement, hstatement⟩, rfl⟩ := h.statement
    exact ⟨.cons statement others, by simp [h.word_keyword hkind, hstatement]⟩
  · exact ⟨.nil, by simpa using h.spells⟩

theorem spells_letRest {target : Token}
    (hexpand : (Phrase.letRest target).expand look number = .ok goals)
    (h : Continues look goals words) : (Phrase.letRest target).Spells words := by
  intro name
  simp only [Phrase.expand, Phrase.assignment] at hexpand
  split at hexpand <;> cases hexpand
  · rename_i hkind
    obtain ⟨_, rfl, hrest⟩ := h.act.shift
    simp only [spellsAll_act, spellsAll_phrase, spellsAll_symbol, spellsAll_emit,
      spellsAll_nil] at hrest
    obtain ⟨_, _, rfl, ⟨index, rfl⟩, _, rfl, _, rfl, _, _, rfl, ⟨value, rfl⟩, _, rfl, rfl⟩ :=
      hrest
    exact ⟨.assignElement name index value, by simp [h.word_symbol hkind]⟩
  · have hspells := h.spells
    simp only [spellsAll_act, spellsAll_phrase, spellsAll_symbol, spellsAll_nil] at hspells
    obtain ⟨_, rfl, _, _, rfl, ⟨value, rfl⟩, _, rfl, rfl⟩ := hspells
    exact ⟨.assign name value, by simp⟩

/-- What a condition and the block behind it can spell. -/
theorem spells_condition {expected : Expectation} {inner : List Goal}
    (h : SpellsAll (Goal.condition expected ++ inner) words) :
    ∃ (condition : Expression) (others : List Word),
      words = .symbol .leftParen :: condition.words ++ .symbol .rightParen :: others ∧
        SpellsAll inner others := by
  simp only [Goal.condition, List.cons_append, List.nil_append, spellsAll_symbol,
    spellsAll_phrase] at h
  obtain ⟨_, rfl, _, _, rfl, ⟨condition, rfl⟩, others, rfl, hothers⟩ := h
  exact ⟨condition, others, by simp, hothers⟩

theorem spells_block {inner : List Goal} (h : SpellsAll (Goal.block ++ inner) words) :
    ∃ (body : Statements) (others : List Word),
      words = .symbol .leftBrace :: body.words ++ .symbol .rightBrace :: others ∧
        SpellsAll inner others := by
  simp only [Goal.block, List.cons_append, List.nil_append, spellsAll_symbol,
    spellsAll_phrase] at h
  obtain ⟨_, rfl, _, _, rfl, ⟨body, rfl⟩, others, rfl, hothers⟩ := h
  exact ⟨body, others, by simp, hothers⟩

theorem spells_ifRest (hexpand : Phrase.ifRest.expand look number = .ok goals)
    (h : Continues look goals words) : Phrase.ifRest.Spells words := by
  cases hexpand
  have hspells := h.spells
  simp only [Phrase.conditional, List.cons_append, List.append_assoc, spellsAll_act] at hspells
  obtain ⟨condition, _, rfl, hbody⟩ := spells_condition hspells
  simp only [List.nil_append, spellsAll_emit] at hbody
  obtain ⟨body, _, rfl, hrest⟩ := spells_block hbody
  simp only [spellsAll_emit, spellsAll_phrase, spellsAll_nil] at hrest
  obtain ⟨_, _, rfl, helse, rfl⟩ := hrest
  obtain ⟨statement, hstatement⟩ := helse condition body
  exact ⟨statement, by simp [hstatement]⟩

theorem spells_elseRest (hexpand : Phrase.elseRest.expand look number = .ok goals)
    (h : Continues look goals words) : Phrase.elseRest.Spells words := by
  intro condition first
  simp only [Phrase.expand] at hexpand
  split at hexpand <;> cases hexpand
  · rename_i hkind
    obtain ⟨_, rfl, hrest⟩ := h.shift
    rw [← List.append_nil Goal.block] at hrest
    obtain ⟨second, _, rfl, rfl⟩ := spells_block hrest
    exact ⟨.alternative condition first second, by simp [h.word_keyword hkind]⟩
  · rw [spellsAll_nil.mp h.spells]
    exact ⟨.conditional condition first, (List.append_nil _).symm⟩

theorem spells_whileRest (hexpand : Phrase.whileRest.expand look number = .ok goals)
    (h : Continues look goals words) : Phrase.whileRest.Spells words := by
  cases hexpand
  have hspells := h.spells
  simp only [Phrase.loop, List.cons_append, List.append_assoc, spellsAll_act,
    spellsAll_emit] at hspells
  obtain ⟨condition, _, rfl, hbody⟩ := spells_condition hspells
  simp only [List.nil_append, spellsAll_emit] at hbody
  obtain ⟨body, _, rfl, hrest⟩ := spells_block hbody
  simp only [spellsAll_emit, spellsAll_nil] at hrest
  subst hrest
  exact ⟨.loop condition body, by simp⟩

theorem spells_returnRest (hexpand : Phrase.returnRest.expand look number = .ok goals)
    (h : Continues look goals words) : Phrase.returnRest.Spells words := by
  cases hexpand
  have hspells := h.spells
  split at hspells
  · simp only [spellsAll_emit, spellsAll_symbol, spellsAll_nil] at hspells
    obtain ⟨_, rfl, rfl⟩ := hspells
    exact ⟨.returnNothing, by simp⟩
  · simp only [spellsAll_phrase, spellsAll_emit, spellsAll_symbol, spellsAll_nil] at hspells
    obtain ⟨_, _, rfl, ⟨value, rfl⟩, _, rfl, rfl⟩ := hspells
    exact ⟨.returnValue value, by simp⟩

theorem spells_statements (hexpand : Phrase.statements.expand look number = .ok goals)
    (h : Continues look goals words) : Phrase.statements.Spells words := by
  cases hexpand
  obtain ⟨_, _, rfl, ⟨statements, rfl⟩, rfl⟩ := h.opening.spells
  exact ⟨statements, by simp⟩

theorem spells_expression (hexpand : Phrase.expression.expand look number = .ok goals)
    (h : Continues look goals words) : Phrase.expression.Spells words := by
  cases hexpand
  have hspells := h.opening.spells
  simp only [spellsAll_phrase, spellsAll_closing, spellsAll_nil] at hspells
  obtain ⟨_, _, rfl, ⟨term, rfl⟩, others, _, rfl, hothers, rfl⟩ := hspells
  obtain ⟨whole, hwhole⟩ := hothers (.single term)
  exact ⟨whole, by simp [hwhole]⟩

theorem spells_operators (hexpand : Phrase.operators.expand look number = .ok goals)
    (h : Continues look goals words) : Phrase.operators.Spells words := by
  intro first
  simp only [Phrase.expand] at hexpand
  split at hexpand <;> cases hexpand
  · rename_i operator hkind
    have hword := h.word_symbol (BinaryOperator.ofKind?_eq_some_iff.mp hkind)
    obtain ⟨_, rfl, hrest⟩ := h.shift
    simp only [spellsAll_phrase, spellsAll_emit, spellsAll_nil] at hrest
    obtain ⟨_, _, rfl, ⟨term, rfl⟩, others, _, rfl, hothers, rfl⟩ := hrest
    obtain ⟨whole, hwhole⟩ := hothers (.operate first operator term)
    exact ⟨whole, by simp [hwhole, hword]⟩
  · rw [spellsAll_nil.mp h.spells]
    exact ⟨first, (List.append_nil _).symm⟩

theorem spells_term (hexpand : Phrase.term.expand look number = .ok goals)
    (h : Continues look goals words) : Phrase.term.Spells words := by
  cases hexpand
  have hspells := h.opening.spells
  simp only [spellsAll_phrase, spellsAll_closing, spellsAll_nil] at hspells
  obtain ⟨_, _, rfl, ⟨term, rfl⟩, rfl⟩ := hspells
  exact ⟨term, by simp⟩

theorem spells_termBody (hexpand : Phrase.termBody.expand look number = .ok goals)
    (h : Continues look goals words) : Phrase.termBody.Spells words := by
  simp only [Phrase.expand, Phrase.startTerm] at hexpand
  split at hexpand <;> cases hexpand
  all_goals rename_i hkind
  · rw [h.single (by simp)]
    exact ⟨.integer look.lexeme, by simp [Token.word, hkind]⟩
  · rw [h.single (by simp)]
    exact ⟨.string look.lexeme, by simp [Token.word, hkind]⟩
  · rw [h.single (by simp)]
    exact ⟨.trueConstant, by simp [h.word_keyword hkind]⟩
  · rw [h.single (by simp)]
    exact ⟨.falseConstant, by simp [h.word_keyword hkind]⟩
  · rw [h.single (by simp)]
    exact ⟨.nullConstant, by simp [h.word_keyword hkind]⟩
  · rw [h.single (by simp)]
    exact ⟨.thisConstant, by simp [h.word_keyword hkind]⟩
  · obtain ⟨_, rfl, _, _, rfl, ⟨inner, rfl⟩, hrest⟩ := h.shift
    simp only [spellsAll_symbol, spellsAll_nil] at hrest
    obtain ⟨_, rfl, rfl⟩ := hrest
    exact ⟨.parenthesized inner, by simp [h.word_symbol hkind]⟩
  · obtain ⟨_, rfl, _, _, rfl, ⟨operand, rfl⟩, hrest⟩ := h.shift
    rw [spellsAll_emit, spellsAll_nil] at hrest
    exact ⟨.unary .neg operand, by simp [h.word_symbol hkind, hrest, UnaryOperator.symbol]⟩
  · obtain ⟨_, rfl, _, _, rfl, ⟨operand, rfl⟩, hrest⟩ := h.shift
    rw [spellsAll_emit, spellsAll_nil] at hrest
    exact ⟨.unary .not operand, by simp [h.word_symbol hkind, hrest, UnaryOperator.symbol]⟩
  · obtain ⟨_, rfl, others, _, rfl, hothers, rfl⟩ := h.shift
    obtain ⟨term, hterm⟩ := hothers look.lexeme
    exact ⟨term, by simp [hterm, Token.word, hkind, Word.identifier]⟩

theorem spells_call {called : String}
    (hexpand : (Phrase.call called).expand look number = .ok goals)
    (h : Continues look goals words) : (Phrase.call called).Spells words := by
  intro name
  simp only [Phrase.expand] at hexpand
  split at hexpand <;> cases hexpand
  · rename_i hkind
    obtain ⟨_, rfl, hrest⟩ := h.shift
    simp only [spellsAll_emit, spellsAll_phrase, spellsAll_nil] at hrest
    obtain ⟨_, _, rfl, ⟨arguments, rfl⟩, rfl⟩ := hrest
    exact ⟨.own name arguments, by simp [h.word_symbol hkind]⟩
  · rename_i hkind
    obtain ⟨_, rfl, _, _, rfl, hmember, rfl⟩ := h.shift
    obtain ⟨call, hcall⟩ := hmember name
    exact ⟨call, by simp [h.word_symbol hkind, hcall]⟩

theorem Call.exists_term (call : Call) : ∃ term : Term, term.words = call.words := by
  cases call with
  | own name arguments => exact ⟨.ownCall name arguments, by simp⟩
  | member receiver name arguments => exact ⟨.memberCall receiver name arguments, by simp⟩

theorem spells_afterName {read : Token}
    (hexpand : (Phrase.afterName read).expand look number = .ok goals)
    (h : Continues look goals words) : (Phrase.afterName read).Spells words := by
  intro name
  simp only [Phrase.expand] at hexpand
  split at hexpand <;> cases hexpand
  · rename_i hkind
    obtain ⟨_, rfl, hrest⟩ := h.act.shift
    simp only [spellsAll_act, spellsAll_phrase, spellsAll_symbol, spellsAll_emit,
      spellsAll_nil] at hrest
    obtain ⟨_, _, rfl, ⟨index, rfl⟩, _, rfl, rfl⟩ := hrest
    exact ⟨.element name index, by simp [h.word_symbol hkind]⟩
  · obtain ⟨_, _, rfl, hcall, rfl⟩ := h.spells
    obtain ⟨call, hwords⟩ := hcall name
    obtain ⟨term, hterm⟩ := call.exists_term
    exact ⟨term, by simp [hterm, hwords]⟩
  · obtain ⟨_, _, rfl, hcall, rfl⟩ := h.spells
    obtain ⟨call, hwords⟩ := hcall name
    obtain ⟨term, hterm⟩ := call.exists_term
    exact ⟨term, by simp [hterm, hwords]⟩
  · rw [spellsAll_nil.mp ((spellsAll_act _).mp h.spells)]
    exact ⟨.name name, by simp⟩

theorem spells_callEnd {callee : Callee} {count : Nat}
    (h : SpellsAll (Goal.callEnd callee count) words) : words = [.symbol .rightParen] := by
  simp only [Goal.callEnd, spellsAll_closing, spellsAll_symbol, spellsAll_act,
    spellsAll_nil] at h
  obtain ⟨_, rfl, rfl⟩ := h
  rfl

theorem spells_arguments {callee : Callee}
    (hexpand : (Phrase.arguments callee).expand look number = .ok goals)
    (h : Continues look goals words) : (Phrase.arguments callee).Spells words := by
  simp only [Phrase.expand] at hexpand
  split at hexpand <;> cases hexpand
  · exact ⟨.none, by simpa using spells_callEnd h.opening.spells⟩
  · obtain ⟨_, _, rfl, ⟨argument, more, rfl, hmore⟩, rfl⟩ := h.opening.spells
    obtain ⟨list, hlist⟩ := hmore (.single argument)
    exact ⟨.some list, by simp [hlist]⟩

theorem spells_argument {callee : Callee} {count : Nat}
    (hexpand : (Phrase.argument callee count).expand look number = .ok goals)
    (h : Continues look goals words) : (Phrase.argument callee count).Spells words := by
  cases hexpand
  have hspells := h.act.spells
  simp only [spellsAll_phrase, spellsAll_nil] at hspells
  obtain ⟨_, _, rfl, ⟨argument, rfl⟩, more, _, rfl, hmore, rfl⟩ := hspells
  exact ⟨argument, more, by simp, hmore⟩

theorem spells_moreArguments {callee : Callee} {count : Nat}
    (hexpand : (Phrase.moreArguments callee count).expand look number = .ok goals)
    (h : Continues look goals words) : (Phrase.moreArguments callee count).Spells words := by
  intro list
  simp only [Phrase.expand] at hexpand
  split at hexpand <;> cases hexpand
  · rename_i hkind
    obtain ⟨_, rfl, _, _, rfl, ⟨argument, more, rfl, hmore⟩, rfl⟩ := h.shift
    obtain ⟨whole, hwhole⟩ := hmore (.append list argument)
    exact ⟨whole, by simp [hwhole, h.word_symbol hkind]⟩
  · rw [spells_callEnd h.spells]
    exact ⟨list, rfl⟩

/-- A phrase can spell what the goals that replace it can spell. -/
theorem spells_of_expand {replaced : Phrase} (hexpand : replaced.expand look number = .ok goals)
    (h : Continues look goals words) : replaced.Spells words := by
  cases replaced with
  | classVariables => exact spells_classVariables hexpand h
  | moreNames kind type => exact spells_moreNames hexpand h
  | subroutines => exact spells_subroutines hexpand h
  | resultType => exact spells_resultType hexpand h
  | parameters => exact spells_parameters hexpand h
  | moreParameters => exact spells_moreParameters hexpand h
  | locals => exact spells_locals hexpand h
  | statements => exact spells_statements hexpand h
  | moreStatements => exact spells_moreStatements hexpand h
  | letRest target => exact spells_letRest hexpand h
  | ifRest => exact spells_ifRest hexpand h
  | elseRest => exact spells_elseRest hexpand h
  | whileRest => exact spells_whileRest hexpand h
  | returnRest => exact spells_returnRest hexpand h
  | expression => exact spells_expression hexpand h
  | operators => exact spells_operators hexpand h
  | term => exact spells_term hexpand h
  | termBody => exact spells_termBody hexpand h
  | afterName name => exact spells_afterName hexpand h
  | call name => exact spells_call hexpand h
  | arguments callee => exact spells_arguments hexpand h
  | argument callee count => exact spells_argument hexpand h
  | moreArguments callee count => exact spells_moreArguments hexpand h

end Expand

end JackLang
