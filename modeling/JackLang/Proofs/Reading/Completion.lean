import JackLang.Proofs.Acceptance
import JackLang.Proofs.Reading.Progress

/-! # Completing what has been read

Goals that are left can be met with a token of one kind at once, leaving out all that
can be left out. A token that is refused leads up to the place where one of this kind
would have been taken, in the same steps. So a reading makes the first steps of the
course of a unit, whatever it stops at.
-/

set_option autoImplicit false

namespace JackLang

/-- The kind of token that a phrase needs, unless it can be left out. -/
def Phrase.nextKind? : Phrase → Option TokenKind
  | .classVariables => none
  | .moreNames _ _ => none
  | .subroutines => none
  | .resultType => some (.keyword .int)
  | .parameters => some (.keyword .int)
  | .moreParameters => none
  | .locals => none
  | .statements => none
  | .moreStatements => none
  | .letRest _ => some (.symbol .equal)
  | .ifRest => some (.symbol .leftParen)
  | .elseRest => none
  | .whileRest => some (.symbol .leftParen)
  | .returnRest => some .integerConstant
  | .expression => some .integerConstant
  | .operators => none
  | .term => some .integerConstant
  | .termBody => some .integerConstant
  | .afterName _ => none
  | .call _ => some (.symbol .leftParen)
  | .arguments _ => some .integerConstant
  | .argument _ _ => some .integerConstant
  | .moreArguments _ _ => some (.symbol .rightParen)

/-- The kind of the token that goals need next. -/
def nextKind : List Goal → TokenKind
  | [] => .endOfFile
  | .token kind _ :: _ => kind
  | .shift :: _ => .identifier
  | .name _ :: _ => .identifier
  | .type _ :: _ => .keyword .int
  | .opening _ :: rest => nextKind rest
  | .closing _ :: rest => nextKind rest
  | .act _ :: rest => nextKind rest
  | .phrase replaced :: rest => replaced.nextKind?.getD (nextKind rest)

/-- Whether a token of the kind ends what is in front of it. -/
def TokenKind.closes : TokenKind → Bool
  | .symbol .rightBrace => true
  | .symbol .rightParen => true
  | .symbol .rightBracket => true
  | .symbol .semicolon => true
  | _ => false

/-- Whether the end of a goal has to show in what is behind it. -/
def Goal.isOpen : Goal → Bool
  | .name .className => false
  | .name (.subroutine _) => false
  | .name _ => true
  | .type .result => false
  | .type _ => true
  | .phrase .resultType => false
  | .phrase _ => true
  | _ => false

/-- Goals of which each one that is open is closed by those behind it, up to the end of
the file. -/
def Tidy : List Goal → Prop
  | [] => False
  | .token kind _ :: rest => kind.isInvalid = false ∧ (kind = .endOfFile ∨ Tidy rest)
  | .phrase .parameters :: rest =>
      (∃ rule expected more, rest = .closing rule :: .symbol .rightParen expected :: more) ∧
        Tidy rest
  | goal :: rest => (goal.isOpen = true → (nextKind rest).closes = true) ∧ Tidy rest

theorem tidy_unit : Tidy Goal.unit := by
  simp [Goal.unit, Goal.symbol, Tidy, Goal.isOpen, nextKind, Phrase.nextKind?, TokenKind.closes]

section Tidy

variable {look : Token} {number : Nat} {goals rest : List Goal}

theorem Phrase.tidy_expand {replaced : Phrase} (h : Tidy (.phrase replaced :: rest))
    (hexpand : replaced.expand look number = .ok goals) : Tidy (goals ++ rest) := by
  cases replaced with
  | parameters =>
      obtain ⟨⟨rule, expected, more, rfl⟩, hrest⟩ := h
      simp only [expand] at hexpand
      split at hexpand <;> cases hexpand
      · exact hrest
      · exact ⟨fun _ => rfl, hrest⟩
  | termBody =>
      simp only [expand, startTerm] at hexpand
      split at hexpand <;> cases hexpand
      all_goals
        simp_all [Tidy, Goal.isOpen, nextKind, nextKind?, TokenKind.closes, Goal.symbol,
          Goal.emit]
  | letRest target =>
      simp only [expand, assignment] at hexpand
      split at hexpand <;> cases hexpand
      all_goals
        simp_all [Tidy, Goal.isOpen, nextKind, nextKind?, TokenKind.closes, Goal.symbol,
          Goal.emit]
  | _ =>
      simp only [expand] at hexpand
      repeat' split at hexpand
      all_goals simp only [Except.ok.injEq, reduceCtorEq] at hexpand
      all_goals
        subst hexpand
        simp_all [Tidy, Goal.isOpen, nextKind, nextKind?, TokenKind.closes, Goal.symbol,
          Goal.emit, Goal.callEnd, Goal.block, Goal.condition, declaration, subroutine,
          statement, conditional, loop]

theorem isInvalid_nextKind (h : Tidy goals) : (nextKind goals).isInvalid = false := by
  induction goals with
  | nil => exact h.elim
  | cons goal rest ih =>
      cases goal with
      | token kind expected => exact h.1
      | shift | name role | type role => rfl
      | opening rule | closing rule | act action => exact ih h.2
      | phrase replaced =>
          cases replaced <;> first | rfl | exact ih h.2

theorem NameRole.tidy_next {role : NameRole} (h : Tidy (.name role :: rest)) (name : Token) :
    Tidy (role.next name ++ rest) := by
  cases role <;>
    simp_all [Tidy, next, Goal.isOpen, nextKind, Phrase.nextKind?, TokenKind.closes, Goal.symbol,
      Goal.subroutine]

theorem TypeRole.tidy_next {role : TypeRole} (h : Tidy (.type role :: rest)) (type : String) :
    Tidy (role.next type ++ rest) := by
  cases role <;> simp_all [Tidy, next, Goal.isOpen]

theorem tidy_of_settle {number' : Nat} {steps steps' : List Step} {goals' : List Goal}
    (h : Tidy goals) (hsettle : settle look number steps goals = .taken goals' number' steps')
    (hlook : look.kind ≠ .endOfFile) : Tidy goals' := by
  fun_induction settle look number steps goals with
  | case1 | case3 | case6 | case8 | case13 => cases hsettle
  | case2 number steps expected rest =>
      cases hsettle
      exact h.2.resolve_left hlook
  | case4 number steps rest =>
      cases hsettle
      exact h.2
  | case5 number steps role rest hkind =>
      cases hsettle
      exact role.tidy_next h look
  | case7 number steps role rest hkind =>
      cases hsettle
      exact role.tidy_next h look.lexeme
  | case9 number steps rule rest ih | case10 number steps rule rest ih
  | case11 number steps action rest ih => exact ih h.2 hsettle
  | case12 number steps replaced rest goals hexpand ih =>
      exact ih (replaced.tidy_expand h hexpand) hsettle

end Tidy

/-- The action with the places of its tokens forgotten, and with the token that an
argument starts with. -/
def Action.blank : Action → Action
  | .argument callee count _ => .argument callee count (.endOfFile 0)
  | action => action.bare

def Step.blank : Step → Step
  | .took token => .took token.bare
  | .act ordered => .act ordered.blank
  | step => step

/-- What is settled behind steps that are already made. -/
def Settlement.behind (made : List Step) : Settlement → Settlement
  | .taken goals number steps => .taken goals number (steps ++ made)
  | .refused expected steps => .refused expected (steps ++ made)

/-- Steps that are already made have no part in what follows. -/
theorem settle_behind (look : Token) (number : Nat) (steps made : List Step)
    (goals : List Goal) :
    settle look number (steps ++ made) goals =
      (settle look number steps goals).behind made := by
  fun_induction settle look number steps goals with
  | case1 => rw [settle_nil, Settlement.behind]
  | case2 => rw [settle_token, if_pos rfl]; rfl
  | case3 _ _ _ _ _ hkind => rw [settle_token, if_neg hkind]; rfl
  | case4 => rw [settle_shift]; rfl
  | case5 _ _ _ _ hkind => rw [settle_name, if_pos hkind]; rfl
  | case6 _ _ _ _ hkind => rw [settle_name, if_neg hkind]; rfl
  | case7 _ _ _ _ hkind => rw [settle_type, if_pos hkind]; rfl
  | case8 _ _ _ _ hkind => rw [settle_type, if_neg hkind]; rfl
  | case9 _ _ _ _ ih => rwa [settle_opening]
  | case10 _ _ _ _ ih => rwa [settle_closing]
  | case11 _ _ _ _ ih => rwa [settle_act]
  | case12 _ _ _ _ _ hexpand ih => rwa [settle_phrase _ _ _ _ hexpand]
  | case13 _ _ _ _ _ hexpand => rw [settle_phrase_error _ _ _ _ hexpand]; rfl

section Refusal

variable {look word : Token} {number : Nat} {goals rest : List Goal}
variable {expected : Expectation} {steps steps' : List Step}

theorem Phrase.exists_shift_of_startTerm (h : Phrase.startTerm look = .ok goals) :
    ∃ more, goals = .shift :: more := by
  unfold startTerm at h
  split at h <;> cases h <;> exact ⟨_, rfl⟩

def Phrase.omitted : Phrase → List Goal
  | .statements => [.opening .statements, .phrase .moreStatements]
  | .moreStatements => [.closing .statements]
  | .afterName name => [.act (.load name)]
  | _ => []

theorem TokenKind.closes_iff {kind : TokenKind} :
    kind.closes = true ↔ kind = .symbol .rightBrace ∨ kind = .symbol .rightParen ∨
      kind = .symbol .rightBracket ∨ kind = .symbol .semicolon := by
  constructor
  · intro h
    unfold closes at h
    split at h <;> simp_all
  · rintro (rfl | rfl | rfl | rfl) <;> rfl

theorem Phrase.expand_of_closes {replaced : Phrase} (h : replaced.nextKind? = none)
    (hword : word.kind.closes = true) :
    replaced.expand word number = .ok replaced.omitted := by
  rcases TokenKind.closes_iff.mp hword with hkind | hkind | hkind | hkind <;>
    cases replaced <;> simp_all [nextKind?, expand, omitted, BinaryOperator.ofKind?,
      BinaryOperator.ofSymbol?]

/-- A phrase that goes on with the look-ahead takes it. -/
theorem Phrase.eq_omitted_of_refused {replaced : Phrase} {number' : Nat}
    (h : replaced.nextKind? = none) (hexpand : replaced.expand look number = .ok goals)
    (hsettle : settle look number' steps (goals ++ rest) = .refused expected steps') :
    goals = replaced.omitted := by
  cases replaced with
  | afterName name =>
      simp only [expand] at hexpand
      split at hexpand <;> cases hexpand
      · simp at hsettle
      · rename_i hkind
        have hcall : (Phrase.call name.lexeme).expand look number' =
          .ok [.shift, .emit (.push .pointer 0), .phrase (.arguments (.own name.lexeme))] := by
            simp [expand, hkind]
        simp [settle_phrase _ _ _ _ hcall] at hsettle
      · rename_i hkind
        have hcall : (Phrase.call name.lexeme).expand look number' =
          .ok [.shift, .name (.member name.lexeme)] := by
            simp [expand, hkind]
        simp [settle_phrase _ _ _ _ hcall] at hsettle
      · rfl
  | classVariables | moreNames kind type | subroutines | moreParameters | locals | statements
  | moreStatements | elseRest | operators =>
      simp only [expand] at hexpand
      repeat' split at hexpand
      all_goals cases hexpand
      all_goals
        first | rfl | simp [declaration, subroutine, statement] at hsettle
  | _ => cases h

/-- In front of a token that is refused, a phrase goes on as in front of a token of the
kind that it needs, unless it is an argument, which keeps the token. -/
theorem Phrase.expand_of_refused {replaced : Phrase} {number' : Nat}
    (h : Tidy (.phrase replaced :: rest)) (hword : word.kind = nextKind (.phrase replaced :: rest))
    (hexpand : replaced.expand look number = .ok goals)
    (hsettle : settle look number' steps (goals ++ rest) = .refused expected steps')
    (hargument : ∀ callee count, replaced ≠ .argument callee count) :
    replaced.expand word number = .ok goals ∧
      nextKind (goals ++ rest) = nextKind (.phrase replaced :: rest) := by
  cases hkind : replaced.nextKind? with
  | none =>
    rw [eq_omitted_of_refused hkind hexpand hsettle]
    have hclosed : (nextKind rest).closes = true := by
      cases replaced <;> first | exact h.1 rfl | cases hkind
    rw [nextKind, hkind, Option.getD_none] at hword ⊢
    refine ⟨expand_of_closes hkind (hword ▸ hclosed), ?_⟩
    cases replaced <;> rfl
  | some kind =>
    rw [nextKind, hkind, Option.getD_some] at hword ⊢
    cases replaced with
    | termBody =>
        obtain ⟨more, rfl⟩ := exists_shift_of_startTerm hexpand
        simp at hsettle
    | argument callee count => exact absurd rfl (hargument callee count)
    | parameters =>
        obtain ⟨⟨rule, wanted, more, rfl⟩, _⟩ := h
        simp only [expand] at hexpand
        split at hexpand <;> cases hexpand
        · rename_i hlook
          simp [Goal.symbol, hlook] at hsettle
        · cases hkind
          simp [expand, hword, nextKind]
    | letRest target =>
        simp only [expand, assignment] at hexpand
        split at hexpand <;> cases hexpand
        · simp at hsettle
        · cases hkind
          simp [expand, assignment, hword, nextKind, Goal.symbol]
    | resultType | ifRest | whileRest | returnRest | expression | term | call name
    | arguments callee | moreArguments callee count =>
        cases hkind
        simp only [expand] at hexpand
        repeat' split at hexpand
        all_goals cases hexpand
        all_goals
          simp_all [expand, nextKind, nextKind?, Goal.symbol, Goal.emit, Goal.callEnd,
            Goal.condition, conditional, loop]
    | _ => cases hkind

/-- Only a term and a call can go wrong at once, and then the token that they need
starts them. -/
theorem Phrase.exists_shift_of_error {replaced : Phrase}
    (h : replaced.expand look number = .error expected)
    (hword : word.kind = nextKind (.phrase replaced :: rest)) :
    ∃ more, replaced.expand word number = .ok (.shift :: more) := by
  cases replaced with
  | termBody =>
      have hkind : word.kind = .integerConstant := hword
      exact ⟨[.act (.integer word)], by simp only [expand, startTerm, hkind]⟩
  | call name =>
      have hkind : word.kind = .symbol .leftParen := hword
      exact ⟨[.emit (.push .pointer 0), .phrase (.arguments (.own name))], by
        simp only [expand, hkind]⟩
  | _ =>
      simp only [expand] at h
      repeat' split at h
      all_goals cases h

/-- An expression is settled alike whichever token its argument starts with. -/
theorem settle_of_blank {first second : Action} {goals' : List Goal} {number' : Nat}
    {tail : List Step} (hblank : first.blank = second.blank)
    (h : settle word number (.act first :: steps) rest = .taken goals' number' (.took word :: tail)) :
    ∃ tail', settle word number (.act second :: steps) rest =
        .taken goals' number' (.took word :: tail') ∧
      tail'.map Step.blank = tail.map Step.blank := by
  have hfirst := settle_behind word number [] (.act first :: steps) rest
  have hsecond := settle_behind word number [] (.act second :: steps) rest
  rw [List.nil_append] at hfirst hsecond
  rw [hsecond]
  rw [h] at hfirst
  cases hrest : settle word number [] rest with
  | refused expected made =>
      rw [hrest] at hfirst
      cases hfirst
  | taken goals number made =>
      rw [hrest] at hfirst
      injection hfirst with hgoals hnumber hsteps
      cases made with
      | nil => cases hsteps
      | cons last others =>
          cases hsteps
          subst hgoals hnumber
          exact ⟨others ++ .act second :: steps, rfl, by simp [Step.blank, hblank]⟩

/-- Where a token is refused, one of the kind that is needed is taken in the same steps. -/
theorem exists_taken_of_refused {tail : List Step} (h : Tidy goals)
    (hword : word.kind = nextKind goals)
    (hsettle : settle look number steps goals = .refused expected tail)
    (hsteps : steps'.map Step.blank = steps.map Step.blank) :
    ∃ goals' number' tail', settle word number steps' goals =
        .taken goals' number' (.took word :: tail') ∧
      tail'.map Step.blank = tail.map Step.blank := by
  fun_induction settle look number steps goals generalizing steps' with
  | case1 => exact h.elim
  | case2 | case4 | case5 | case7 => cases hsettle
  | case3 number steps kind wanted rest hkind =>
      cases hsettle
      have hneeded : word.kind = kind := hword
      exact ⟨rest, number, steps', by rw [settle_token, if_pos hneeded], hsteps⟩
  | case6 number steps role rest hkind =>
      cases hsettle
      have hneeded : word.kind = .identifier := hword
      exact ⟨_, number, steps', by rw [settle_name, if_pos hneeded], hsteps⟩
  | case8 number steps role rest hkind =>
      cases hsettle
      have htype : word.kind.isType = true := by
        rw [hword]
        rfl
      exact ⟨_, number, steps', by rw [settle_type, if_pos htype], hsteps⟩
  | case9 number steps rule rest ih =>
      rw [settle_opening]
      exact ih h.2 hword hsettle (by simp [hsteps])
  | case10 number steps rule rest ih =>
      rw [settle_closing]
      exact ih h.2 hword hsettle (by simp [hsteps])
  | case11 number steps action rest ih =>
      rw [settle_act]
      exact ih h.2 hword hsettle (by simp [hsteps])
  | case12 number steps replaced rest goals hexpand ih =>
      have htidy := replaced.tidy_expand h hexpand
      -- an argument keeps the look-ahead in its action, so that its goals differ as well
      by_cases hargument : ∃ callee count, replaced = .argument callee count
      · obtain ⟨callee, count, rfl⟩ := hargument
        cases hexpand
        obtain ⟨goals', number', tail', htaken, htail⟩ := ih htidy hword hsettle hsteps
        rw [List.cons_append, settle_act] at htaken
        have hblank : (Action.argument callee count look).blank =
            (Action.argument callee count word).blank := rfl
        obtain ⟨tail'', htaken', htail'⟩ := settle_of_blank hblank htaken
        refine ⟨goals', number', tail'', ?_, htail'.trans htail⟩
        have hexpand' : (Phrase.argument callee count).expand word number =
            .ok [.act (.argument callee count word), .phrase .expression,
              .phrase (.moreArguments callee (count + 1))] := rfl
        rw [settle_phrase _ _ _ _ hexpand', List.cons_append, settle_act]
        exact htaken'
      · have hne : ∀ callee count, replaced ≠ .argument callee count :=
          fun callee count heq => hargument ⟨callee, count, heq⟩
        obtain ⟨hexpand', hnext⟩ := replaced.expand_of_refused h hword hexpand hsettle hne
        rw [settle_phrase _ _ _ _ hexpand']
        exact ih htidy (hword.trans hnext.symm) hsettle hsteps
  | case13 number steps replaced rest wanted hexpand =>
      cases hsettle
      obtain ⟨more, hexpand'⟩ := replaced.exists_shift_of_error hexpand hword
      exact ⟨more ++ rest, _, steps', by
        rw [settle_phrase _ _ _ _ hexpand', List.cons_append, settle_shift], hsteps⟩

end Refusal

/-- The steps are the first ones of the unit. -/
structure ClassUnit.Traces (unit : ClassUnit) (steps : List Step) : Prop where
  regular : AllRegular unit.words
  starts : ∃ last : Token, last.kind = .endOfFile ∧
    steps.map Step.blank <+: (unit.course ++ [Step.took last]).map Step.blank

theorem Step.blank_bare (step : Step) : step.bare.blank = step.blank := by
  cases step with
  | act action => cases action <;> rfl
  | _ => rfl

theorem map_blank_of_bare (steps : List Step) :
    (steps.map Step.bare).map Step.blank = steps.map Step.blank := by
  rw [List.map_map]
  exact List.map_congr_left fun step _ => step.blank_bare

namespace Progress

variable {progress next : Progress} {front : List Token}

theorem prefix_read (progress : Progress) (tokens : List Token) :
    progress.steps.reverse <+: (progress.read tokens).steps := by
  obtain ⟨steps, number, goals⟩ := progress
  induction tokens generalizing steps number goals with
  | nil => simp [read, readAfter]
  | cons look rest ih =>
      have hbehind := settle_behind look number [] steps goals
      rw [List.nil_append] at hbehind
      cases hkind : look.kind with
      | invalid error =>
          simp only [read, readAfter, hkind]
          exact List.prefix_rfl
      | _ =>
          rw [read, readAfter_cons _ _ (by simp [hkind]), hbehind]
          cases settle look number [] goals with
          | taken goals number made =>
              have hmade := List.prefix_append steps.reverse made.reverse
              rw [← List.reverse_append] at hmade
              exact hmade.trans (ih (made ++ steps) number goals)
          | refused expected made => simp [Settlement.behind]

theorem take?_append (h : progress.take? front = some next) (rest : List Token) :
    progress.take? (front ++ rest) = next.take? rest := by
  induction front generalizing progress with
  | nil =>
      cases h
      rfl
  | cons look others ih =>
      obtain ⟨goals, number, steps, hvalid, hsettle, hothers⟩ := take?_cons h
      rw [List.cons_append, take?_of_taken hvalid hsettle]
      exact ih hothers

theorem tidy_of_take? (h : progress.take? front = some next) (htidy : Tidy progress.goals)
    (hfront : ∀ token ∈ front, token.kind ≠ .endOfFile) : Tidy next.goals := by
  induction front generalizing progress with
  | nil =>
      cases h
      exact htidy
  | cons look others ih =>
      obtain ⟨goals, number, steps, _, hsettle, hothers⟩ := take?_cons h
      exact ih hothers (tidy_of_settle htidy hsettle (hfront look (.head others)))
        fun token hmem => hfront token (.tail look hmem)

/-- What has been read makes the first steps of a unit, which has no words but those read
and fillers. -/
theorem exists_unit_of_take? (h : initial.take? front = some next)
    (hregular : ∀ token ∈ front, token.kind ≠ .endOfFile → token.word.Regular) :
    ∃ unit : ClassUnit, unit.Traces next.steps.reverse ∧
      ∀ word ∈ unit.words, word.Filler ∨ word ∈ front.map Token.word := by
  obtain ⟨words, hspells, hspelled⟩ := exists_spellsAll next.goals
  obtain ⟨unit, last, hwords, hlast⟩ := exists_unit_of_spells hregular h hspells
  have hkind : ∀ word ∈ unit.words, word.kind ≠ .endOfFile := by
    intro word hmem hkind
    exact unit.inner_words word hmem (by rw [hkind]; rfl)
  have hdrawn : ∀ word ∈ unit.words, word.Filler ∨ word ∈ front.map Token.word := by
    intro word hmem
    have hwhole : word ∈ front.map Token.word ++ words :=
      hwords ▸ List.mem_append_left [last] hmem
    rcases List.mem_append.mp hwhole with hfront | hrest
    · exact .inr hfront
    · exact .inl (hspelled word hrest (hkind word hmem))
  have hunit : AllRegular unit.words := by
    intro word hmem
    rcases hdrawn word hmem with hfiller | hfront
    · exact hfiller.regular
    · obtain ⟨token, htoken, rfl⟩ := List.mem_map.mp hfront
      exact hregular token htoken (hkind token.word hmem)
  refine ⟨unit, ⟨hunit, last.token, hlast, ?_⟩, hdrawn⟩
  have hlastToken : last.token.kind = .endOfFile := hlast
  have hsame : (front ++ words.map Word.token).map Token.word =
      (unit.words.map Word.token ++ [last.token]).map Token.word := by
    simpa [Function.comp_def] using hwords
  have hread := readUnit_bare_congr hsame
  rw [unit.readUnit_words hlastToken] at hread
  -- the steps so far are the first ones of this reading, which goes on to a whole unit
  have hfirst := next.prefix_read (words.map Word.token)
  rw [← read_append h, ← readUnit_eq_read] at hfirst
  have hsteps := congrArg (fun reading => reading.steps.map Step.blank) hread
  simp only [Reading.moved, map_blank_of_bare] at hsteps
  exact hsteps ▸ hfirst.map Step.blank

end Progress

/-- Where a reading stops, a unit goes on that has no words but those of the tokens and
fillers. -/
theorem exists_traces {tokens : List Token} {last : Token}
    (hregular : ∀ token ∈ tokens, token.word.Regular) (hlast : last.kind = .endOfFile) :
    ∃ unit : ClassUnit, unit.Traces (readUnit (tokens ++ [last])).steps ∧
      ∀ word ∈ unit.words, word.Filler ∨ word ∈ (tokens ++ [last]).map Token.word := by
  obtain ⟨front, others, next, htokens, htake, hstops⟩ :=
    Progress.initial.exists_stops (tokens ++ [last])
  have hfront : ∀ token ∈ front, token.kind ≠ .endOfFile → token.word.Regular := by
    intro token hmem hkind
    have hwhole : token ∈ tokens ++ [last] := htokens ▸ List.mem_append_left _ hmem
    rcases List.mem_append.mp hwhole with hmem | hmem
    · exact hregular token hmem
    · exact absurd (List.mem_singleton.mp hmem ▸ hlast) hkind
  have hdrawn : front.map Token.word ⊆ (tokens ++ [last]).map Token.word :=
    List.map_subset _ (htokens ▸ List.subset_append_left front others)
  rw [← readUnit_eq_read] at hstops
  generalize readUnit (tokens ++ [last]) = reading at hstops
  cases hstops with
  | finished | invalid =>
      obtain ⟨unit, htraces, hwords⟩ := Progress.exists_unit_of_take? htake hfront
      exact ⟨unit, htraces, fun word hmem => (hwords word hmem).imp_right (@hdrawn word)⟩
  | @refused look expected steps rest hvalid hsettle =>
      have hstarts : front <+: tokens := by
        have hinit := congrArg List.dropLast htokens
        rw [List.dropLast_concat, List.dropLast_append_of_ne_nil (by simp)] at hinit
        exact hinit ▸ List.prefix_append _ _
      have htidy := Progress.tidy_of_take? htake tidy_unit
        fun token hmem => (hregular token (hstarts.subset hmem)).kind_ne
      obtain ⟨word, hword, hfiller⟩ := (nextKind next.goals).exists_word
      have hkind : word.token.kind = nextKind next.goals := hword
      obtain ⟨goals, number, tail, htaken, htail⟩ := exists_taken_of_refused htidy hkind
        hsettle rfl
      have hwordValid : word.token.kind.isInvalid = false := by
        rw [Word.kind_token, hword]
        exact isInvalid_nextKind htidy
      have hnext : Progress.initial.take? (front ++ [word.token]) =
          some ⟨.took word.token :: tail, number, goals⟩ := by
        rw [Progress.take?_append htake, Progress.take?_of_taken hwordValid htaken]
        rfl
      obtain ⟨unit, ⟨hunit, final, hfinal, htraces⟩, hwords⟩ :=
        Progress.exists_unit_of_take? hnext (by
          intro token hmem hkind
          rcases List.mem_append.mp hmem with hmem | hmem
          · exact hfront token hmem hkind
          · rw [List.mem_singleton.mp hmem] at hkind ⊢
            exact (hfiller (hword ▸ hkind)).regular)
      refine ⟨unit, ⟨hunit, final, hfinal, List.IsPrefix.trans ?_ htraces⟩, ?_⟩
      · rw [List.reverse_cons, List.map_append, List.map_reverse, List.map_reverse, htail]
        exact List.prefix_append _ _
      · intro other hmem
        have hother := hwords other hmem
        rw [List.map_append, List.mem_append] at hother
        rcases hother with hother | hother | hother
        · exact .inl hother
        · exact .inr (hdrawn hother)
        · have hsame : other = word := List.mem_singleton.mp hother
          apply Or.inl
          rw [hsame]
          apply hfiller
          rw [← hword, ← hsame]
          exact fun hkind => unit.inner_words other hmem (by rw [hkind]; rfl)

end JackLang
