import JackLang.Grammar.Reading

/-! # Settling goal by goal

What each sort of goal does in front of a look-ahead: it takes the token, it is
settled without one, or it is replaced by other goals. Reading goes on in the
same way as long as the look-ahead is a token of the language.
-/

set_option autoImplicit false

namespace JackLang

section Settling

variable (look : Token) (number : Nat) (steps : List Step) (rest : List Goal)

@[simp] theorem settle_nil : settle look number steps [] = .refused .endOfFile steps := by
  rw [settle]

@[simp] theorem settle_token (kind : TokenKind) (expected : Expectation) :
    settle look number steps (.token kind expected :: rest) =
      if look.kind = kind then .taken rest number (.took look :: steps)
      else .refused expected steps := by
  rw [settle]

@[simp] theorem settle_shift :
    settle look number steps (.shift :: rest) = .taken rest number (.took look :: steps) := by
  rw [settle]

@[simp] theorem settle_name (role : NameRole) :
    settle look number steps (.name role :: rest) =
      if look.kind = .identifier then
        .taken (role.next look ++ rest) number (.took look :: steps)
      else .refused role.expected steps := by
  rw [settle]

@[simp] theorem settle_type (role : TypeRole) :
    settle look number steps (.type role :: rest) =
      if look.kind.isType then
        .taken (role.next look.lexeme ++ rest) number (.took look :: steps)
      else .refused .typeName steps := by
  rw [settle]

@[simp] theorem settle_opening (rule : Rule) :
    settle look number steps (.opening rule :: rest) =
      settle look number (.opened rule :: steps) rest := by
  rw [settle]

@[simp] theorem settle_closing (rule : Rule) :
    settle look number steps (.closing rule :: rest) =
      settle look number (.closed rule :: steps) rest := by
  rw [settle]

@[simp] theorem settle_act (action : Action) :
    settle look number steps (.act action :: rest) =
      settle look number (.act action :: steps) rest := by
  rw [settle]

theorem settle_phrase {replaced : Phrase} {goals : List Goal}
    (h : replaced.expand look number = .ok goals) :
    settle look number steps (.phrase replaced :: rest) =
      settle look (number + replaced.numbersTaken) steps (goals ++ rest) := by
  rw [settle]
  split
  · rename_i found hfound
    rw [h] at hfound
    cases hfound
    rfl
  · rename_i expected hexpected
    rw [h] at hexpected
    cases hexpected

theorem settle_phrase_error {replaced : Phrase} {expected : Expectation}
    (h : replaced.expand look number = .error expected) :
    settle look number steps (.phrase replaced :: rest) = .refused expected steps := by
  rw [settle]
  split
  · rename_i found hfound
    rw [h] at hfound
    cases hfound
  · rename_i refused hrefused
    rw [h] at hrefused
    cases hrefused
    rfl

end Settling

/-- Whether text of the kind is no token of the language. -/
def TokenKind.isInvalid : TokenKind → Bool
  | .invalid _ => true
  | _ => false

namespace TokenKind

@[simp] theorem isInvalid_keyword (word : Keyword) : (keyword word).isInvalid = false := rfl

@[simp] theorem isInvalid_symbol (mark : Symbol) : (symbol mark).isInvalid = false := rfl

@[simp] theorem isInvalid_identifier : identifier.isInvalid = false := rfl

@[simp] theorem isInvalid_integerConstant : integerConstant.isInvalid = false := rfl

@[simp] theorem isInvalid_stringConstant : stringConstant.isInvalid = false := rfl

@[simp] theorem isInvalid_endOfFile : endOfFile.isInvalid = false := rfl

end TokenKind

/-- Whether there is a look-ahead, and one that is a token of the language. -/
def Ready : List Token → Prop
  | [] => False
  | look :: _ => look.kind.isInvalid = false

@[simp] theorem ready_cons (look : Token) (rest : List Token) :
    Ready (look :: rest) ↔ look.kind.isInvalid = false := Iff.rfl

section Reading

variable {steps : List Step} {number : Nat} {goals : List Goal} {tokens : List Token}

theorem readAfter_cons (look : Token) (rest : List Token) (h : Ready (look :: rest)) :
    readAfter steps number goals (look :: rest) =
      match settle look number steps goals with
      | .taken goals number steps => readAfter steps number goals rest
      | .refused expected steps => ⟨steps.reverse, .unexpected expected look⟩ := by
  rw [readAfter]
  split
  · rename_i error hkind
    rw [ready_cons, hkind] at h
    cases h
  · rfl

/-- Goals that are settled alike in front of every look-ahead are read alike. -/
theorem readAfter_congr {other : List Goal} {number' : Nat} {steps' : List Step}
    (hsettle : ∀ look : Token,
      settle look number steps goals = settle look number' steps' other) (h : Ready tokens) :
    readAfter steps number goals tokens = readAfter steps' number' other tokens := by
  cases tokens with
  | nil => exact h.elim
  | cons look rest => rw [readAfter_cons _ _ h, readAfter_cons _ _ h, hsettle]

@[simp] theorem readAfter_opening (rule : Rule) (h : Ready tokens) :
    readAfter steps number (.opening rule :: goals) tokens =
      readAfter (.opened rule :: steps) number goals tokens :=
  readAfter_congr (fun look => settle_opening look number steps goals rule) h

@[simp] theorem readAfter_closing (rule : Rule) (h : Ready tokens) :
    readAfter steps number (.closing rule :: goals) tokens =
      readAfter (.closed rule :: steps) number goals tokens :=
  readAfter_congr (fun look => settle_closing look number steps goals rule) h

@[simp] theorem readAfter_act (action : Action) (h : Ready tokens) :
    readAfter steps number (.act action :: goals) tokens =
      readAfter (.act action :: steps) number goals tokens :=
  readAfter_congr (fun look => settle_act look number steps goals action) h

@[simp] theorem readAfter_token (look : Token) (rest : List Token) (kind : TokenKind)
    (expected : Expectation) (h : Ready (look :: rest)) (hkind : look.kind = kind) :
    readAfter steps number (.token kind expected :: goals) (look :: rest) =
      readAfter (.took look :: steps) number goals rest := by
  simp [readAfter_cons _ _ h, hkind]

@[simp] theorem readAfter_shift (look : Token) (rest : List Token) (h : Ready (look :: rest)) :
    readAfter steps number (.shift :: goals) (look :: rest) =
      readAfter (.took look :: steps) number goals rest := by
  simp [readAfter_cons _ _ h]

@[simp] theorem readAfter_name (look : Token) (rest : List Token) (role : NameRole)
    (hkind : look.kind = .identifier) :
    readAfter steps number (.name role :: goals) (look :: rest) =
      readAfter (.took look :: steps) number (role.next look ++ goals) rest := by
  have h : Ready (look :: rest) := by simp [hkind]
  simp [readAfter_cons _ _ h, hkind]

@[simp] theorem readAfter_type (look : Token) (rest : List Token) (role : TypeRole)
    (hkind : look.kind.isType = true) :
    readAfter steps number (.type role :: goals) (look :: rest) =
      readAfter (.took look :: steps) number (role.next look.lexeme ++ goals) rest := by
  have h : Ready (look :: rest) := by
    rw [ready_cons]
    revert hkind
    cases look.kind <;> simp [TokenKind.isType]
  simp [readAfter_cons _ _ h, hkind]

/-- A phrase is replaced by its expansion, unless it cannot go on with the
look-ahead. -/
theorem readAfter_phrase (look : Token) (rest : List Token) (replaced : Phrase)
    (h : Ready (look :: rest)) :
    readAfter steps number (.phrase replaced :: goals) (look :: rest) =
      match replaced.expand look number with
      | .ok found =>
          readAfter steps (number + replaced.numbersTaken) (found ++ goals) (look :: rest)
      | .error expected => ⟨steps.reverse, .unexpected expected look⟩ := by
  split
  · rename_i found hfound
    rw [readAfter_cons _ _ h, readAfter_cons _ _ h, settle_phrase _ _ _ _ hfound]
  · rename_i expected hexpected
    rw [readAfter_cons _ _ h, settle_phrase_error _ _ _ _ hexpected]

/-- A phrase that goes on in the same way whatever the look-ahead is. -/
theorem readAfter_expand {replaced : Phrase} {found : List Goal}
    (hexpand : ∀ look : Token, replaced.expand look number = .ok found) (h : Ready tokens) :
    readAfter steps number (.phrase replaced :: goals) tokens =
      readAfter steps (number + replaced.numbersTaken) (found ++ goals) tokens :=
  readAfter_congr (fun look => settle_phrase look number steps goals (hexpand look)) h

@[simp] theorem readAfter_expression (h : Ready tokens) :
    readAfter steps number (.phrase .expression :: goals) tokens =
      readAfter (.opened .expression :: steps) number
        (.phrase .term :: .phrase .operators :: .closing .expression :: goals) tokens := by
  rw [readAfter_expand (fun _ => rfl) h]
  exact readAfter_opening .expression h

@[simp] theorem readAfter_term (h : Ready tokens) :
    readAfter steps number (.phrase .term :: goals) tokens =
      readAfter (.opened .term :: steps) number
        (.phrase .termBody :: .closing .term :: goals) tokens := by
  rw [readAfter_expand (fun _ => rfl) h]
  exact readAfter_opening .term h

@[simp] theorem readAfter_statements (h : Ready tokens) :
    readAfter steps number (.phrase .statements :: goals) tokens =
      readAfter (.opened .statements :: steps) number (.phrase .moreStatements :: goals)
        tokens := by
  rw [readAfter_expand (fun _ => rfl) h]
  exact readAfter_opening .statements h

end Reading

end JackLang
