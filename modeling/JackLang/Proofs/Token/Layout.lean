import JackLang.Token.Scan

/-! # The layout of a source

A source is laid out as tokens with gaps in front of them and behind the last
one. Gaps and tokens are described by the characters they consist of, and by the
text behind them as far as it decides where they end. The description does not
scan: it says which layouts a text may have, and there turns out to be just one,
the one whose tokens scanning finds.
-/

set_option autoImplicit false

namespace JackLang

/-- A run of characters of a class does not go on into the text behind it. -/
def RunEnds (part : Char → Bool) (behind : List Char) : Prop :=
  ∀ c ∈ behind.head?, part c = false

/-- A comment is closed by the first `*/` behind its opening, so this is not in it. -/
def Unclosed (comment : List Char) : Prop := ¬['*', '/'] <:+: comment

instance (comment : List Char) : Decidable (Unclosed comment) :=
  inferInstanceAs (Decidable ¬_)

/-- Blanks and comments in front of the text `behind`. A line comment runs up to a
line break or the end of the source. -/
inductive IsGap (behind : List Char) : List Char → Prop
  | nil : IsGap behind []
  | blank {c : Char} {rest : List Char} (hblank : isBlank c = true) (hrest : IsGap behind rest) :
      IsGap behind (c :: rest)
  | lineComment {comment rest : List Char} (hcomment : ∀ c ∈ comment, c ≠ '\n')
      (hend : RunEnds (· ≠ '\n') (rest ++ behind)) (hrest : IsGap behind rest) :
      IsGap behind ('/' :: '/' :: (comment ++ rest))
  | blockComment {comment rest : List Char} (hcomment : Unclosed comment)
      (hrest : IsGap behind rest) :
      IsGap behind ('/' :: '*' :: (comment ++ '*' :: '/' :: rest))

/-- The characters that make up a token of a kind with a lexeme, in front of the
text `behind`. -/
inductive IsToken (behind : List Char) : TokenKind → String → List Char → Prop
  | keyword (reserved : Keyword) (hend : RunEnds isWordPart behind) :
      IsToken behind (.keyword reserved) reserved.text reserved.text.toList
  | identifier {first : Char} {rest : List Char} (hfirst : isWordStart first = true)
      (hrest : ∀ c ∈ rest, isWordPart c = true)
      (hname : ∀ reserved : Keyword, reserved.text.toList ≠ first :: rest)
      (hend : RunEnds isWordPart behind) :
      IsToken behind .identifier (String.ofList (first :: rest)) (first :: rest)
  | integer {digits : List Char} (hne : digits ≠ []) (hdigits : ∀ c ∈ digits, c.isDigit = true)
      (hvalue : decimalValue digits ≤ maxConstant) (hend : RunEnds isWordPart behind) :
      IsToken behind .integerConstant (String.ofList digits) digits
  | string {content : List Char} (hcontent : ∀ c ∈ content, c ≠ '"' ∧ c ≠ '\n') :
      IsToken behind .stringConstant (String.ofList content) ('"' :: (content ++ ['"']))
  | symbol (mark : Symbol)
      (hslash : mark = .slash → behind.head? ≠ some '/' ∧ behind.head? ≠ some '*') :
      IsToken behind (.symbol mark) (String.singleton mark.char) [mark.char]
  | integerOutOfRange {digits : List Char} (hdigits : ∀ c ∈ digits, c.isDigit = true)
      (hvalue : maxConstant < decimalValue digits) (hend : RunEnds isWordPart behind) :
      IsToken behind (.invalid .integerOutOfRange) LexicalError.integerOutOfRange.message digits
  | malformedInteger {first : Char} {rest : List Char} (hfirst : first.isDigit = true)
      (hrest : ∀ c ∈ rest, isWordPart c = true) (hstart : ∃ c ∈ rest, isWordStart c = true)
      (hend : RunEnds isWordPart behind) :
      IsToken behind (.invalid .malformedInteger) LexicalError.malformedInteger.message
        (first :: rest)
  | unterminatedString {content : List Char} (hcontent : ∀ c ∈ content, c ≠ '"' ∧ c ≠ '\n')
      (hend : RunEnds (· ≠ '\n') behind) :
      IsToken behind (.invalid .unterminatedString) LexicalError.unterminatedString.message
        ('"' :: content)
  | unterminatedComment {comment : List Char} (hcomment : Unclosed comment)
      (hend : behind = []) :
      IsToken behind (.invalid .unterminatedComment) LexicalError.unterminatedComment.message
        ('/' :: '*' :: comment)
  | unexpectedCharacter {c : Char} (hblank : isBlank c = false) (hpart : isWordPart c = false)
      (hquote : c ≠ '"') (hmark : ∀ mark : Symbol, mark.char ≠ c) :
      IsToken behind (.invalid .unexpectedCharacter) LexicalError.unexpectedCharacter.message
        [c]

/-- The text, which starts at the offset, is laid out as the tokens. -/
inductive LaidOut : Nat → List Char → List Token → Prop
  | finish {offset : Nat} {gap : List Char} (hgap : IsGap [] gap) : LaidOut offset gap []
  | token {offset : Nat} {gap text behind : List Char} {kind : TokenKind} {lexeme : String}
      {tokens : List Token} (hgap : IsGap (text ++ behind) gap)
      (htoken : IsToken behind kind lexeme text)
      (hrest : LaidOut (offset + byteLength gap + byteLength text) behind tokens) :
      LaidOut offset (gap ++ (text ++ behind))
        (⟨kind, lexeme, ⟨offset + byteLength gap, offset + byteLength gap + byteLength text⟩⟩ ::
          tokens)

section Runs

variable {part : Char → Bool} {run behind : List Char}

theorem takeWhile_append_of_runEnds (hrun : ∀ c ∈ run, part c = true)
    (hend : RunEnds part behind) : (run ++ behind).takeWhile part = run := by
  rw [List.takeWhile_append_of_pos hrun]
  cases behind with
  | nil => simp
  | cons c rest => simp [hend c rfl]

theorem dropWhile_append_of_runEnds (hrun : ∀ c ∈ run, part c = true)
    (hend : RunEnds part behind) : (run ++ behind).dropWhile part = behind := by
  rw [List.dropWhile_append_of_pos hrun]
  cases behind with
  | nil => simp
  | cons c rest => simp [hend c rfl]

theorem runEnds_dropWhile (part : Char → Bool) (text : List Char) :
    RunEnds part (text.dropWhile part) := by
  intro c hc
  have hnot := List.head?_dropWhile_not part text
  rw [Option.mem_def.mp hc] at hnot
  exact hnot

theorem mem_takeWhile {text : List Char} {c : Char} (h : c ∈ text.takeWhile part) :
    part c = true :=
  List.all_eq_true.mp List.all_takeWhile c h

end Runs

section Comments

theorem unclosed_cons {c : Char} {comment : List Char} (h : Unclosed (c :: comment)) :
    Unclosed comment ∧ ¬(c = '*' ∧ comment.head? = some '/') := by
  refine ⟨fun hinfix => h (List.infix_cons_iff.mpr (.inr hinfix)), ?_⟩
  rintro ⟨rfl, hhead⟩
  obtain ⟨rest, rfl⟩ := List.head?_eq_some_iff.mp hhead
  exact h ⟨[], rest, rfl⟩

theorem afterComment_cons {c : Char} {rest : List Char} (offset : Nat)
    (h : ¬(c = '*' ∧ rest.head? = some '/')) :
    afterComment offset (c :: rest) = afterComment (offset + c.utf8Size) rest := by
  rw [afterComment]
  rintro tail rfl rfl
  exact h ⟨rfl, rfl⟩

theorem afterComment_of_unclosed (offset : Nat) {comment : List Char} (h : Unclosed comment) :
    afterComment offset comment = none := by
  induction comment generalizing offset with
  | nil => rfl
  | cons c rest ih =>
      obtain ⟨hrest, hne⟩ := unclosed_cons h
      rw [afterComment_cons offset hne]
      exact ih _ hrest

theorem afterComment_append (offset : Nat) {comment : List Char} (h : Unclosed comment)
    (rest : List Char) :
    afterComment offset (comment ++ '*' :: '/' :: rest) =
      some ⟨offset + byteLength comment + 2, rest⟩ := by
  induction comment generalizing offset with
  | nil => rfl
  | cons c others ih =>
      obtain ⟨hothers, hne⟩ := unclosed_cons h
      -- the closing `*/` does not start with the last character of the comment
      have hnext : ¬(c = '*' ∧ (others ++ '*' :: '/' :: rest).head? = some '/') := by
        cases others with
        | nil => simp
        | cons d more => simpa using hne
      rw [List.cons_append, afterComment_cons offset hnext, ih _ hothers, byteLength_cons,
        Nat.add_assoc offset]

theorem unclosed_or_split (text : List Char) :
    Unclosed text ∨ ∃ comment rest, text = comment ++ '*' :: '/' :: rest ∧ Unclosed comment := by
  induction text with
  | nil => exact .inl (by simp [Unclosed])
  | cons c rest ih =>
      by_cases hclose : c = '*' ∧ rest.head? = some '/'
      · obtain ⟨rfl, hhead⟩ := hclose
        obtain ⟨behind, rfl⟩ := List.head?_eq_some_iff.mp hhead
        exact .inr ⟨[], behind, rfl, by simp [Unclosed]⟩
      · have hcons : ∀ comment, comment <+: rest → Unclosed comment → Unclosed (c :: comment) := by
          intro comment hprefix hcomment hinfix
          rcases List.infix_cons_iff.mp hinfix with hstart | hinfix
          · rw [List.cons_prefix_cons] at hstart
            obtain ⟨more, rfl⟩ := hstart.2
            obtain ⟨others, rfl⟩ := hprefix
            exact hclose ⟨hstart.1.symm, rfl⟩
          · exact hcomment hinfix
        rcases ih with hrest | ⟨comment, behind, rfl, hcomment⟩
        · exact .inl (hcons rest List.prefix_rfl hrest)
        · exact .inr ⟨c :: comment, behind, rfl, hcons _ (List.prefix_append _ _) hcomment⟩

end Comments

end JackLang
