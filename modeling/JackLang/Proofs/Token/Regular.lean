import JackLang.Grammar.ParseTree
import JackLang.Token.Scan

/-! # The tokens that scanning finds

A token in front of the end of the file has the lexeme that its kind calls for:
a reserved word and a symbol are spelled out, an identifier is no reserved word,
and an integer is a constant of the machine.
-/

set_option autoImplicit false

namespace JackLang

/-- A word whose lexeme fits its kind, and which does not end a file. -/
def Word.Regular (word : Word) : Prop :=
  match word.kind with
  | .keyword reserved => word = .keyword reserved
  | .symbol mark => word = .symbol mark
  | .identifier => Keyword.ofText? word.lexeme = none
  | .integerConstant => decimalValue word.lexeme.toList ≤ maxConstant
  | .stringConstant => True
  | .invalid _ => True
  | .endOfFile => False

@[simp] theorem Word.regular_keyword (reserved : Keyword) : (keyword reserved).Regular := rfl

@[simp] theorem Word.regular_symbol (mark : Symbol) : (symbol mark).Regular := rfl

/-- The words fit their kinds. -/
def AllRegular (words : List Word) : Prop := ∀ word ∈ words, word.Regular

@[simp] theorem allRegular_cons (word : Word) (words : List Word) :
    AllRegular (word :: words) ↔ word.Regular ∧ AllRegular words := by
  simp [AllRegular]

@[simp] theorem allRegular_append (first second : List Word) :
    AllRegular (first ++ second) ↔ AllRegular first ∧ AllRegular second := by
  simp [AllRegular, or_imp, forall_and]

@[simp] theorem allRegular_nil : AllRegular [] := by
  simp [AllRegular]

theorem regular_classifyRun (run : List Char) :
    Word.Regular ⟨(classifyRun run).1, (classifyRun run).2⟩ := by
  unfold classifyRun
  split
  · split
    · rename_i hvalue
      simpa [Word.Regular] using hvalue
    · trivial
  · split
    · trivial
    · cases hword : Keyword.ofText? (String.ofList run) with
      | none => simp [TokenKind.ofWord, hword, Word.Regular]
      | some reserved =>
          have htext := Keyword.ofText?_eq_some_iff.mp hword
          simp [TokenKind.ofWord, hword, Word.Regular, Word.keyword, htext]

theorem regular_readToken (offset : Nat) (first : Char) (rest : List Char) :
    (readToken offset first rest).1.word.Regular := by
  unfold readToken
  simp only
  split
  · exact regular_classifyRun _
  · split
    · split <;> trivial
    · split
      · rename_i symbol hsymbol
        have hchar := Symbol.ofChar?_eq_some_iff.mp hsymbol
        simp [Token.word, Word.Regular, Word.symbol, hchar]
      · trivial

theorem Cursor.regular_of_nextToken? {cursor next : Cursor} {token : Token}
    (h : cursor.nextToken? = some (token, next)) : token.word.Regular := by
  unfold nextToken? at h
  split at h
  · cases h
    trivial
  · cases h
  · rename_i offset first rest hgap
    have hregular := regular_readToken offset first rest
    rw [Option.some.inj h] at hregular
    exact hregular

theorem Cursor.regular_of_mem_tokensAfter {found : List Token} {cursor : Cursor}
    (hfound : ∀ token ∈ found, token.word.Regular) :
    ∀ token ∈ Cursor.tokensAfter found cursor, token.word.Regular := by
  fun_induction Cursor.tokensAfter found cursor with
  | case1 found cursor hnone => simpa using hfound
  | case2 found cursor token next hnext ih =>
      apply ih
      rintro other (_ | ⟨_, hother⟩)
      · exact regular_of_nextToken? hnext
      · exact hfound other hother

theorem TokenStream.regular_of_mem {source : String} {token : Token}
    (h : token ∈ (TokenStream.ofSource source).pending) : token.word.Regular :=
  Cursor.regular_of_mem_tokensAfter (by simp) token h

end JackLang
