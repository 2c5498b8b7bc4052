import JackLang.Proofs.Token.Scanning
import JackLang.Proofs.Token.Stream

/-! # What scanning hands out

The tokens of a source are those of its layout: they lie in the source one behind
the other, there is nothing but gaps between them, and what a token is can be read
off its characters and the text behind them. Behind the last token the end of the
file repeats.
-/

set_option autoImplicit false

namespace JackLang

theorem byteLength_toList (source : String) : byteLength source.toList = source.utf8ByteSize := by
  have hlist : ∀ text : List Char, (String.ofList text).utf8ByteSize = byteLength text := by
    intro text
    induction text with
    | nil => rfl
    | cons c rest ih =>
        rw [String.ofList_cons, String.utf8ByteSize_append, String.utf8ByteSize_singleton, ih]
        rfl
  rw [← hlist, String.ofList_toList]

section Tokens

variable {behind text : List Char} {kind : TokenKind} {lexeme : String}

theorem IsToken.kind_ne (h : IsToken behind kind lexeme text) : kind ≠ .endOfFile := by
  cases h <;> exact TokenKind.noConfusion

theorem IsToken.ne_nil (h : IsToken behind kind lexeme text) : text ≠ [] := by
  cases h with
  | keyword reserved hend => exact reserved.text_ne_nil
  | integer hne hdigits hvalue hend => exact hne
  | integerOutOfRange hdigits hvalue hend =>
      rintro rfl
      exact absurd hvalue (by decide)
  | _ => exact List.cons_ne_nil _ _

end Tokens

section Layouts

variable {offset : Nat} {text : List Char} {tokens : List Token}

theorem LaidOut.exists_word (h : LaidOut offset text tokens) :
    ∀ token ∈ tokens, ∃ front word behind, text = front ++ (word ++ behind) ∧
      token.span = ⟨offset + byteLength front, offset + byteLength front + byteLength word⟩ ∧
      IsToken behind token.kind token.lexeme word := by
  induction h with
  | finish hgap => simp
  | @token offset gap word behind kind lexeme tokens hgap htoken hrest ih =>
      rintro token (_ | ⟨_, hmem⟩)
      · exact ⟨gap, word, behind, rfl, rfl, htoken⟩
      · obtain ⟨front, later, others, rfl, hspan, hlater⟩ := ih token hmem
        refine ⟨gap ++ (word ++ front), later, others, by simp, ?_, hlater⟩
        rw [hspan]
        simp only [byteLength_append, Nat.add_assoc]

theorem LaidOut.le_start (h : LaidOut offset text tokens) :
    ∀ token ∈ tokens, offset ≤ token.span.start := by
  intro token hmem
  obtain ⟨front, _, _, _, hspan, _⟩ := h.exists_word token hmem
  rw [hspan]
  exact Nat.le_add_right _ _

theorem LaidOut.inOrder (h : LaidOut offset text tokens) :
    tokens.Pairwise fun token later => token.span.stop ≤ later.span.start := by
  induction h with
  | finish hgap => exact .nil
  | token hgap htoken hrest ih => exact .cons hrest.le_start ih

end Layouts

theorem TokenStream.laidOut_iff (source : String) (tokens : List Token) :
    LaidOut 0 source.toList tokens ↔ tokens = (TokenStream.ofSource source).pending := by
  rw [JackLang.laidOut_iff, eq_comm]
  exact Iff.rfl

/-- Scanning hands out the tokens of the one layout that the source has, and then the
end of the file for ever. The tokens lie in the source in order and without overlap,
each one over the characters that make it up. -/
theorem scan_hands_out_layout (source : String) :
    ∃ tokens : List Token,
      (∀ number, (TokenStream.ofSource source).token number =
        tokens[number]?.getD (.endOfFile source.utf8ByteSize)) ∧
      (∀ token ∈ tokens, token.kind ≠ .endOfFile ∧
        ∃ front word behind, source.toList = front ++ (word ++ behind) ∧ word ≠ [] ∧
          token.span = ⟨byteLength front, byteLength front + byteLength word⟩ ∧
          IsToken behind token.kind token.lexeme word) ∧
      (tokens.Pairwise fun token later => token.span.stop ≤ later.span.start) ∧
      ∀ others, LaidOut 0 source.toList others ↔ others = tokens := by
  have hlayout := TokenStream.laidOut_iff source
  have hlaidOut := (hlayout _).mpr rfl
  refine ⟨(TokenStream.ofSource source).pending, ?_, ?_, hlaidOut.inOrder, hlayout⟩
  · intro number
    rw [TokenStream.token_eq, ← byteLength_toList]
    rfl
  · intro token hmem
    obtain ⟨front, word, behind, htext, hspan, hword⟩ := hlaidOut.exists_word token hmem
    rw [Nat.zero_add] at hspan
    exact ⟨hword.kind_ne, front, word, behind, htext, hword.ne_nil, hspan, hword⟩

end JackLang
