import JackLang.Proofs.SourceLayout

/-! # The characters of a token

A token lies over the characters that make it up, and the end of the file over none. Only
a block comment that is not closed goes on over line breaks.
-/

set_option autoImplicit false

namespace JackLang

section Words

theorem newline_notMem_of_part {part : Char → Bool} {word : List Char}
    (hpart : part '\n' = false) (h : ∀ c ∈ word, part c = true) : '\n' ∉ word := by
  intro hmem
  rw [h _ hmem] at hpart
  cases hpart

variable {behind word : List Char} {kind : TokenKind} {lexeme : String}

theorem IsToken.newline_notMem (h : IsToken behind kind lexeme word)
    (hkind : kind ≠ .invalid .unterminatedComment) : '\n' ∉ word := by
  cases h with
  | keyword reserved hend => cases reserved <;> decide
  | @identifier first rest hfirst hrest hname hend =>
      refine List.not_mem_cons_of_ne_of_not_mem ?_ (newline_notMem_of_part rfl hrest)
      rintro rfl
      exact absurd hfirst (by decide)
  | integer hne hdigits hvalue hend => exact newline_notMem_of_part rfl hdigits
  | integerOutOfRange hdigits hvalue hend => exact newline_notMem_of_part rfl hdigits
  | @string content hcontent =>
      simp only [List.mem_cons, List.mem_append, List.not_mem_nil, or_false, not_or]
      exact ⟨by decide, fun hmem => (hcontent _ hmem).2 rfl, by decide⟩
  | @unterminatedString content hcontent hend =>
      refine List.not_mem_cons_of_ne_of_not_mem (by decide) ?_
      exact fun hmem => (hcontent _ hmem).2 rfl
  | symbol mark hslash => cases mark <;> decide
  | @malformedInteger first rest hfirst hrest hstart hend =>
      refine List.not_mem_cons_of_ne_of_not_mem ?_ (newline_notMem_of_part rfl hrest)
      rintro rfl
      exact absurd hfirst (by decide)
  | unterminatedComment hcomment hend => exact absurd rfl hkind
  | @unexpectedCharacter c hblank hpart hquote hmark =>
      rw [List.mem_singleton]
      rintro rfl
      exact absurd hblank (by decide)

end Words

/-- A token of a source, or the end of the file, lies over some characters of the source,
which are on one line unless the token is a block comment that is not closed. -/
theorem TokenStream.exists_extent {source : String} {token : Token}
    (h : token ∈ (TokenStream.ofSource source).toList) :
    ∃ front word behind, source.toList = front ++ (word ++ behind) ∧
      token.span = ⟨byteLength front, byteLength front + byteLength word⟩ ∧
      (token.kind ≠ .invalid .unterminatedComment → '\n' ∉ word) := by
  rcases List.mem_append.mp h with hmem | hmem
  · have hlayout := (TokenStream.laidOut_iff source _).mpr rfl
    obtain ⟨front, word, behind, htext, hspan, hword⟩ := hlayout.exists_word token hmem
    rw [Nat.zero_add] at hspan
    exact ⟨front, word, behind, htext, hspan, hword.newline_notMem⟩
  · rw [List.mem_singleton.mp hmem]
    exact ⟨source.toList, [], [], by simp, rfl, fun _ => List.not_mem_nil⟩

end JackLang
