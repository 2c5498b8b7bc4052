import JackLang.Proofs.Token.Layout

/-! # Scanning follows the layout

Where a text is laid out as tokens, scanning passes over each gap and reads each
token as it is laid out. Every text has a layout, and so it has just the one that
scanning finds.
-/

set_option autoImplicit false

namespace JackLang

/-- The character opens a comment with the text behind it. -/
def OpensComment (c : Char) (rest : List Char) : Prop :=
  c = '/' ∧ (rest.head? = some '/' ∨ rest.head? = some '*')

theorem utf8Size_slash : '/'.utf8Size = 1 := rfl

theorem utf8Size_star : '*'.utf8Size = 1 := rfl

theorem utf8Size_quote : '"'.utf8Size = 1 := rfl

namespace Cursor

theorem gap_eq (cursor : Cursor) :
    cursor.gap =
      match cursor.rest with
      | '/' :: '/' :: rest =>
          (Cursor.mk (cursor.offset + 2 + byteLength (rest.takeWhile (· ≠ '\n')))
            (rest.dropWhile (· ≠ '\n'))).gap
      | '/' :: '*' :: rest =>
          match afterComment (cursor.offset + 2) rest with
          | some next => next.gap
          | none => .unclosed ⟨cursor.offset, cursor.offset + 2 + byteLength rest⟩
      | c :: rest =>
          if isBlank c then (Cursor.mk (cursor.offset + c.utf8Size) rest).gap else .ends cursor
      | [] => .ends cursor := by
  rw [gap]
  split
  · simp_all
  · split <;> simp_all
  · simp_all
  · simp_all

variable (offset : Nat) (rest : List Char)

theorem gap_nil : (Cursor.mk offset []).gap = .ends ⟨offset, []⟩ :=
  gap_eq _

theorem gap_lineComment :
    (Cursor.mk offset ('/' :: '/' :: rest)).gap =
      (Cursor.mk (offset + 2 + byteLength (rest.takeWhile (· ≠ '\n')))
        (rest.dropWhile (· ≠ '\n'))).gap :=
  gap_eq _

theorem gap_blockComment {next : Cursor} (h : afterComment (offset + 2) rest = some next) :
    (Cursor.mk offset ('/' :: '*' :: rest)).gap = next.gap := by
  rw [gap_eq]
  simp only [h]

theorem gap_unclosed (h : afterComment (offset + 2) rest = none) :
    (Cursor.mk offset ('/' :: '*' :: rest)).gap =
      .unclosed ⟨offset, offset + 2 + byteLength rest⟩ := by
  rw [gap_eq]
  simp only [h]

theorem gap_cons {c : Char} (h : ¬OpensComment c rest) :
    (Cursor.mk offset (c :: rest)).gap =
      if isBlank c then (Cursor.mk (offset + c.utf8Size) rest).gap
      else .ends ⟨offset, c :: rest⟩ := by
  rw [gap_eq]
  split
  · rename_i heq
    cases heq
    exact absurd ⟨rfl, .inl rfl⟩ h
  · rename_i heq
    cases heq
    exact absurd ⟨rfl, .inr rfl⟩ h
  · rename_i heq
    cases heq
    rfl
  · rename_i heq
    cases heq

/-- Behind a gap, scanning goes on as if it started there. -/
theorem gap_append {gap behind : List Char} (h : IsGap behind gap) :
    (Cursor.mk offset (gap ++ behind)).gap =
      (Cursor.mk (offset + byteLength gap) behind).gap := by
  induction h generalizing offset with
  | nil => rfl
  | @blank c rest hblank hrest ih =>
      have hopens : ¬OpensComment c (rest ++ behind) := by
        rintro ⟨rfl, _⟩
        exact absurd hblank (by decide)
      rw [List.cons_append, gap_cons _ _ hopens, if_pos hblank, ih, byteLength_cons,
        Nat.add_assoc]
  | @lineComment comment rest hcomment hend hrest ih =>
      have hrun : ∀ c ∈ comment, decide (c ≠ '\n') = true := by simpa using hcomment
      have hoffset : offset + 2 + byteLength comment + byteLength rest =
          offset + byteLength ('/' :: '/' :: (comment ++ rest)) := by
        simp only [byteLength_cons, byteLength_append, utf8Size_slash]
        omega
      rw [List.cons_append, List.cons_append, List.append_assoc, gap_lineComment,
        takeWhile_append_of_runEnds hrun hend, dropWhile_append_of_runEnds hrun hend, ih,
        hoffset]
  | @blockComment comment rest hcomment hrest ih =>
      have hclosed := afterComment_append (offset + 2) hcomment (rest ++ behind)
      have hoffset : offset + 2 + byteLength comment + 2 + byteLength rest =
          offset + byteLength ('/' :: '*' :: (comment ++ '*' :: '/' :: rest)) := by
        simp only [byteLength_cons, byteLength_append, utf8Size_slash, utf8Size_star]
        omega
      simp only [List.cons_append, List.append_assoc]
      rw [gap_blockComment _ _ hclosed, ih, hoffset]

theorem nextToken?_append {gap behind : List Char} (h : IsGap behind gap) :
    (Cursor.mk offset (gap ++ behind)).nextToken? =
      (Cursor.mk (offset + byteLength gap) behind).nextToken? := by
  rw [nextToken?, nextToken?, gap_append offset h]

theorem nextToken?_nil : (Cursor.mk offset []).nextToken? = none := by
  rw [nextToken?, gap_nil]

theorem nextToken?_cons {c : Char} (hblank : isBlank c = false) (hopens : ¬OpensComment c rest) :
    (Cursor.mk offset (c :: rest)).nextToken? = some (readToken offset c rest) := by
  rw [nextToken?, gap_cons _ _ hopens, hblank]
  rfl

end Cursor

section Classes

theorem toNat_of_isAlpha {c : Char} (h : c.isAlpha = true) :
    65 ≤ c.toNat ∧ c.toNat ≤ 90 ∨ 97 ≤ c.toNat ∧ c.toNat ≤ 122 := by
  have hclass : (decide (c.val ≥ 'A'.val ∧ c.val ≤ 'Z'.val) ||
      (decide (c.val ≥ 'a'.val) && decide (c.val ≤ 'z'.val))) = true := h
  simp only [Bool.or_eq_true, Bool.and_eq_true, decide_eq_true_eq, ge_iff_le,
    UInt32.le_iff_toNat_le] at hclass
  exact hclass

theorem isDigit_iff_toNat {c : Char} : c.isDigit = true ↔ 48 ≤ c.toNat ∧ c.toNat ≤ 57 := by
  simp only [Char.isDigit, Bool.and_eq_true, decide_eq_true_eq, ge_iff_le,
    UInt32.le_iff_toNat_le]
  exact Iff.rfl

theorem toNat_of_isWordStart {c : Char} (h : isWordStart c = true) :
    65 ≤ c.toNat ∧ c.toNat ≤ 122 := by
  rw [isWordStart, Bool.or_eq_true, decide_eq_true_eq] at h
  rcases h with halpha | rfl
  · have hrange := toNat_of_isAlpha halpha
    omega
  · decide

theorem toNat_of_isWordPart {c : Char} (h : isWordPart c = true) :
    48 ≤ c.toNat ∧ c.toNat ≤ 122 := by
  rw [isWordPart, Bool.or_eq_true, isDigit_iff_toNat] at h
  rcases h with hstart | hdigit
  · have hrange := toNat_of_isWordStart hstart
    omega
  · omega

theorem isBlank_of_isWordPart {c : Char} (h : isWordPart c = true) : isBlank c = false := by
  have hrange := toNat_of_isWordPart h
  simp only [isBlank, blankRanges, List.any_cons, List.any_nil, Bool.or_false,
    Bool.or_eq_false_iff, Bool.and_eq_false_iff, decide_eq_false_iff_not]
  omega

theorem isDigit_of_isWordStart {c : Char} (h : isWordStart c = true) : c.isDigit = false := by
  have hrange := toNat_of_isWordStart h
  rw [Bool.eq_false_iff, Ne, isDigit_iff_toNat]
  omega

theorem isWordPart_of_isDigit {c : Char} (h : c.isDigit = true) : isWordPart c = true := by
  rw [isWordPart, h, Bool.or_true]

theorem isWordPart_of_isWordStart {c : Char} (h : isWordStart c = true) :
    isWordPart c = true := by
  rw [isWordPart, h, Bool.true_or]

theorem isQuotable_iff {c : Char} : isQuotable c = true ↔ c ≠ '"' ∧ c ≠ '\n' := by
  simp [isQuotable]

theorem Symbol.isWordPart_char (mark : Symbol) : isWordPart mark.char = false := by
  cases mark <;> decide

theorem Symbol.isBlank_char (mark : Symbol) : isBlank mark.char = false := by
  cases mark <;> decide

theorem Symbol.char_ne_quote (mark : Symbol) : mark.char ≠ '"' := by
  cases mark <;> decide

theorem Keyword.isWordPart_text (reserved : Keyword) :
    ∀ c ∈ reserved.text.toList, isWordPart c = true := by
  apply List.all_eq_true.mp
  cases reserved <;> decide

theorem Keyword.text_ne_nil (reserved : Keyword) : reserved.text.toList ≠ [] := by
  cases reserved <;> decide

end Classes

section Runs

theorem classifyRun_keyword (reserved : Keyword) :
    classifyRun reserved.text.toList = (.keyword reserved, reserved.text) := by
  cases reserved <;> rfl

theorem classifyRun_identifier {first : Char} {rest : List Char}
    (hfirst : isWordStart first = true)
    (hname : ∀ reserved : Keyword, reserved.text.toList ≠ first :: rest) :
    classifyRun (first :: rest) = (.identifier, String.ofList (first :: rest)) := by
  have hdigit := isDigit_of_isWordStart hfirst
  have hword : Keyword.ofText? (String.ofList (first :: rest)) = none := by
    cases hkeyword : Keyword.ofText? (String.ofList (first :: rest)) with
    | none => rfl
    | some reserved =>
        refine absurd ?_ (hname reserved)
        rw [Keyword.ofText?_eq_some_iff.mp hkeyword, String.toList_ofList]
  have hkind : TokenKind.ofWord (String.ofList (first :: rest)) = .identifier := by
    rw [TokenKind.ofWord, hword]
  rw [classifyRun, hkind]
  simp [hdigit]

theorem classifyRun_integer {digits : List Char} (hdigits : ∀ c ∈ digits, c.isDigit = true)
    (hvalue : decimalValue digits ≤ maxConstant) :
    classifyRun digits = (.integerConstant, String.ofList digits) := by
  rw [classifyRun, if_pos (List.all_eq_true.mpr hdigits), if_pos hvalue]

theorem classifyRun_outOfRange {digits : List Char} (hdigits : ∀ c ∈ digits, c.isDigit = true)
    (hvalue : maxConstant < decimalValue digits) :
    classifyRun digits =
      (.invalid .integerOutOfRange, LexicalError.integerOutOfRange.message) := by
  rw [classifyRun, if_pos (List.all_eq_true.mpr hdigits), if_neg (Nat.not_le_of_lt hvalue)]

theorem classifyRun_malformed {first : Char} {rest : List Char} (hfirst : first.isDigit = true)
    (hstart : ∃ c ∈ rest, isWordStart c = true) :
    classifyRun (first :: rest) =
      (.invalid .malformedInteger, LexicalError.malformedInteger.message) := by
  obtain ⟨c, hmem, hc⟩ := hstart
  have hall : ¬(first :: rest).all Char.isDigit = true := by
    intro hall
    have hdigit := List.all_eq_true.mp hall c (.tail first hmem)
    rw [isDigit_of_isWordStart hc] at hdigit
    cases hdigit
  rw [classifyRun, if_neg hall, if_pos (by simpa using hfirst)]

end Runs

section Reading

variable (offset : Nat) {first : Char} {rest behind : List Char}

theorem readToken_run (hfirst : isWordPart first = true)
    (hrest : ∀ c ∈ rest, isWordPart c = true) (hend : RunEnds isWordPart behind) :
    readToken offset first (rest ++ behind) =
      (⟨(classifyRun (first :: rest)).1, (classifyRun (first :: rest)).2,
          ⟨offset, offset + byteLength (first :: rest)⟩⟩,
        ⟨offset + byteLength (first :: rest), behind⟩) := by
  rw [readToken, if_pos hfirst, takeWhile_append_of_runEnds hrest hend,
    dropWhile_append_of_runEnds hrest hend, byteLength_cons, ← Nat.add_assoc]

theorem readToken_string {content : List Char} (hcontent : ∀ c ∈ content, c ≠ '"' ∧ c ≠ '\n') :
    readToken offset '"' (content ++ '"' :: behind) =
      (⟨.stringConstant, String.ofList content,
          ⟨offset, offset + byteLength ('"' :: (content ++ ['"']))⟩⟩,
        ⟨offset + byteLength ('"' :: (content ++ ['"'])), behind⟩) := by
  have hrun : ∀ c ∈ content, isQuotable c = true :=
    fun c hmem => isQuotable_iff.mpr (hcontent c hmem)
  have hend : RunEnds isQuotable ('"' :: behind) := by
    rintro c ⟨⟩
    rfl
  have hlength : byteLength ('"' :: (content ++ ['"'])) = 1 + byteLength content + 1 := by
    simp only [byteLength_cons, byteLength_append, byteLength_nil, utf8Size_quote]
    omega
  rw [hlength, ← Nat.add_assoc, ← Nat.add_assoc]
  simp only [readToken, takeWhile_append_of_runEnds hrun hend,
    dropWhile_append_of_runEnds hrun hend]
  rfl

theorem readToken_unterminatedString {content : List Char}
    (hcontent : ∀ c ∈ content, c ≠ '"' ∧ c ≠ '\n') (hbehind : RunEnds (· ≠ '\n') behind) :
    readToken offset '"' (content ++ behind) =
      (⟨.invalid .unterminatedString, LexicalError.unterminatedString.message,
          ⟨offset, offset + byteLength ('"' :: content)⟩⟩,
        ⟨offset + byteLength ('"' :: content), behind⟩) := by
  have hrun : ∀ c ∈ content, isQuotable c = true :=
    fun c hmem => isQuotable_iff.mpr (hcontent c hmem)
  have hbreak : ∀ c ∈ behind.head?, c = '\n' := by
    intro c hc
    simpa using hbehind c hc
  have hend : RunEnds isQuotable behind := by
    intro c hc
    rw [hbreak c hc]
    rfl
  rw [byteLength_cons, utf8Size_quote, ← Nat.add_assoc]
  simp only [readToken, takeWhile_append_of_runEnds hrun hend,
    dropWhile_append_of_runEnds hrun hend]
  cases behind with
  | nil => rfl
  | cons c more =>
      rw [hbreak c rfl]
      rfl

theorem readToken_symbol (mark : Symbol) :
    readToken offset mark.char rest =
      (⟨.symbol mark, String.singleton mark.char, ⟨offset, offset + byteLength [mark.char]⟩⟩,
        ⟨offset + byteLength [mark.char], rest⟩) := by
  have hmark : Symbol.ofChar? mark.char = some mark := Symbol.ofChar?_eq_some_iff.mpr rfl
  simp [readToken, mark.isWordPart_char, mark.char_ne_quote, hmark]

theorem readToken_unexpected (hpart : isWordPart first = false) (hquote : first ≠ '"')
    (hmark : ∀ mark : Symbol, mark.char ≠ first) :
    readToken offset first rest =
      (⟨.invalid .unexpectedCharacter, LexicalError.unexpectedCharacter.message,
          ⟨offset, offset + byteLength [first]⟩⟩,
        ⟨offset + byteLength [first], rest⟩) := by
  have hnone : Symbol.ofChar? first = none := by
    cases hsome : Symbol.ofChar? first with
    | none => rfl
    | some mark => exact absurd (Symbol.ofChar?_eq_some_iff.mp hsome) (hmark mark)
  simp [readToken, hpart, hquote, hnone]

theorem nextToken?_run {run : List Char} (hne : run ≠ [])
    (hrun : ∀ c ∈ run, isWordPart c = true) (hend : RunEnds isWordPart behind) :
    (Cursor.mk offset (run ++ behind)).nextToken? =
      some (⟨(classifyRun run).1, (classifyRun run).2, ⟨offset, offset + byteLength run⟩⟩,
        ⟨offset + byteLength run, behind⟩) := by
  cases run with
  | nil => exact absurd rfl hne
  | cons first rest =>
      have hfirst := hrun first (.head rest)
      have hopens : ¬OpensComment first (rest ++ behind) := by
        rintro ⟨rfl, _⟩
        exact absurd hfirst (by decide)
      rw [List.cons_append, Cursor.nextToken?_cons _ _ (isBlank_of_isWordPart hfirst) hopens,
        readToken_run offset hfirst (fun c hmem => hrun c (.tail first hmem)) hend]

theorem nextToken?_quote :
    (Cursor.mk offset ('"' :: rest)).nextToken? = some (readToken offset '"' rest) := by
  refine Cursor.nextToken?_cons _ _ (by decide) ?_
  rintro ⟨⟨⟩, _⟩

theorem Cursor.nextToken?_unclosed {comment : List Char} (h : Unclosed comment) :
    (Cursor.mk offset ('/' :: '*' :: comment)).nextToken? =
      some (⟨.invalid .unterminatedComment, LexicalError.unterminatedComment.message,
          ⟨offset, offset + 2 + byteLength comment⟩⟩,
        ⟨offset + 2 + byteLength comment, []⟩) := by
  rw [nextToken?, gap_unclosed _ _ (afterComment_of_unclosed _ h)]

end Reading

theorem IsToken.nextToken? {behind text : List Char} {kind : TokenKind} {lexeme : String}
    (h : IsToken behind kind lexeme text) (offset : Nat) :
    (Cursor.mk offset (text ++ behind)).nextToken? =
      some (⟨kind, lexeme, ⟨offset, offset + byteLength text⟩⟩,
        ⟨offset + byteLength text, behind⟩) := by
  cases h with
  | keyword reserved hend =>
      rw [nextToken?_run offset reserved.text_ne_nil reserved.isWordPart_text hend,
        classifyRun_keyword]
  | @identifier first rest hfirst hrest hname hend =>
      have hrun : ∀ c ∈ first :: rest, isWordPart c = true := by
        rintro c (_ | ⟨_, hmem⟩)
        · exact isWordPart_of_isWordStart hfirst
        · exact hrest c hmem
      rw [nextToken?_run offset (List.cons_ne_nil _ _) hrun hend,
        classifyRun_identifier hfirst hname]
  | integer hne hdigits hvalue hend =>
      rw [nextToken?_run offset hne (fun c hmem => isWordPart_of_isDigit (hdigits c hmem)) hend,
        classifyRun_integer hdigits hvalue]
  | integerOutOfRange hdigits hvalue hend =>
      have hne : text ≠ [] := by
        rintro rfl
        exact absurd hvalue (by decide)
      rw [nextToken?_run offset hne (fun c hmem => isWordPart_of_isDigit (hdigits c hmem)) hend,
        classifyRun_outOfRange hdigits hvalue]
  | @malformedInteger first rest hfirst hrest hstart hend =>
      have hrun : ∀ c ∈ first :: rest, isWordPart c = true := by
        rintro c (_ | ⟨_, hmem⟩)
        · exact isWordPart_of_isDigit hfirst
        · exact hrest c hmem
      rw [nextToken?_run offset (List.cons_ne_nil _ _) hrun hend,
        classifyRun_malformed hfirst hstart]
  | @string content hcontent =>
      rw [List.cons_append, List.append_assoc, List.singleton_append, nextToken?_quote,
        readToken_string offset hcontent]
  | @unterminatedString content hcontent hend =>
      rw [List.cons_append, nextToken?_quote, readToken_unterminatedString offset hcontent hend]
  | symbol mark hslash =>
      have hopens : ¬OpensComment mark.char behind := by
        rintro ⟨hchar, hhead⟩
        obtain ⟨hline, hblock⟩ := hslash (by cases mark <;> first | rfl | cases hchar)
        exact hhead.elim hline hblock
      rw [List.singleton_append, Cursor.nextToken?_cons _ _ mark.isBlank_char hopens,
        readToken_symbol]
  | @unterminatedComment comment hcomment hend =>
      subst hend
      rw [List.append_nil, Cursor.nextToken?_unclosed offset hcomment, byteLength_cons,
        byteLength_cons, utf8Size_slash, utf8Size_star, ← Nat.add_assoc, ← Nat.add_assoc]
  | @unexpectedCharacter c hblank hpart hquote hmark =>
      have hopens : ¬OpensComment c behind := by
        rintro ⟨rfl, _⟩
        exact hmark .slash rfl
      rw [List.singleton_append, Cursor.nextToken?_cons _ _ hblank hopens,
        readToken_unexpected offset hpart hquote hmark]

theorem Cursor.tokensAfter_none (found : List Token) {cursor : Cursor}
    (h : cursor.nextToken? = none) : cursor.tokensAfter found = found.reverse := by
  rw [tokensAfter]
  split
  · rfl
  · rename_i hsome
    rw [h] at hsome
    cases hsome

theorem Cursor.tokensAfter_some (found : List Token) {cursor next : Cursor} {token : Token}
    (h : cursor.nextToken? = some (token, next)) :
    cursor.tokensAfter found = next.tokensAfter (token :: found) := by
  rw [tokensAfter]
  split
  · rename_i hnone
    rw [h] at hnone
    cases hnone
  · rename_i hsome
    rw [h] at hsome
    cases hsome
    rfl

/-- Scanning a text finds the tokens that it is laid out as. -/
theorem LaidOut.tokensAfter {offset : Nat} {text : List Char} {tokens : List Token}
    (h : LaidOut offset text tokens) (found : List Token) :
    (Cursor.mk offset text).tokensAfter found = found.reverse ++ tokens := by
  induction h generalizing found with
  | @finish offset gap hgap =>
      have hnone := Cursor.nextToken?_append offset hgap
      rw [List.append_nil, Cursor.nextToken?_nil] at hnone
      rw [Cursor.tokensAfter_none found hnone, List.append_nil]
  | @token offset gap text behind kind lexeme tokens hgap htoken hrest ih =>
      have hsome := Cursor.nextToken?_append offset hgap
      rw [htoken.nextToken?] at hsome
      rw [Cursor.tokensAfter_some found hsome, ih, List.reverse_cons, List.append_assoc]
      rfl

section Layouts

variable {offset : Nat} {text front : List Char} {tokens : List Token}

/-- What goes in front of every gap that starts the text goes in front of its layout. -/
theorem LaidOut.extend
    (hfront : ∀ gap behind, gap ++ behind = text → IsGap behind gap → IsGap behind (front ++ gap))
    (h : LaidOut (offset + byteLength front) text tokens) :
    LaidOut offset (front ++ text) tokens := by
  cases h with
  | finish hgap => exact .finish (hfront text [] (List.append_nil text) hgap)
  | @token _ gap word behind kind lexeme others hgap htoken hrest =>
      have hlength : offset + byteLength front + byteLength gap =
          offset + byteLength (front ++ gap) := by
        rw [byteLength_append, Nat.add_assoc]
      rw [hlength] at hrest ⊢
      rw [← List.append_assoc]
      exact .token (hfront gap _ rfl hgap) htoken hrest

/-- The text starts with characters that make up a token. -/
def StartsWithToken (text : List Char) : Prop :=
  ∃ word behind kind lexeme, text = word ++ behind ∧ word ≠ [] ∧ IsToken behind kind lexeme word

theorem startsWithToken_run {first : Char} (hfirst : isWordPart first = true)
    (rest : List Char) : StartsWithToken (first :: rest) := by
  have hsplit : first :: rest = (first :: rest.takeWhile isWordPart) ++
      rest.dropWhile isWordPart := by
    rw [List.cons_append, List.takeWhile_append_dropWhile]
  have hend := runEnds_dropWhile isWordPart rest
  have hrest : ∀ c ∈ rest.takeWhile isWordPart, isWordPart c = true :=
    fun c hmem => mem_takeWhile hmem
  generalize rest.takeWhile isWordPart = run at hsplit hrest
  generalize rest.dropWhile isWordPart = behind at hsplit hend
  refine ⟨first :: run, behind, ?_⟩
  by_cases hdigit : first.isDigit = true
  · by_cases hall : ∃ c ∈ run, isWordStart c = true
    · exact ⟨_, _, hsplit, List.cons_ne_nil _ _, .malformedInteger hdigit hrest hall hend⟩
    · have hdigits : ∀ c ∈ first :: run, c.isDigit = true := by
        rintro c (_ | ⟨_, hmem⟩)
        · exact hdigit
        · have hpart := hrest c hmem
          rw [isWordPart, Bool.or_eq_true] at hpart
          exact hpart.resolve_left fun hstart => hall ⟨c, hmem, hstart⟩
      by_cases hvalue : decimalValue (first :: run) ≤ maxConstant
      · exact ⟨_, _, hsplit, List.cons_ne_nil _ _,
          .integer (List.cons_ne_nil _ _) hdigits hvalue hend⟩
      · exact ⟨_, _, hsplit, List.cons_ne_nil _ _,
          .integerOutOfRange hdigits (Nat.lt_of_not_le hvalue) hend⟩
  · have hstart : isWordStart first = true := by
      rw [isWordPart, Bool.or_eq_true] at hfirst
      exact hfirst.resolve_right hdigit
    by_cases hname : ∃ reserved : Keyword, reserved.text.toList = first :: run
    · obtain ⟨reserved, htext⟩ := hname
      rw [← htext]
      exact ⟨_, _, htext ▸ hsplit, reserved.text_ne_nil, .keyword reserved hend⟩
    · exact ⟨_, _, hsplit, List.cons_ne_nil _ _,
        .identifier hstart hrest (fun reserved htext => hname ⟨reserved, htext⟩) hend⟩

theorem startsWithToken_quote (rest : List Char) : StartsWithToken ('"' :: rest) := by
  have hend := runEnds_dropWhile isQuotable rest
  have hsplit : rest = rest.takeWhile isQuotable ++ rest.dropWhile isQuotable :=
    List.takeWhile_append_dropWhile.symm
  have hcontent : ∀ c ∈ rest.takeWhile isQuotable, c ≠ '"' ∧ c ≠ '\n' :=
    fun c hmem => isQuotable_iff.mp (mem_takeWhile hmem)
  generalize rest.takeWhile isQuotable = content at hsplit hcontent
  generalize rest.dropWhile isQuotable = behind at hsplit hend
  by_cases hclosed : behind.head? = some '"'
  · obtain ⟨more, rfl⟩ := List.head?_eq_some_iff.mp hclosed
    exact ⟨'"' :: (content ++ ['"']), more, _, _, by simp [hsplit], List.cons_ne_nil _ _,
      .string hcontent⟩
  · refine ⟨'"' :: content, behind, _, _, by simp [hsplit], List.cons_ne_nil _ _,
      .unterminatedString hcontent ?_⟩
    intro c hc
    have hquote : c ≠ '"' := by
      rintro rfl
      exact hclosed hc
    simpa [isQuotable, hquote] using hend c hc

/-- A text that starts neither with a blank nor with a comment starts with a token. -/
theorem startsWithToken_cons {first : Char} {rest : List Char} (hblank : isBlank first = false)
    (hopens : ¬OpensComment first rest) : StartsWithToken (first :: rest) := by
  by_cases hpart : isWordPart first = true
  · exact startsWithToken_run hpart rest
  by_cases hquote : first = '"'
  · exact hquote ▸ startsWithToken_quote rest
  by_cases hmark : ∃ mark : Symbol, mark.char = first
  · obtain ⟨mark, rfl⟩ := hmark
    refine ⟨[mark.char], rest, _, _, rfl, List.cons_ne_nil _ _, .symbol mark ?_⟩
    rintro rfl
    exact ⟨fun hline => hopens ⟨rfl, .inl hline⟩, fun hblock => hopens ⟨rfl, .inr hblock⟩⟩
  · exact ⟨[first], rest, _, _, rfl, List.cons_ne_nil _ _,
      .unexpectedCharacter hblank (Bool.eq_false_iff.mpr hpart) hquote
        fun mark hchar => hmark ⟨mark, hchar⟩⟩

theorem exists_laidOut (offset : Nat) (text : List Char) :
    ∃ tokens, LaidOut offset text tokens := by
  induction hlength : text.length using Nat.strongRecOn generalizing offset text with
  | ind length ih =>
  subst hlength
  -- a token or a piece of a gap in front leaves a text that is shorter
  have htoken : StartsWithToken text → ∃ tokens, LaidOut offset text tokens := by
    rintro ⟨word, behind, kind, lexeme, rfl, hne, hword⟩
    have hshorter : behind.length < (word ++ behind).length := by
      have := List.length_pos_iff.mpr hne
      rw [List.length_append]
      omega
    obtain ⟨tokens, hrest⟩ := ih _ hshorter (offset + byteLength word) behind rfl
    exact ⟨_, .token .nil hword hrest⟩
  have hgap : ∀ front behind, text = front ++ behind → front ≠ [] →
      (∀ gap more, gap ++ more = behind → IsGap more gap → IsGap more (front ++ gap)) →
      ∃ tokens, LaidOut offset text tokens := by
    rintro front behind rfl hne hfront
    have hshorter : behind.length < (front ++ behind).length := by
      have := List.length_pos_iff.mpr hne
      rw [List.length_append]
      omega
    obtain ⟨tokens, hrest⟩ := ih _ hshorter (offset + byteLength front) behind rfl
    exact ⟨tokens, hrest.extend hfront⟩
  cases text with
  | nil => exact ⟨[], .finish .nil⟩
  | cons first rest =>
      by_cases hopens : OpensComment first rest
      · obtain ⟨rfl, hline | hblock⟩ := hopens
        · obtain ⟨comment, rfl⟩ := List.head?_eq_some_iff.mp hline
          refine hgap ('/' :: '/' :: comment.takeWhile (· ≠ '\n'))
            (comment.dropWhile (· ≠ '\n')) (by simp) (List.cons_ne_nil _ _) ?_
          intro gap more hmore hrest
          refine .lineComment (fun c hmem => by simpa using mem_takeWhile hmem) ?_ hrest
          rw [hmore]
          exact runEnds_dropWhile _ _
        · obtain ⟨tail, rfl⟩ := List.head?_eq_some_iff.mp hblock
          rcases unclosed_or_split tail with hunclosed | ⟨comment, behind, rfl, hcomment⟩
          · exact htoken ⟨_, [], _, _, (List.append_nil _).symm, List.cons_ne_nil _ _,
              .unterminatedComment hunclosed rfl⟩
          · refine hgap ('/' :: '*' :: (comment ++ ['*', '/'])) behind (by simp)
              (List.cons_ne_nil _ _) ?_
            intro gap more _ hrest
            simpa using IsGap.blockComment hcomment hrest
      · by_cases hblank : isBlank first = true
        · exact hgap [first] rest rfl (List.cons_ne_nil _ _)
            fun gap more _ hrest => .blank hblank hrest
        · exact htoken (startsWithToken_cons (Bool.eq_false_iff.mpr hblank) hopens)

/-- The layout of a text is the one that scanning finds. -/
theorem laidOut_iff : LaidOut offset text tokens ↔ Cursor.tokensAfter [] ⟨offset, text⟩ = tokens := by
  constructor
  · intro h
    exact h.tokensAfter []
  · rintro rfl
    obtain ⟨others, h⟩ := exists_laidOut offset text
    have htokens := h.tokensAfter []
    rw [List.reverse_nil, List.nil_append] at htokens
    rwa [htokens]

end Layouts

end JackLang
