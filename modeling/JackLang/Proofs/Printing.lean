import JackLang.Proofs.SourceLayout

/-! # Scanning undoes printing

A list of words is printed with separators in front of them, between them and
behind them. A separator may be empty unless the words next to it would then run
into each other; scanning gives the words back, each at its place.
-/

set_option autoImplicit false

namespace JackLang

/-- The words that are valid tokens of the language. -/
inductive Word.Printable : Word → Prop
  | keyword (reserved : Keyword) : Printable (.keyword reserved)
  | symbol (mark : Symbol) : Printable (.symbol mark)
  | identifier {first : Char} {rest : List Char} (hfirst : isWordStart first = true)
      (hrest : ∀ c ∈ rest, isWordPart c = true)
      (hname : ∀ reserved : Keyword, reserved.text.toList ≠ first :: rest) :
      Printable (.identifier (String.ofList (first :: rest)))
  | integer {digits : List Char} (hne : digits ≠ []) (hdigits : ∀ c ∈ digits, c.isDigit = true)
      (hvalue : decimalValue digits ≤ maxConstant) :
      Printable ⟨.integerConstant, String.ofList digits⟩
  | string {content : List Char} (hcontent : ∀ c ∈ content, c ≠ '"' ∧ c ≠ '\n') :
      Printable ⟨.stringConstant, String.ofList content⟩

namespace Word

def spelling (word : Word) : List Char :=
  match word.kind with
  | .stringConstant => '"' :: (word.lexeme.toList ++ ['"'])
  | _ => word.lexeme.toList

/-- Whether the word is spelled with letters, digits and underscores only. -/
def isRun (word : Word) : Bool :=
  match word.kind with
  | .keyword _ | .identifier | .integerConstant => true
  | _ => false

/-- With nothing between them, the words would be read as one run or as the opening
of a comment. -/
def RunsInto (word next : Word) : Prop :=
  word.isRun = true ∧ next.isRun = true ∨
    word = .symbol .slash ∧ (next = .symbol .slash ∨ next = .symbol .star)

instance (word next : Word) : Decidable (word.RunsInto next) :=
  inferInstanceAs (Decidable (_ ∨ _))

end Word

/-- Blanks and comments that end by themselves. -/
inductive Separator : List Char → Prop
  | nil : Separator []
  | blank {c : Char} {rest : List Char} (hblank : isBlank c = true) (hrest : Separator rest) :
      Separator (c :: rest)
  | lineComment {comment rest : List Char} (hcomment : ∀ c ∈ comment, c ≠ '\n')
      (hrest : Separator rest) : Separator ('/' :: '/' :: (comment ++ '\n' :: rest))
  | blockComment {comment rest : List Char} (hcomment : Unclosed comment)
      (hrest : Separator rest) : Separator ('/' :: '*' :: (comment ++ '*' :: '/' :: rest))

/-- Each word is paired with the separator behind it. A separator may be empty where
the words on both sides of it stay apart, and behind a slash it does not start with
a comment. -/
inductive Separated : List (Word × List Char) → Prop
  | nil : Separated []
  | cons {word : Word} {separator : List Char} {items : List (Word × List Char)}
      (hword : word.Printable) (hseparator : Separator separator)
      (hslash : word = .symbol .slash → separator.head? ≠ some '/')
      (hapart : separator = [] → ∀ next ∈ items.head?, ¬word.RunsInto next.1)
      (hitems : Separated items) : Separated ((word, separator) :: items)

def printed (items : List (Word × List Char)) : List Char :=
  items.flatMap fun item => item.1.spelling ++ item.2

theorem printed_cons (word : Word) (separator : List Char) (items : List (Word × List Char)) :
    printed ((word, separator) :: items) = word.spelling ++ (separator ++ printed items) := by
  rw [printed, List.flatMap_cons, List.append_assoc]
  rfl

/-- The words as tokens, where the first one starts at the offset. -/
def tokensAt : Nat → List (Word × List Char) → List Token
  | _, [] => []
  | offset, (word, separator) :: items =>
      let stop := offset + byteLength word.spelling
      ⟨word.kind, word.lexeme, ⟨offset, stop⟩⟩ :: tokensAt (stop + byteLength separator) items

theorem Symbol.char_injective {first second : Symbol} (h : first.char = second.char) :
    first = second := by
  have hfirst := Symbol.ofChar?_eq_some_iff.mpr h
  rw [Symbol.ofChar?_eq_some_iff.mpr rfl] at hfirst
  exact (Option.some.inj hfirst).symm

namespace Word.Printable

variable {word : Word} {c : Char}

theorem isWordPart_eq (h : word.Printable) (hc : word.spelling.head? = some c) :
    isWordPart c = word.isRun := by
  cases h with
  | keyword reserved =>
      have hmem : c ∈ reserved.text.toList := List.mem_of_head? hc
      exact reserved.isWordPart_text c hmem
  | symbol mark =>
      have hchar : mark.char = c := by simpa [spelling, Word.symbol] using hc
      rw [← hchar, mark.isWordPart_char]
      rfl
  | @identifier first rest hfirst hrest hname =>
      have hchar : first = c := by simpa [spelling, Word.identifier] using hc
      rw [← hchar, isWordPart_of_isWordStart hfirst]
      rfl
  | @integer digits hne hdigits hvalue =>
      have hmem : c ∈ digits := List.mem_of_head? (by simpa [spelling] using hc)
      exact isWordPart_of_isDigit (hdigits c hmem)
  | string hcontent =>
      have hchar : '"' = c := by simpa [spelling] using hc
      rw [← hchar]
      rfl

theorem eq_symbol {mark : Symbol} (h : word.Printable)
    (hmark : word.spelling.head? = some mark.char) : word = .symbol mark := by
  have hrun := h.isWordPart_eq hmark
  rw [mark.isWordPart_char] at hrun
  cases h with
  | symbol other =>
      have hchar : other.char = mark.char := by simpa [spelling, Word.symbol] using hmark
      rw [Symbol.char_injective hchar]
  | string hcontent =>
      have hchar : '"' = mark.char := by simpa [spelling] using hmark
      exact absurd hchar.symm mark.char_ne_quote
  | _ => cases hrun

theorem spelling_ne_nil (h : word.Printable) : word.spelling ≠ [] := by
  cases h with
  | keyword reserved => exact reserved.text_ne_nil
  | symbol mark => simp [spelling, Word.symbol]
  | identifier hfirst hrest hname => simp [spelling, Word.identifier]
  | integer hne hdigits hvalue => simpa [spelling] using hne
  | string hcontent => simp [spelling]

/-- A valid word is a token in front of a text that it does not run into. -/
theorem isToken {behind : List Char} (h : word.Printable)
    (hrun : word.isRun = true → RunEnds isWordPart behind)
    (hslash : word = .symbol .slash → behind.head? ≠ some '/' ∧ behind.head? ≠ some '*') :
    IsToken behind word.kind word.lexeme word.spelling := by
  cases h with
  | keyword reserved => exact .keyword reserved (hrun rfl)
  | symbol mark =>
      have hspelling : (Word.symbol mark).spelling = [mark.char] := by
        simp [spelling, Word.symbol]
      rw [hspelling]
      apply IsToken.symbol mark
      rintro rfl
      exact hslash rfl
  | @identifier first rest hfirst hrest hname =>
      have hspelling : (Word.identifier (String.ofList (first :: rest))).spelling =
          first :: rest := by
        simp [spelling, Word.identifier]
      rw [hspelling]
      exact .identifier hfirst hrest hname (hrun rfl)
  | @integer digits hne hdigits hvalue =>
      have hspelling : (Word.mk .integerConstant (String.ofList digits)).spelling = digits := by
        simp [spelling]
      rw [hspelling]
      exact .integer hne hdigits hvalue (hrun rfl)
  | @string content hcontent =>
      have hspelling : (Word.mk .stringConstant (String.ofList content)).spelling =
          '"' :: (content ++ ['"']) := by
        simp [spelling]
      rw [hspelling]
      exact .string hcontent

end Word.Printable

namespace Separator

variable {separator : List Char}

theorem isGap (h : Separator separator) (behind : List Char) : IsGap behind separator := by
  induction h with
  | nil => exact .nil
  | blank hblank hrest ih => exact .blank hblank ih
  | lineComment hcomment hrest ih =>
      apply IsGap.lineComment hcomment
      · rintro c ⟨⟩
        rfl
      · exact .blank (by decide) ih
  | blockComment hcomment hrest ih => exact .blockComment hcomment ih

theorem head_cases {c : Char} (h : Separator separator) (hc : separator.head? = some c) :
    isBlank c = true ∨ c = '/' := by
  cases h with
  | nil => cases hc
  | blank hblank hrest =>
      cases hc
      exact .inl hblank
  | _ =>
      cases hc
      exact .inr rfl

end Separator

namespace Separated

variable {word : Word} {separator : List Char} {items : List (Word × List Char)}

/-- The text behind a word starts with a blank, with a comment that does not follow a
slash, or with a word that the first one does not run into. -/
theorem head_behind {c : Char} (h : Separated ((word, separator) :: items))
    (hc : (separator ++ printed items).head? = some c) :
    isBlank c = true ∨ c = '/' ∧ word ≠ .symbol .slash ∨
      ∃ next : Word, ¬word.RunsInto next ∧ next.Printable ∧ next.spelling.head? = some c := by
  cases h with
  | cons hword hseparator hslash hapart hitems =>
  cases separator with
  | cons first rest =>
      rcases hseparator.head_cases hc with hblank | rfl
      · exact .inl hblank
      · exact .inr (.inl ⟨rfl, fun hword => hslash hword hc⟩)
  | nil =>
      cases hitems with
      | nil => cases hc
      | @cons next behind others hnext =>
          obtain ⟨first, rest, hspelling⟩ := List.exists_cons_of_ne_nil hnext.spelling_ne_nil
          refine .inr (.inr ⟨next, hapart rfl _ rfl, hnext, ?_⟩)
          rw [List.nil_append, printed_cons, hspelling] at hc
          rw [hspelling]
          exact hc

theorem runEnds (h : Separated ((word, separator) :: items)) (hrun : word.isRun = true) :
    RunEnds isWordPart (separator ++ printed items) := by
  intro c hc
  rw [Bool.eq_false_iff]
  intro hpart
  rcases h.head_behind hc with hblank | ⟨rfl, _⟩ | ⟨next, hapart, hnext, hfirst⟩
  · rw [isBlank_of_isWordPart hpart] at hblank
    cases hblank
  · exact absurd hpart (by decide)
  · rw [hnext.isWordPart_eq hfirst] at hpart
    exact hapart (.inl ⟨hrun, hpart⟩)

theorem head_ne_of_slash (h : Separated ((.symbol .slash, separator) :: items)) {mark : Symbol}
    (hmark : mark = .slash ∨ mark = .star) :
    (separator ++ printed items).head? ≠ some mark.char := by
  intro hc
  rcases h.head_behind hc with hblank | ⟨_, hne⟩ | ⟨next, hapart, hnext, hfirst⟩
  · rw [mark.isBlank_char] at hblank
    cases hblank
  · exact hne rfl
  · apply hapart
    rw [hnext.eq_symbol hfirst]
    rcases hmark with rfl | rfl
    · exact .inr ⟨rfl, .inl rfl⟩
    · exact .inr ⟨rfl, .inr rfl⟩

theorem laidOut (h : Separated items) {lead : List Char} (hlead : Separator lead) (offset : Nat) :
    LaidOut offset (lead ++ printed items) (tokensAt (offset + byteLength lead) items) := by
  induction h generalizing offset lead with
  | nil =>
      rw [printed, List.flatMap_nil, List.append_nil]
      exact .finish (hlead.isGap [])
  | @cons word separator items hword hseparator hslash hapart hitems ih =>
      have hall : Separated ((word, separator) :: items) :=
        .cons hword hseparator hslash hapart hitems
      have htoken : IsToken (separator ++ printed items) word.kind word.lexeme word.spelling := by
        apply hword.isToken hall.runEnds
        rintro rfl
        constructor
        · exact hall.head_ne_of_slash (.inl rfl)
        · exact hall.head_ne_of_slash (.inr rfl)
      rw [printed_cons]
      -- the separator behind a word leads the words that follow
      exact .token (hlead.isGap _) htoken (ih hseparator _)

end Separated

/-- What a token is made of is a valid word, unless the token is invalid. -/
theorem IsToken.printable {behind text : List Char} {kind : TokenKind} {lexeme : String}
    (h : IsToken behind kind lexeme text) (hvalid : ∀ error, kind ≠ .invalid error) :
    (Word.mk kind lexeme).Printable := by
  cases h with
  | keyword reserved hend => exact .keyword reserved
  | identifier hfirst hrest hname hend => exact .identifier hfirst hrest hname
  | integer hne hdigits hvalue hend => exact .integer hne hdigits hvalue
  | string hcontent => exact .string hcontent
  | symbol mark hslash => exact .symbol mark
  | _ => exact absurd rfl (hvalid _)

theorem map_word_tokensAt (offset : Nat) (items : List (Word × List Char)) :
    (tokensAt offset items).map Token.word = items.map Prod.fst := by
  induction items generalizing offset with
  | nil => rfl
  | cons item items ih =>
      rw [tokensAt, List.map_cons, ih]
      rfl

theorem separated_by_blanks {words : List Word} (h : ∀ word ∈ words, word.Printable) :
    Separated (words.map fun word => (word, [' '])) := by
  induction words with
  | nil => exact .nil
  | cons word words ih =>
      obtain ⟨hword, hwords⟩ := List.forall_mem_cons.mp h
      have hblank : Separator [' '] := .blank (by decide) .nil
      exact .cons hword hblank (fun _ => by decide) (fun hnil => by cases hnil) (ih hwords)

/-- Any valid words are those of a source. -/
theorem exists_source_of_words {words : List Word} (h : ∀ word ∈ words, word.Printable) :
    ∃ source : String, (TokenStream.ofSource source).pending.map Token.word = words := by
  let items := words.map fun word => (word, [' '])
  have hlayout := (separated_by_blanks h).laidOut .nil 0
  rw [List.nil_append, ← String.toList_ofList (l := printed items),
    TokenStream.laidOut_iff] at hlayout
  refine ⟨String.ofList (printed items), ?_⟩
  rw [← hlayout, map_word_tokensAt, List.map_map]
  exact List.map_id words

/-- Scanning a printed text hands out the words it was printed from, each at the place
where it was put, and then the end of the file. -/
theorem scan_of_printed {lead : List Char} {items : List (Word × List Char)}
    (hlead : Separator lead) (hitems : Separated items) (number : Nat) :
    (TokenStream.ofSource (String.ofList (lead ++ printed items))).token number =
      (tokensAt (byteLength lead) items)[number]?.getD
        (.endOfFile (byteLength (lead ++ printed items))) := by
  have hlayout := hitems.laidOut hlead 0
  rw [Nat.zero_add, ← String.toList_ofList (l := lead ++ printed items),
    TokenStream.laidOut_iff] at hlayout
  rw [TokenStream.token_eq, ← hlayout, TokenStream.ofSource, String.toList_ofList]

/-- The words of `let a1=12/"//*";` with comments between some of them. -/
def quotientWords : List (Word × List Char) :=
  [(.keyword .let, [' ']), (.identifier "a1", []), (.symbol .equal, "/*=*/".toList),
    (⟨.integerConstant, "12"⟩, []), (.symbol .slash, " // by\n".toList),
    (⟨.stringConstant, "//*"⟩, []), (.symbol .semicolon, [])]

theorem separated_quotientWords : Separated quotientWords := by
  have hname : ∀ reserved : Keyword, reserved.text.toList ≠ ['a', '1'] := by
    intro reserved
    cases reserved <;> decide
  refine .cons (.keyword .let) (.blank (by decide) .nil) (by decide) (by decide) ?_
  have hrest : ∀ c ∈ ['1'], isWordPart c = true := List.all_eq_true.mp (by decide)
  refine .cons (@Word.Printable.identifier 'a' ['1'] (by decide) hrest hname) .nil
    (by decide) (by decide) ?_
  refine .cons (.symbol .equal) (@Separator.blockComment ['='] [] (by decide) .nil)
    (by decide) (by decide) ?_
  refine .cons (@Word.Printable.integer ['1', '2'] (by decide) (by simp) (by decide)) .nil
    (by decide) (by decide) ?_
  refine .cons (.symbol .slash)
    (.blank (by decide) (@Separator.lineComment [' ', 'b', 'y'] [] (by simp) .nil))
    (by decide) (by decide) ?_
  refine .cons (@Word.Printable.string ['/', '/', '*'] (by simp)) .nil
    (by decide) (by decide) ?_
  exact .cons (.symbol .semicolon) .nil (by decide) (by decide) .nil

theorem scan_of_printed_quotientWords :
    Separator "/**/".toList ∧ Separated quotientWords ∧
      (TokenStream.ofSource "/**/let a1=/*=*/12/ // by\n\"//*\";").token 5 =
        ⟨.stringConstant, "//*", ⟨26, 31⟩⟩ := by
  have hlead : Separator "/**/".toList := @Separator.blockComment [] [] (by decide) .nil
  refine ⟨hlead, separated_quotientWords, ?_⟩
  exact scan_of_printed hlead separated_quotientWords 5

end JackLang
