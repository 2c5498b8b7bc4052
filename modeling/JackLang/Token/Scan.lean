import JackLang.Text.Blank
import JackLang.Text.Bytes
import JackLang.Token.Basic

/-! # Tokens of a source

Scanning reads a source from left to right. Between two tokens it passes over
a gap of blanks and comments; a token is then the longest text of its class
at that place. Every token takes at least one character, so scanning ends.
Text that is no token does not stop it: it is passed on as a token of its own
kind.
-/

set_option autoImplicit false

namespace JackLang

/-- A place in a source: its byte offset and the characters that follow it. -/
structure Cursor where
  offset : Nat
  rest : List Char

def isWordStart (c : Char) : Bool :=
  c.isAlpha || c = '_'

/-- Whether the character may stand inside a word or a number. -/
def isWordPart (c : Char) : Bool :=
  isWordStart c || c.isDigit

def isQuotable (c : Char) : Bool :=
  c ≠ '"' && c ≠ '\n'

/-- The number that a row of decimal digits stands for. -/
def decimalValue (digits : List Char) : Nat :=
  digits.foldl (fun value digit => 10 * value + (digit.toNat - '0'.toNat)) 0

/-- The place after the first `*/` of a text that starts at the given offset. -/
def afterComment (offset : Nat) : List Char → Option Cursor
  | [] => none
  | '*' :: '/' :: rest => some ⟨offset + 2, rest⟩
  | c :: rest => afterComment (offset + c.utf8Size) rest

/-- The end of the gap in front of a token. A gap ends before the first
character that is neither blank nor part of a comment, or at the end of the
source; it has no end after the opening of a block comment that is not closed. -/
inductive Gap where
  | ends (cursor : Cursor)
  | unclosed (comment : Span)

theorem rest_length_of_afterComment {offset : Nat} {text : List Char} {next : Cursor}
    (h : afterComment offset text = some next) : next.rest.length < text.length := by
  fun_induction afterComment offset text with
  | case1 => simp at h
  | case2 offset rest =>
      cases h
      simp only [List.length_cons]
      omega
  | case3 offset c rest hne ih =>
      have := ih h
      simp only [List.length_cons]
      omega

/-- Passes over blanks, `//` comments up to the next line break, and block
comments up to the first `*/` behind their opening. -/
def Cursor.gap (cursor : Cursor) : Gap :=
  match hrest : cursor.rest with
  | '/' :: '/' :: rest =>
      Cursor.gap ⟨cursor.offset + 2 + byteLength (rest.takeWhile (· ≠ '\n')),
        rest.dropWhile (· ≠ '\n')⟩
  | '/' :: '*' :: rest =>
      match hnext : afterComment (cursor.offset + 2) rest with
      | some next => Cursor.gap next
      | none => .unclosed ⟨cursor.offset, cursor.offset + 2 + byteLength rest⟩
  | c :: rest =>
      if isBlank c then Cursor.gap ⟨cursor.offset + c.utf8Size, rest⟩ else .ends cursor
  | [] => .ends cursor
termination_by cursor.rest.length
decreasing_by
  · have := (List.dropWhile_suffix (l := rest) (· ≠ '\n')).length_le
    simp only [hrest, List.length_cons]
    omega
  · have := rest_length_of_afterComment hnext
    simp only [hrest, List.length_cons]
    omega
  · simp [hrest]

/-- The kind and the lexeme of a longest run of letters, digits and underscores.
A run that starts with a digit has to be a number within the constants. -/
def classifyRun (run : List Char) : TokenKind × String :=
  if run.all Char.isDigit then
    if decimalValue run ≤ maxConstant then (.integerConstant, String.ofList run)
    else (.invalid .integerOutOfRange, LexicalError.integerOutOfRange.message)
  else if run.head?.any Char.isDigit then
    (.invalid .malformedInteger, LexicalError.malformedInteger.message)
  else (TokenKind.ofWord (String.ofList run), String.ofList run)

/-- The token that starts at `offset` with the character `first`, which is not
blank, and the place behind it. -/
def readToken (offset : Nat) (first : Char) (rest : List Char) : Token × Cursor :=
  let stop := offset + first.utf8Size
  if isWordPart first then
    let run := rest.takeWhile isWordPart
    let (kind, lexeme) := classifyRun (first :: run)
    let stop := stop + byteLength run
    (⟨kind, lexeme, ⟨offset, stop⟩⟩, ⟨stop, rest.dropWhile isWordPart⟩)
  else if first = '"' then
    let content := rest.takeWhile isQuotable
    let stop := stop + byteLength content
    match rest.dropWhile isQuotable with
    | '"' :: behind =>
        (⟨.stringConstant, String.ofList content, ⟨offset, stop + 1⟩⟩, ⟨stop + 1, behind⟩)
    | behind =>
        (⟨.invalid .unterminatedString, LexicalError.unterminatedString.message,
          ⟨offset, stop⟩⟩, ⟨stop, behind⟩)
  else
    match Symbol.ofChar? first with
    | some symbol =>
        (⟨.symbol symbol, String.singleton first, ⟨offset, stop⟩⟩, ⟨stop, rest⟩)
    | none =>
        (⟨.invalid .unexpectedCharacter, LexicalError.unexpectedCharacter.message,
          ⟨offset, stop⟩⟩, ⟨stop, rest⟩)

/-- The next token and the place behind it, or `none` at the end of the source. -/
def Cursor.nextToken? (cursor : Cursor) : Option (Token × Cursor) :=
  match cursor.gap with
  | .unclosed comment =>
      some (⟨.invalid .unterminatedComment, LexicalError.unterminatedComment.message, comment⟩,
        ⟨comment.stop, []⟩)
  | .ends ⟨_, []⟩ => none
  | .ends ⟨offset, first :: rest⟩ => some (readToken offset first rest)

theorem Cursor.rest_length_of_gap_ends {cursor next : Cursor} (h : cursor.gap = .ends next) :
    next.rest.length ≤ cursor.rest.length := by
  fun_induction Cursor.gap cursor with
  | case1 cursor rest hrest ih =>
      have hdrop := (List.dropWhile_suffix (l := rest) (· ≠ '\n')).length_le
      have hle := ih h
      simp only [hrest, List.length_cons] at hle ⊢
      omega
  | case2 cursor rest hrest next' hnext ih =>
      have hlt := rest_length_of_afterComment hnext
      have hle := ih h
      simp only [hrest, List.length_cons] at hle ⊢
      omega
  | case3 => simp at h
  | case4 cursor c rest _ _ hrest _ ih =>
      have hle := ih h
      simp only [hrest, List.length_cons] at hle ⊢
      omega
  | case5 =>
      cases h
      exact Nat.le_refl _
  | case6 =>
      cases h
      exact Nat.le_refl _

theorem Cursor.rest_ne_nil_of_gap_unclosed {cursor : Cursor} {comment : Span}
    (h : cursor.gap = .unclosed comment) : cursor.rest ≠ [] := by
  intro hnil
  rw [Cursor.gap] at h
  split at h <;> simp_all

theorem rest_length_readToken (offset : Nat) (first : Char) (rest : List Char) :
    (readToken offset first rest).2.rest.length ≤ rest.length := by
  have hword := (List.dropWhile_suffix (l := rest) isWordPart).length_le
  have hquote := (List.dropWhile_suffix (l := rest) isQuotable).length_le
  unfold readToken
  simp only
  split
  · exact hword
  · split
    · split
      · rename_i behind hbehind
        rw [hbehind] at hquote
        simp only [List.length_cons] at hquote
        show behind.length ≤ rest.length
        omega
      · exact hquote
    · split <;> exact Nat.le_refl _

theorem Cursor.rest_length_of_nextToken? {cursor next : Cursor} {token : Token}
    (h : cursor.nextToken? = some (token, next)) : next.rest.length < cursor.rest.length := by
  unfold Cursor.nextToken? at h
  split at h
  · rename_i comment hgap
    cases h
    simpa using List.length_pos_iff.mpr (Cursor.rest_ne_nil_of_gap_unclosed hgap)
  · simp at h
  · rename_i offset first rest hgap
    have hle := Cursor.rest_length_of_gap_ends hgap
    have hread := rest_length_readToken offset first rest
    simp only [Option.some.injEq] at h
    rw [h] at hread
    simp only [List.length_cons] at hle hread
    omega

/-- The tokens from the cursor on, behind the ones already found, which come
last first. -/
def Cursor.tokensAfter (found : List Token) (cursor : Cursor) : List Token :=
  match _h : cursor.nextToken? with
  | none => found.reverse
  | some (token, next) => Cursor.tokensAfter (token :: found) next
termination_by cursor.rest.length
decreasing_by exact Cursor.rest_length_of_nextToken? _h

def Token.endOfFile (length : Nat) : Token :=
  ⟨.endOfFile, "", ⟨length, length⟩⟩

/-- The tokens of a source that are still to be handed out, and the length of
the source in bytes. Once they are used up, the end of the file follows again
and again. -/
structure TokenStream where
  pending : List Token
  length : Nat

namespace TokenStream

def ofSource (source : String) : TokenStream where
  pending := Cursor.tokensAfter [] ⟨0, source.toList⟩
  length := byteLength source.toList

/-- The look-ahead, which `advance` hands out next. -/
def peek (stream : TokenStream) : Token :=
  stream.pending.headD (.endOfFile stream.length)

def advance (stream : TokenStream) : Token × TokenStream :=
  (stream.peek, { stream with pending := stream.pending.tail })

def hasMore (stream : TokenStream) : Bool :=
  !stream.pending.isEmpty

/-- All tokens in order, with one end of file as the last. -/
def toList (stream : TokenStream) : List Token :=
  stream.pending ++ [.endOfFile stream.length]

end TokenStream

end JackLang
