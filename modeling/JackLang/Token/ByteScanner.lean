import JackLang.Token.Reader

/-! # Scanning with offsets in machine words

A scanner of text in UTF-8 keeps the characters ahead, the offset at which the token begins
and the offset that it has got to, each by itself. It takes lexemes out of the source by
these offsets. A slice that is out of range or cuts a character aborts the work, and an offset
that does not fit into a word loses its upper bytes.
-/

set_option autoImplicit false

namespace JackLang

/-- What stops a program in the middle of its work. -/
inductive Abort where
  | sourceTooLong
  /-- The range is no range of the source, or it cuts a character. -/
  | slice (range : Span)
  | malformedLines (cause : LineOffsets.Malformed)
  /-- A counter is at its greatest number and is to count on. -/
  | counterFull
deriving DecidableEq, Repr

/-- How many numbers an offset of 32 bits can be. -/
def offsetLimit : Nat := 4294967296

/-- How many numbers a counter or a constant of 16 bits can be. -/
def wordLimit : Nat := 65536

/-- What is kept of an offset. -/
def truncated (offset : Nat) : Nat :=
  offset % offsetLimit

/-- The text in a range of bytes, which has to begin and end with characters. -/
def sliceOf (source : String) (range : Span) : Except Abort String :=
  if range.start ≤ range.stop ∧ (String.Pos.Raw.mk range.start).IsValid source ∧
      (String.Pos.Raw.mk range.stop).IsValid source then
    .ok (String.ofList (sliceBytes source.toList range))
  else .error (.slice range)

/-- The number that a row of decimal digits stands for, if it fits into a word. -/
def parseWord? (digits : String) : Option Nat :=
  if digits ≠ "" ∧ digits.toList.all Char.isDigit ∧ decimalValue digits.toList < wordLimit then
    some (decimalValue digits.toList)
  else none

/-- A scanner with the characters that it has not read, each with its offset, the starts of
the lines found so far, which come last first, the offset at which the token begins, and
the offset behind what it has read. -/
structure ByteScanner where
  source : String
  ahead : List (Nat × Char)
  starts : List Nat
  start : Nat
  current : Nat
  lookAhead : Token

namespace ByteScanner

/-- Reads a character. All reading is done here. -/
def next? (scanner : ByteScanner) : Option (Char × ByteScanner) :=
  match scanner.ahead with
  | [] => none
  | (offset, c) :: ahead =>
      let current := offset + c.utf8Size
      let starts := if c = '\n' then current :: scanner.starts else scanner.starts
      some (c, { scanner with ahead, starts, current })

/-- The next character, which stays unread. -/
def peek? (scanner : ByteScanner) : Option Char :=
  scanner.ahead.head?.map Prod.snd

/-- The character behind the next one, as it stands in the source. -/
def peekNext (scanner : ByteScanner) : Except Abort (Option Char) := do
  let rest ← sliceOf scanner.source ⟨scanner.current, scanner.source.utf8ByteSize⟩
  return rest.toList[1]?

/-- Reads the next character, whatever it is. -/
def skip (scanner : ByteScanner) : ByteScanner :=
  match scanner.next? with
  | some (_, next) => next
  | none => scanner

def nextIf? (wanted : Char → Bool) (scanner : ByteScanner) : Option ByteScanner :=
  match scanner.peek? with
  | some c => if wanted c then some scanner.skip else none
  | none => none

theorem length_skip_of_peek? {scanner : ByteScanner} {c : Char} (h : scanner.peek? = some c) :
    scanner.skip.ahead.length < scanner.ahead.length := by
  rw [skip, next?]
  rw [peek?] at h
  cases hahead : scanner.ahead with
  | nil =>
      rw [hahead] at h
      cases h
  | cons placed ahead => simp

theorem length_of_nextIf? {wanted : Char → Bool} {scanner next : ByteScanner}
    (h : scanner.nextIf? wanted = some next) : next.ahead.length < scanner.ahead.length := by
  unfold nextIf? at h
  split at h
  · rename_i hpeek
    split at h
    · cases h
      exact length_skip_of_peek? hpeek
    · cases h
  · cases h

/-- Reads as long as the characters are of a class. -/
def skipWhile (part : Char → Bool) (scanner : ByteScanner) : ByteScanner :=
  match _h : scanner.nextIf? part with
  | some next => next.skipWhile part
  | none => scanner
termination_by scanner.ahead.length
decreasing_by exact length_of_nextIf? _h

theorem length_skipWhile (part : Char → Bool) (scanner : ByteScanner) :
    (scanner.skipWhile part).ahead.length ≤ scanner.ahead.length := by
  fun_induction skipWhile part scanner with
  | case1 scanner next hnext ih =>
      exact Nat.le_trans ih (Nat.le_of_lt (length_of_nextIf? hnext))
  | case2 => exact Nat.le_refl _

theorem length_of_next? {scanner next : ByteScanner} {c : Char}
    (h : scanner.next? = some (c, next)) : next.ahead.length < scanner.ahead.length := by
  unfold next? at h
  split at h
  · cases h
  · rename_i hahead
    cases h
    simp [hahead]

/-- Reads the inside of a block comment, and tells whether it is closed. -/
def comment (scanner : ByteScanner) : ByteScanner × Bool :=
  match _h : scanner.next? with
  | none => (scanner, false)
  | some (c, next) =>
      if c = '*' then
        match next.nextIf? (· = '/') with
        | some closed => (closed, true)
        | none => next.comment
      else next.comment
termination_by scanner.ahead.length
decreasing_by all_goals exact length_of_next? _h

theorem length_comment (scanner : ByteScanner) :
    scanner.comment.1.ahead.length ≤ scanner.ahead.length := by
  fun_induction comment scanner with
  | case1 => exact Nat.le_refl _
  | case2 scanner next closed hclosed hnext =>
      have hread := length_of_next? hnext
      have hmatched := length_of_nextIf? hclosed
      show closed.ahead.length ≤ scanner.ahead.length
      omega
  | case3 scanner next _ hnext ih =>
      have hread := length_of_next? hnext
      omega
  | case4 scanner c next hnext _ ih =>
      have hread := length_of_next? hnext
      omega

/-- The token begins where the scanner has got. -/
def atStart (scanner : ByteScanner) : ByteScanner :=
  { scanner with start := scanner.current }

/-- Reads a block comment from its opening on. Where it begins is kept, as it may not be
closed. -/
def blockComment (scanner : ByteScanner) : ByteScanner × Bool :=
  scanner.atStart.skip.skip.comment

theorem length_skip (scanner : ByteScanner) :
    scanner.skip.ahead.length ≤ scanner.ahead.length := by
  rw [skip]
  split
  · rename_i hnext
    exact Nat.le_of_lt (length_of_next? hnext)
  · exact Nat.le_refl _

/-- Reads blanks and comments, and tells whether all comments are closed. -/
def skipBlanks (scanner : ByteScanner) : Except Abort (ByteScanner × Bool) :=
  match _h : scanner.peek? with
  | none => .ok (scanner, true)
  | some c =>
      if _hslash : c = '/' then
        match scanner.peekNext with
        | .error abort => .error abort
        | .ok behind =>
            if behind = some '/' then (scanner.skipWhile (· ≠ '\n')).skipBlanks
            else if behind = some '*' then
              match _hcomment : scanner.blockComment with
              | (closed, true) => closed.skipBlanks
              | (finished, false) => .ok (finished, false)
            else .ok (scanner, true)
      else if isBlank c then scanner.skip.skipBlanks
      else .ok (scanner, true)
termination_by scanner.ahead.length
decreasing_by
  · have hnext : scanner.nextIf? (· ≠ '\n') = some scanner.skip := by
      rw [nextIf?, _h, _hslash]
      rfl
    have hskip := length_skip_of_peek? _h
    have hrest := length_skipWhile (· ≠ '\n') scanner.skip
    rw [skipWhile]
    split
    · rename_i next hfound
      rw [hnext] at hfound
      cases hfound
      omega
    · rename_i hnone
      rw [hnext] at hnone
      cases hnone
  · have hopening : scanner.atStart.skip.ahead.length < scanner.ahead.length :=
      length_skip_of_peek? _h
    have hsecond := length_skip scanner.atStart.skip
    have hinside := length_comment scanner.atStart.skip.skip
    rw [blockComment] at _hcomment
    rw [_hcomment] at hinside
    simp only at hinside
    omega
  · exact length_skip_of_peek? _h

/-- The text from the start of the token up to where the scanner has got. -/
def lexeme (scanner : ByteScanner) : Except Abort String :=
  sliceOf scanner.source ⟨scanner.start, scanner.current⟩

/-- A token that begins at the start and ends where the scanner has got. -/
def tokenWith (scanner : ByteScanner) (kind : TokenKind) (lexeme : String) : Token :=
  ⟨kind, lexeme, ⟨truncated scanner.start, truncated scanner.current⟩⟩

def makeToken (scanner : ByteScanner) (kind : TokenKind) :
    Except Abort (Token × ByteScanner) := do
  return (scanner.tokenWith kind (← scanner.lexeme), scanner)

def errorToken (scanner : ByteScanner) (error : LexicalError) : Token × ByteScanner :=
  (scanner.tokenWith (.invalid error) error.message, scanner)

def identifier (scanner : ByteScanner) : Except Abort (Token × ByteScanner) := do
  let behind := scanner.skipWhile isWordPart
  behind.makeToken (.ofWord (← behind.lexeme))

def integer (scanner : ByteScanner) : Except Abort (Token × ByteScanner) := do
  let digits := scanner.skipWhile Char.isDigit
  match digits.nextIf? isWordStart with
  | some next => return (next.skipWhile isWordPart).errorToken .malformedInteger
  | none =>
      match parseWord? (← digits.lexeme) with
      | some value =>
          if value ≤ maxConstant then digits.makeToken .integerConstant
          else return digits.errorToken .integerOutOfRange
      | none => return digits.errorToken .integerOutOfRange

/-- Reads a string to its closing quote, and tells whether there is one on the line. -/
def content (scanner : ByteScanner) : ByteScanner × Bool :=
  match _h : scanner.peek? with
  | none => (scanner, false)
  | some c =>
      if c = '"' then (scanner.skip, true)
      else if c = '\n' then (scanner, false)
      else scanner.skip.content
termination_by scanner.ahead.length
decreasing_by exact length_skip_of_peek? _h

/-- The lexeme of a string leaves out the quotes. -/
def string (scanner : ByteScanner) : Except Abort (Token × ByteScanner) :=
  match scanner.content with
  | (behind, false) => .ok (behind.errorToken .unterminatedString)
  | (behind, true) => do
      let inner ← sliceOf behind.source ⟨behind.start + 1, behind.current - 1⟩
      return (behind.tokenWith .stringConstant inner, behind)

/-- Reads the token that starts here. At the end of the source it is empty. -/
def readToken (scanner : ByteScanner) : Except Abort (Token × ByteScanner) :=
  match scanner.next? with
  | none => scanner.makeToken .endOfFile
  | some (c, next) =>
      match Symbol.ofChar? c with
      | some mark => next.makeToken (.symbol mark)
      | none =>
          if c = '"' then next.string
          else if c.isDigit then next.integer
          else if isWordStart c then next.identifier
          else .ok (next.errorToken .unexpectedCharacter)

def scanToken (scanner : ByteScanner) : Except Abort (Token × ByteScanner) := do
  match ← scanner.skipBlanks with
  | (finished, false) => return finished.errorToken .unterminatedComment
  | (behind, true) => behind.atStart.readToken

/-- A scanner that has read nothing, and holds no token of the source yet. -/
def unread (source : String) : ByteScanner :=
  ⟨source, placedChars source.toList, [0], 0, 0, ⟨.endOfFile, "", ⟨0, 0⟩⟩⟩

/-- A source has to be short enough for its offsets to fit into words. -/
def ofSource (source : String) : Except Abort ByteScanner :=
  if source.utf8ByteSize < offsetLimit - 1 then do
    let (first, scanner) ← (unread source).scanToken
    return { scanner with lookAhead := first }
  else .error .sourceTooLong

def advance (scanner : ByteScanner) : Except Abort (Token × ByteScanner) := do
  let (next, behind) ← scanner.scanToken
  return (scanner.lookAhead, { behind with lookAhead := next })

/-- The line offsets of the source. What is left of it is read first. -/
def lineOffsets (scanner : ByteScanner) : Except Abort LineOffsets :=
  let finished := scanner.skipWhile fun _ => true
  match LineOffsets.ofStarts finished.starts.reverse finished.source.utf8ByteSize with
  | .ok offsets => .ok offsets
  | .error cause => .error (.malformedLines cause)

end ByteScanner

end JackLang
