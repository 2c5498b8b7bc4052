import JackLang.Source.LineOffsets
import JackLang.Token.Scan

/-! # Reading a source character by character

A scanner keeps the token ahead and what it has read of the source. Whatever it passes
over, in a gap or in a token, it reads one character at a time, and it notes a line behind
each line break. What it has not read when its lines are asked for it reads then.
-/

set_option autoImplicit false

namespace JackLang

/-- A source in the course of being read: the characters that are left, the offset of the
first of them, and the starts of the lines found so far, which come last first. -/
structure Reader where
  source : List Char
  rest : List Char
  offset : Nat
  starts : List Nat

namespace Reader

def ofSource (source : String) : Reader :=
  ⟨source.toList, source.toList, 0, [0]⟩

/-- Reads a character. All reading is done here. -/
def next? (reader : Reader) : Option (Char × Reader) :=
  match reader.rest with
  | [] => none
  | c :: rest =>
      let offset := reader.offset + c.utf8Size
      let starts := if c = '\n' then offset :: reader.starts else reader.starts
      some (c, ⟨reader.source, rest, offset, starts⟩)

def nextIf? (wanted : Char → Bool) (reader : Reader) : Option Reader :=
  match reader.next? with
  | some (c, next) => if wanted c then some next else none
  | none => none

theorem rest_length_of_next? {reader next : Reader} {c : Char}
    (h : reader.next? = some (c, next)) : next.rest.length < reader.rest.length := by
  unfold next? at h
  split at h
  · cases h
  · rename_i heq
    cases h
    simp [heq]

theorem rest_length_of_nextIf? {wanted : Char → Bool} {reader next : Reader}
    (h : reader.nextIf? wanted = some next) : next.rest.length < reader.rest.length := by
  unfold nextIf? at h
  split at h
  · rename_i hnext
    split at h
    · cases h
      exact rest_length_of_next? hnext
    · cases h
  · cases h

/-- Reads as long as the characters are of a class. -/
def skipWhile (part : Char → Bool) (reader : Reader) : Reader :=
  match _h : reader.nextIf? part with
  | some next => next.skipWhile part
  | none => reader
termination_by reader.rest.length
decreasing_by exact rest_length_of_nextIf? _h

/-- Reads the inside of a block comment, and tells whether it is closed. -/
def comment (reader : Reader) : Reader × Bool :=
  match _h : reader.next? with
  | none => (reader, false)
  | some (c, next) =>
      if c = '*' then
        match next.nextIf? (· = '/') with
        | some closed => (closed, true)
        | none => next.comment
      else next.comment
termination_by reader.rest.length
decreasing_by all_goals exact rest_length_of_next? _h

theorem rest_length_skipWhile (part : Char → Bool) (reader : Reader) :
    (reader.skipWhile part).rest.length ≤ reader.rest.length := by
  fun_induction skipWhile part reader with
  | case1 reader next hnext ih =>
      exact Nat.le_trans ih (Nat.le_of_lt (rest_length_of_nextIf? hnext))
  | case2 => exact Nat.le_refl _

theorem rest_length_comment (reader : Reader) :
    reader.comment.1.rest.length ≤ reader.rest.length := by
  fun_induction comment reader with
  | case1 => exact Nat.le_refl _
  | case2 reader next closed hclosed hnext =>
      have hread := rest_length_of_next? hnext
      have hmatched := rest_length_of_nextIf? hclosed
      show closed.rest.length ≤ reader.rest.length
      omega
  | case3 reader next _ hnext ih =>
      have hread := rest_length_of_next? hnext
      omega
  | case4 reader c next hnext _ ih =>
      have hread := rest_length_of_next? hnext
      omega

theorem skipWhile_of_next? {part : Char → Bool} {reader next : Reader} {c : Char}
    (h : reader.next? = some (c, next)) (hpart : part c = true) :
    reader.skipWhile part = next.skipWhile part := by
  rw [skipWhile]
  split
  · rename_i behind hnext
    rw [nextIf?, h] at hnext
    simp only [hpart, if_true] at hnext
    rw [Option.some.inj hnext]
  · rename_i hnone
    rw [nextIf?, h] at hnone
    simp only [hpart, if_true] at hnone
    cases hnone

/-- Reads blanks and comments. Where a comment is not closed, its start is given. -/
def gap (reader : Reader) : Reader × Option Nat :=
  match _h : reader.next? with
  | none => (reader, none)
  | some (c, next) =>
      if _hslash : c = '/' then
        match _hnext : next.next? with
        | some ('/', _) => (reader.skipWhile (· ≠ '\n')).gap
        | some ('*', opened) =>
            match _hcomment : opened.comment with
            | (closed, true) => closed.gap
            | (finished, false) => (finished, some reader.offset)
        | _ => (reader, none)
      else if isBlank c then next.gap
      else (reader, none)
termination_by reader.rest.length
decreasing_by
  · have hread := rest_length_of_next? _h
    have hskipped := rest_length_skipWhile (· ≠ '\n') next
    rw [skipWhile_of_next? _h (by rw [_hslash]; rfl)]
    omega
  · have hread := rest_length_of_next? _h
    have hopened := rest_length_of_next? _hnext
    have hclosed := rest_length_comment opened
    rw [_hcomment] at hclosed
    simp only at hclosed
    omega
  · exact rest_length_of_next? _h

/-- A token over what has been read from its start on. -/
def tokenFrom (start : Nat) (kind : TokenKind) (reader : Reader) : Token :=
  let span := ⟨start, reader.offset⟩
  ⟨kind, String.ofList (sliceBytes reader.source span), span⟩

def errorFrom (start : Nat) (error : LexicalError) (reader : Reader) : Token :=
  ⟨.invalid error, error.message, ⟨start, reader.offset⟩⟩

def word (start : Nat) (reader : Reader) : Token × Reader :=
  let behind := reader.skipWhile isWordPart
  let token := behind.tokenFrom start .identifier
  ({ token with kind := .ofWord token.lexeme }, behind)

/-- Reads a number. Digits that go on as a word are read to the end of the word. -/
def integer (start : Nat) (reader : Reader) : Token × Reader :=
  let digits := reader.skipWhile Char.isDigit
  match digits.nextIf? isWordStart with
  | some next =>
      let behind := next.skipWhile isWordPart
      (behind.errorFrom start .malformedInteger, behind)
  | none =>
      let token := digits.tokenFrom start .integerConstant
      if decimalValue token.lexeme.toList ≤ maxConstant then (token, digits)
      else (digits.errorFrom start .integerOutOfRange, digits)

/-- Reads a string behind its quote. The lexeme is what stands between the quotes. -/
def string (start : Nat) (reader : Reader) : Token × Reader :=
  let content := reader.skipWhile isQuotable
  match content.nextIf? (· = '"') with
  | some behind =>
      let inner := sliceBytes behind.source ⟨start + 1, behind.offset - 1⟩
      (⟨.stringConstant, String.ofList inner, ⟨start, behind.offset⟩⟩, behind)
  | none => (content.errorFrom start .unterminatedString, content)

/-- Reads the token that starts here. At the end of the source it is empty. -/
def readToken (reader : Reader) : Token × Reader :=
  let start := reader.offset
  match reader.next? with
  | none => (reader.tokenFrom start .endOfFile, reader)
  | some (c, next) =>
      match Symbol.ofChar? c with
      | some mark => (next.tokenFrom start (.symbol mark), next)
      | none =>
          if c = '"' then next.string start
          else if c.isDigit then next.integer start
          else if isWordStart c then next.word start
          else (next.errorFrom start .unexpectedCharacter, next)

def scanToken (reader : Reader) : Token × Reader :=
  match reader.gap with
  | (finished, some start) => (finished.errorFrom start .unterminatedComment, finished)
  | (behind, none) => behind.readToken

end Reader

/-- A scanner holds one token of look-ahead. -/
structure Scanner where
  reader : Reader
  lookAhead : Token

namespace Scanner

def ofSource (source : String) : Scanner :=
  let (first, reader) := (Reader.ofSource source).scanToken
  ⟨reader, first⟩

def advance (scanner : Scanner) : Token × Scanner :=
  let (next, reader) := scanner.reader.scanToken
  (scanner.lookAhead, ⟨reader, next⟩)

/-- The line offsets of the source. What is left of it is read first. -/
def lineOffsets (scanner : Scanner) : Except LineOffsets.Malformed LineOffsets :=
  let finished := scanner.reader.skipWhile fun _ => true
  LineOffsets.ofStarts finished.starts.reverse (byteLength finished.source)

end Scanner

end JackLang
