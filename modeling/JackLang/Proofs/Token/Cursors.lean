import JackLang.Proofs.Token.ByteScanner

/-! # The cursor of a scanner

Whatever a scanner does, its cursor is the offset of the next character that it has not
read, and the start of its token is in front of the cursor. So the text of the token and the
text that is left can be taken out of the source at any time.
-/

set_option autoImplicit false

namespace JackLang

theorem Except.of_bind_eq_ok {ε α β : Type} {answer : Except ε α} {next : α → Except ε β}
    {result : β} (h : (answer >>= next) = .ok result) :
    ∃ value, answer = .ok value ∧ next value = .ok result := by
  cases answer with
  | error cause => cases h
  | ok value => exact ⟨value, rfl, h⟩

namespace ByteScanner

/-- The scanners that come up while a source is scanned. Characters are read one by one, and
all else that is done is to begin a token and to keep one. -/
inductive Occurs (source : String) : ByteScanner → Prop
  | unread : Occurs source (unread source)
  | read {scanner next : ByteScanner} {c : Char} (h : Occurs source scanner)
      (hnext : scanner.next? = some (c, next)) : Occurs source next
  | atStart {scanner : ByteScanner} (h : Occurs source scanner) : Occurs source scanner.atStart
  | holds {scanner : ByteScanner} (h : Occurs source scanner) (token : Token) :
      Occurs source { scanner with lookAhead := token }

/-- The offset of the next character, or of the end of the source. -/
def unreadOffset (scanner : ByteScanner) : Nat :=
  (scanner.ahead.head?.map Prod.fst).getD scanner.source.utf8ByteSize

/-- The cursor is where reading goes on, and offsets stand between characters. -/
structure Placed (source : String) (scanner : ByteScanner) : Prop where
  source_eq : scanner.source = source
  current_eq : scanner.current = scanner.unreadOffset
  started : scanner.start ≤ scanner.current
  lexeme : ∃ text, scanner.lexeme = .ok text
  ahead : sliceOf source ⟨scanner.current, source.utf8ByteSize⟩ =
    .ok (String.ofList (scanner.ahead.map Prod.snd))
  truncated_start : truncated scanner.start = scanner.start
  truncated_current : truncated scanner.current = scanner.current

section Routines

variable {source : String} {scanner behind : ByteScanner} {token : Token}

theorem Occurs.skip (h : Occurs source scanner) : Occurs source scanner.skip := by
  rw [ByteScanner.skip]
  split
  · rename_i hnext
    exact h.read hnext
  · exact h

theorem Occurs.nextIf? {wanted : Char → Bool} (h : Occurs source scanner)
    (hnext : scanner.nextIf? wanted = some behind) : Occurs source behind := by
  unfold ByteScanner.nextIf? at hnext
  split at hnext
  · split at hnext
    · cases hnext
      exact h.skip
    · cases hnext
  · cases hnext

theorem Occurs.skipWhile (h : Occurs source scanner) (part : Char → Bool) :
    Occurs source (scanner.skipWhile part) := by
  fun_induction ByteScanner.skipWhile part scanner with
  | case1 scanner next hnext ih => exact ih (h.nextIf? hnext)
  | case2 => exact h

theorem Occurs.comment (h : Occurs source scanner) : Occurs source scanner.comment.1 := by
  fun_induction ByteScanner.comment scanner with
  | case1 => exact h
  | case2 scanner next closed hclosed hnext => exact (h.read hnext).nextIf? hclosed
  | case3 scanner next hopen hnext ih => exact ih (h.read hnext)
  | case4 scanner c next hnext hstar ih => exact ih (h.read hnext)

theorem Occurs.blockComment (h : Occurs source scanner) :
    Occurs source scanner.blockComment.1 :=
  h.atStart.skip.skip.comment

theorem Occurs.skipBlanks {closed : Bool} (h : Occurs source scanner)
    (hblanks : scanner.skipBlanks = .ok (behind, closed)) : Occurs source behind := by
  fun_induction ByteScanner.skipBlanks scanner with
  | case1 scanner | case6 scanner | case8 scanner =>
      cases hblanks
      exact h
  | case2 => cases hblanks
  | case3 scanner hpeek hbehind ih => exact ih (h.skipWhile _) hblanks
  | case4 scanner next hcomment hpeek hbehind hline ih =>
      have hclosed := h.blockComment
      rw [hcomment] at hclosed
      exact ih hclosed hblanks
  | case5 scanner finished hcomment =>
      cases hblanks
      have hfinished := h.blockComment
      rwa [hcomment] at hfinished
  | case7 scanner c hpeek hslash hblank ih => exact ih h.skip hblanks

theorem Occurs.content (h : Occurs source scanner) : Occurs source scanner.content.1 := by
  fun_induction ByteScanner.content scanner with
  | case1 | case3 => exact h
  | case2 => exact h.skip
  | case4 scanner c hpeek hquote hbreak ih => exact ih h.skip

theorem Occurs.makeToken {kind : TokenKind} (h : Occurs source scanner)
    (htoken : scanner.makeToken kind = .ok (token, behind)) : Occurs source behind := by
  obtain ⟨lexeme, -, hmade⟩ := Except.of_bind_eq_ok htoken
  cases hmade
  exact h

theorem Occurs.identifier (h : Occurs source scanner)
    (htoken : scanner.identifier = .ok (token, behind)) : Occurs source behind := by
  obtain ⟨word, -, hmade⟩ := Except.of_bind_eq_ok htoken
  exact (h.skipWhile isWordPart).makeToken hmade

theorem Occurs.integer (h : Occurs source scanner)
    (htoken : scanner.integer = .ok (token, behind)) : Occurs source behind := by
  have hdigits := h.skipWhile Char.isDigit
  rw [ByteScanner.integer] at htoken
  cases hnext : (scanner.skipWhile Char.isDigit).nextIf? isWordStart with
  | some next =>
      rw [hnext] at htoken
      cases htoken
      exact (hdigits.nextIf? hnext).skipWhile isWordPart
  | none =>
      rw [hnext] at htoken
      obtain ⟨digits, -, hvalue⟩ := Except.of_bind_eq_ok htoken
      split at hvalue
      · split at hvalue
        · exact hdigits.makeToken hvalue
        · cases hvalue
          exact hdigits
      · cases hvalue
        exact hdigits

theorem Occurs.string (h : Occurs source scanner)
    (htoken : scanner.string = .ok (token, behind)) : Occurs source behind := by
  have hcontent := h.content
  rw [ByteScanner.string] at htoken
  split at htoken
  · rename_i last hlast
    cases htoken
    rwa [hlast] at hcontent
  · rename_i last hlast
    obtain ⟨inner, -, hmade⟩ := Except.of_bind_eq_ok htoken
    cases hmade
    rwa [hlast] at hcontent

theorem Occurs.readToken (h : Occurs source scanner)
    (htoken : scanner.readToken = .ok (token, behind)) : Occurs source behind := by
  rw [ByteScanner.readToken] at htoken
  split at htoken
  · exact h.makeToken htoken
  · rename_i c next hnext
    have hread := h.read hnext
    split at htoken
    · exact hread.makeToken htoken
    · split at htoken
      · exact hread.string htoken
      · split at htoken
        · exact hread.integer htoken
        · split at htoken
          · exact hread.identifier htoken
          · cases htoken
            exact hread

theorem Occurs.scanToken (h : Occurs source scanner)
    (htoken : scanner.scanToken = .ok (token, behind)) : Occurs source behind := by
  obtain ⟨⟨blanks, closed⟩, hblanks, hscanned⟩ := Except.of_bind_eq_ok htoken
  have hbehind := h.skipBlanks hblanks
  cases closed with
  | true => exact hbehind.atStart.readToken hscanned
  | false =>
      cases hscanned
      exact hbehind

theorem Occurs.advance (h : Occurs source scanner)
    (htoken : scanner.advance = .ok (token, behind)) : Occurs source behind := by
  obtain ⟨⟨next, last⟩, hscanned, hmade⟩ := Except.of_bind_eq_ok htoken
  cases hmade
  exact (h.scanToken hscanned).holds next

theorem occurs_ofSource (h : ofSource source = .ok scanner) : Occurs source scanner := by
  rw [ofSource] at h
  split at h
  · obtain ⟨⟨first, last⟩, hscanned, hmade⟩ := Except.of_bind_eq_ok h
    cases hmade
    exact (Occurs.unread.scanToken hscanned).holds first
  · cases h

end Routines

/-- A scanner that occurs stands where a reader does, and its token began where the reader
was once. -/
theorem Occurs.exists_reads {source : String} {scanner : ByteScanner}
    (h : Occurs source scanner) :
    ∃ (first : Reader) (passed : List Char) (next : Reader) (look : Token),
      next.source = source.toList ∧ first.Stands ∧ first.Reads passed next ∧
        scanner = next.bytes first.offset look := by
  induction h with
  | unread =>
      exact ⟨_, [], _, _, rfl, ⟨[], rfl, rfl⟩, .refl (.ofSource source), unread_eq source⟩
  | @read scanner read c _ hnext ih =>
      obtain ⟨first, passed, next, look, hsource, hstands, hreads, rfl⟩ := ih
      rw [Reader.next?_bytes] at hnext
      obtain ⟨⟨d, behind⟩, hbehind, heq⟩ := Option.map_eq_some_iff.mp hnext
      obtain ⟨-, rfl⟩ := Prod.mk.inj heq
      have hread := Reader.reads_of_next? hbehind
      exact ⟨first, _, behind, look, hread.source.trans hsource, hstands, hreads.trans hread, rfl⟩
  | atStart _ ih =>
      obtain ⟨first, passed, next, look, hsource, hstands, hreads, rfl⟩ := ih
      exact ⟨next, [], next, look, hsource, hstands.reads hreads, .refl next, rfl⟩
  | holds _ token ih =>
      obtain ⟨first, passed, next, look, hsource, hstands, hreads, rfl⟩ := ih
      exact ⟨first, passed, next, token, hsource, hstands, hreads, rfl⟩

theorem unreadOffset_bytes {reader : Reader} (hstands : reader.Stands) (start : Nat)
    (look : Token) : (reader.bytes start look).unreadOffset = reader.offset := by
  rw [unreadOffset, Reader.bytes]
  cases hrest : reader.rest with
  | nil => exact (hstands.offset_eq hrest).symm
  | cons c rest =>
      rw [placeAfter_cons]
      rfl

theorem Occurs.placed {source : String} {scanner : ByteScanner}
    (hsource : source.utf8ByteSize < offsetLimit - 1) (h : Occurs source scanner) :
    Placed source scanner := by
  obtain ⟨first, passed, next, look, hnextSource, hstands, hreads, rfl⟩ := h.exists_reads
  have hnext := hstands.reads hreads
  have hstring : String.ofList next.source = source := by
    rw [hnextSource, String.ofList_toList]
  have hshort : next.Short := by
    rw [Reader.Short, hnextSource, byteLength_toList]
    exact hsource
  constructor
  case source_eq => exact hstring
  case current_eq => exact (unreadOffset_bytes hnext _ look).symm
  case started =>
    change first.offset ≤ next.offset
    rw [hreads.offset]
    exact Nat.le_add_right _ _
  case lexeme => exact ⟨_, hreads.sliceOf_eq hstands⟩
  case ahead =>
    have hslice := hnext.sliceOf_rest
    rw [hstring] at hslice
    rw [Reader.bytes, map_snd_placeAfter]
    exact hslice
  case truncated_start =>
    refine hstands.truncated_eq ?_
    rwa [Reader.Short, ← hreads.source]
  case truncated_current => exact hnext.truncated_eq hshort

/-- Some number of tokens is taken. -/
def advanced (scanner : ByteScanner) : Nat → Except Abort ByteScanner
  | 0 => .ok scanner
  | number + 1 => do
      let (_, next) ← scanner.advance
      next.advanced number

end ByteScanner

namespace Scanner

/-- The scanner by offsets that stands where a scanner does is one that occurs. -/
structure Mirrored (source : String) (scanner : Scanner) (start : Nat) : Prop where
  sound : scanner.Sound
  occurs : ByteScanner.Occurs source (scanner.bytes start)

variable {source : String} {scanner : Scanner} {start : Nat}

theorem exists_mirrored (hsource : source.utf8ByteSize < offsetLimit - 1) :
    ∃ start, ByteScanner.ofSource source = .ok ((ofSource source).bytes start) ∧
      Mirrored source (ofSource source) start := by
  obtain ⟨hsound, start, hstart⟩ := ofSource_bytes hsource
  exact ⟨start, hstart, hsound, ByteScanner.occurs_ofSource hstart⟩

theorem Mirrored.advance (h : Mirrored source scanner start) :
    ∃ reached, (scanner.bytes start).advance =
        .ok (scanner.lookAhead, scanner.advance.2.bytes reached) ∧
      Mirrored source scanner.advance.2 reached := by
  obtain ⟨reached, hadvance⟩ := scanner.advance_bytes h.sound start
  exact ⟨reached, hadvance, h.sound.advance, h.occurs.advance hadvance⟩

/-- Tokens are taken one after the other, and none of the offsets fails. -/
theorem Mirrored.advanced (h : Mirrored source scanner start) (number : Nat) :
    ∃ reached, (scanner.bytes start).advanced number =
        .ok ((scanner.advanced number).bytes reached) ∧
      Mirrored source (scanner.advanced number) reached := by
  induction number generalizing scanner start with
  | zero => exact ⟨start, rfl, h⟩
  | succ number ih =>
      obtain ⟨middle, hadvance, hnext⟩ := h.advance
      obtain ⟨reached, hrest, hlast⟩ := ih hnext
      refine ⟨reached, ?_, hlast⟩
      rw [ByteScanner.advanced, hadvance]
      exact hrest

end Scanner

end JackLang
