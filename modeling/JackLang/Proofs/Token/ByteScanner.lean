import JackLang.Proofs.Source.Lines
import JackLang.Proofs.Token.Reader
import JackLang.Token.ByteScanner

/-! # Scanning by offsets never fails

A scanner that takes its lexemes out of the source by offsets stands where a reader of the
same characters stands: its offset is that of the next character, and the token has begun
where the reader was then. So every range that it takes out of the source begins and ends
with characters, and it hands out the tokens that reading finds.
-/

set_option autoImplicit false

namespace JackLang

namespace ByteScanner

variable (scanner : ByteScanner)

theorem skipWhile_eq (part : Char → Bool) : scanner.skipWhile part =
    match scanner.nextIf? part with
    | some next => next.skipWhile part
    | none => scanner := by
  rw [skipWhile]
  split <;> rename_i hnext <;> rw [hnext]

theorem comment_eq : scanner.comment =
    match scanner.next? with
    | none => (scanner, false)
    | some (c, next) =>
        if c = '*' then
          match next.nextIf? (· = '/') with
          | some closed => (closed, true)
          | none => next.comment
        else next.comment := by
  rw [comment]
  split <;> rename_i hnext <;> exact hnext ▸ rfl

theorem skipBlanks_eq : scanner.skipBlanks =
    match scanner.peek? with
    | none => .ok (scanner, true)
    | some c =>
        if c = '/' then
          match scanner.peekNext with
          | .error abort => .error abort
          | .ok behind =>
              if behind = some '/' then (scanner.skipWhile (· ≠ '\n')).skipBlanks
              else if behind = some '*' then
                match scanner.blockComment with
                | (closed, true) => closed.skipBlanks
                | (finished, false) => .ok (finished, false)
              else .ok (scanner, true)
        else if isBlank c then scanner.skip.skipBlanks
        else .ok (scanner, true) := by
  rw [skipBlanks]
  split
  · rename_i hpeek
    rw [hpeek]
  · rename_i c hpeek
    rw [hpeek]
    dsimp only
    split
    · cases scanner.peekNext with
      | error abort => rfl
      | ok behind =>
          dsimp only
          split
          · rfl
          · split
            · split <;> rename_i hcomment <;> rw [hcomment]
            · rfl
    · rfl

theorem content_eq : scanner.content =
    match scanner.peek? with
    | none => (scanner, false)
    | some c =>
        if c = '"' then (scanner.skip, true)
        else if c = '\n' then (scanner, false)
        else scanner.skip.content := by
  rw [content]
  split <;> rename_i hpeek <;> rw [hpeek]

end ByteScanner

/-- The scanner that stands where a reader does, behind the start of its token. -/
def Reader.bytes (reader : Reader) (start : Nat) (lookAhead : Token) : ByteScanner :=
  ⟨String.ofList reader.source, placeAfter [] reader.offset reader.rest, reader.starts, start,
    reader.offset, lookAhead⟩

namespace Reader

variable {reader first next behind : Reader} {passed : List Char} {c : Char} {start : Nat}
variable {look : Token} {part : Char → Bool}

theorem next?_bytes (reader : Reader) (start : Nat) (look : Token) :
    (reader.bytes start look).next? =
      reader.next?.map fun read => (read.1, read.2.bytes start look) := by
  rw [ByteScanner.next?, bytes, next?]
  cases reader.rest with
  | nil => rfl
  | cons c rest =>
      rw [placeAfter_cons]
      rfl

theorem peek?_bytes (reader : Reader) (start : Nat) (look : Token) :
    (reader.bytes start look).peek? = reader.rest.head? := by
  rw [ByteScanner.peek?, bytes]
  cases reader.rest with
  | nil => rfl
  | cons c rest =>
      rw [placeAfter_cons]
      rfl

theorem skip_bytes (h : reader.next? = some (c, next)) :
    (reader.bytes start look).skip = next.bytes start look := by
  rw [ByteScanner.skip, next?_bytes, h]
  rfl

theorem head?_of_next? (h : reader.next? = some (c, next)) : reader.rest.head? = some c := by
  rw [(reads_of_next? h).rest]
  rfl

theorem nextIf?_bytes (wanted : Char → Bool) (reader : Reader) (start : Nat) (look : Token) :
    (reader.bytes start look).nextIf? wanted =
      (reader.nextIf? wanted).map fun next => next.bytes start look := by
  rw [ByteScanner.nextIf?, peek?_bytes, nextIf?]
  cases hnext : reader.next? with
  | none =>
      rw [next?_eq_none_iff.mp hnext]
      rfl
  | some read =>
      obtain ⟨c, next⟩ := read
      rw [head?_of_next? hnext]
      dsimp only
      split
      · rw [skip_bytes hnext]
        rfl
      · rfl

theorem skipWhile_bytes (part : Char → Bool) (reader : Reader) (start : Nat) (look : Token) :
    (reader.bytes start look).skipWhile part = (reader.skipWhile part).bytes start look := by
  fun_induction skipWhile part reader with
  | case1 reader next hnext ih =>
      rw [ByteScanner.skipWhile_eq, nextIf?_bytes, hnext]
      exact ih
  | case2 reader hnone =>
      rw [ByteScanner.skipWhile_eq, nextIf?_bytes, hnone]
      rfl

theorem comment_bytes (reader : Reader) (start : Nat) (look : Token) :
    (reader.bytes start look).comment =
      (reader.comment.1.bytes start look, reader.comment.2) := by
  fun_induction comment reader with
  | case1 reader hnone =>
      rw [ByteScanner.comment_eq, next?_bytes, hnone]
      rfl
  | case2 reader next closed hclosed hnext =>
      rw [ByteScanner.comment_eq, next?_bytes, hnext]
      simp only [Option.map_some, if_true, nextIf?_bytes, hclosed]
  | case3 reader next hnone hnext ih =>
      rw [ByteScanner.comment_eq, next?_bytes, hnext]
      simp only [Option.map_some, if_true, nextIf?_bytes, hnone]
      exact ih
  | case4 reader c next hnext hstar ih =>
      rw [ByteScanner.comment_eq, next?_bytes, hnext]
      simp only [Option.map_some, if_neg hstar]
      exact ih

section Slices

/-- What has been read from some place on can be taken out of the source. -/
theorem Reads.sliceOf_eq (hreads : first.Reads passed next) (hstands : first.Stands) :
    sliceOf (String.ofList next.source) ⟨first.offset, next.offset⟩ =
      .ok (String.ofList passed) := by
  have hslice := hreads.slice hstands
  obtain ⟨front, hsource, hoffset⟩ := hstands
  have hbefore : (String.ofList next.source).toList = front ++ (passed ++ next.rest) := by
    rw [String.toList_ofList, hreads.source, hsource, hreads.rest]
  have hwhole : (String.ofList next.source).toList = (front ++ passed) ++ next.rest := by
    rw [hbefore, List.append_assoc]
  have hstart := isValid_of_append hbefore
  have hstop := isValid_of_append hwhole
  rw [← hoffset] at hstart
  rw [byteLength_append, ← hoffset, ← hreads.offset] at hstop
  have horder : first.offset ≤ next.offset := by
    rw [hreads.offset]
    exact Nat.le_add_right _ _
  rw [sliceOf, if_pos ⟨horder, hstart, hstop⟩, String.toList_ofList, hslice]

/-- All that is left of the source can be read. -/
theorem exists_reads_rest (reader : Reader) :
    ∃ last, reader.Reads reader.rest last ∧ last.rest = [] := by
  have hreads := reads_skipWhile (fun _ => true) reader
  have hall : reader.rest.takeWhile (fun _ => true) = reader.rest :=
    List.takeWhile_eq_self_iff.mpr fun _ _ => rfl
  rw [hall] at hreads
  refine ⟨_, hreads, ?_⟩
  rw [rest_skipWhile, List.dropWhile_eq_nil_iff]
  exact fun _ _ => rfl

/-- A reader that has read everything stands at the end of the source. -/
theorem Stands.offset_eq (hstands : reader.Stands) (hrest : reader.rest = []) :
    reader.offset = (String.ofList reader.source).utf8ByteSize := by
  obtain ⟨front, hsource, hoffset⟩ := hstands
  rw [hrest, List.append_nil] at hsource
  rw [← byteLength_toList, String.toList_ofList, hsource, hoffset]

/-- What is left of the source can be taken out of it. -/
theorem Stands.sliceOf_rest (hstands : reader.Stands) :
    sliceOf (String.ofList reader.source)
        ⟨reader.offset, (String.ofList reader.source).utf8ByteSize⟩ =
      .ok (String.ofList reader.rest) := by
  obtain ⟨last, hreads, hrest⟩ := exists_reads_rest reader
  have hslice := hreads.sliceOf_eq hstands
  rwa [(hstands.reads hreads).offset_eq hrest, hreads.source] at hslice

theorem peekNext_bytes (hstands : reader.Stands) :
    (reader.bytes start look).peekNext = .ok reader.rest[1]? := by
  rw [ByteScanner.peekNext, bytes]
  dsimp only
  rw [hstands.sliceOf_rest]
  change Except.ok (String.ofList reader.rest).toList[1]? = _
  rw [String.toList_ofList]

theorem rest_getElem?_one (h : reader.next? = some (c, next)) :
    reader.rest[1]? = next.rest.head? := by
  rw [(reads_of_next? h).rest, List.singleton_append, List.getElem?_cons_succ,
    ← List.head?_eq_getElem?]

theorem blockComment_bytes {opened : Reader} (hnext : reader.next? = some (c, next))
    (hopened : next.next? = some ('*', opened)) :
    (reader.bytes start look).blockComment =
      (opened.comment.1.bytes reader.offset look, opened.comment.2) := by
  have hkept : (reader.bytes start look).atStart = reader.bytes reader.offset look := rfl
  rw [ByteScanner.blockComment, hkept, skip_bytes hnext, skip_bytes hopened, comment_bytes]

/-- What passing over a gap comes to. Where a comment is not closed, its start is kept. -/
def gapBytes (start : Nat) (look : Token) : Reader × Option Nat → ByteScanner × Bool
  | (behind, none) => (behind.bytes start look, true)
  | (finished, some opening) => (finished.bytes opening look, false)

theorem skipBlanks_bytes (hstands : reader.Stands) (start : Nat) (look : Token) :
    ∃ reached, (reader.bytes start look).skipBlanks = .ok (gapBytes reached look reader.gap) := by
  fun_induction gap reader generalizing start with
  | case1 reader hnone =>
      refine ⟨start, ?_⟩
      rw [ByteScanner.skipBlanks_eq, peek?_bytes, next?_eq_none_iff.mp hnone]
      rfl
  | case2 reader next behind hbehind hnext ih =>
      have hhead := rest_getElem?_one hnext
      rw [head?_of_next? hbehind] at hhead
      rw [ByteScanner.skipBlanks_eq, peek?_bytes, head?_of_next? hnext]
      simp only [if_true, peekNext_bytes hstands, hhead, skipWhile_bytes]
      exact ih (hstands.reads (reads_skipWhile _ reader)) start
  | case3 reader next opened hopened closed hcomment hnext ih =>
      have hhead := rest_getElem?_one hnext
      rw [head?_of_next? hopened] at hhead
      obtain ⟨inside, hinside⟩ := (passesComment_comment opened).reads
      rw [hcomment] at hinside
      have hopening := (reads_of_next? hnext).trans (reads_of_next? hopened)
      rw [ByteScanner.skipBlanks_eq, peek?_bytes, head?_of_next? hnext]
      simp only [if_true, peekNext_bytes hstands, hhead, blockComment_bytes hnext hopened,
        hcomment]
      exact ih (hstands.reads (hopening.trans hinside)) reader.offset
  | case4 reader next opened hopened finished hcomment hnext =>
      have hhead := rest_getElem?_one hnext
      rw [head?_of_next? hopened] at hhead
      refine ⟨start, ?_⟩
      rw [ByteScanner.skipBlanks_eq, peek?_bytes, head?_of_next? hnext]
      simp only [if_true, peekNext_bytes hstands, hhead, blockComment_bytes hnext hopened,
        hcomment]
      rfl
  | case5 reader next hline hblock hnext =>
      have hhead := rest_getElem?_one hnext
      have hopens : ¬OpensComment '/' next.rest := not_opensComment hline hblock
      have hslash : next.rest.head? ≠ some '/' := fun hhead => hopens ⟨rfl, .inl hhead⟩
      have hstar : next.rest.head? ≠ some '*' := fun hhead => hopens ⟨rfl, .inr hhead⟩
      refine ⟨start, ?_⟩
      rw [ByteScanner.skipBlanks_eq, peek?_bytes, head?_of_next? hnext]
      simp only [if_true, peekNext_bytes hstands, hhead, if_neg hslash, if_neg hstar]
      rfl
  | case6 reader c next hnext hslash hblank ih =>
      rw [ByteScanner.skipBlanks_eq, peek?_bytes, head?_of_next? hnext]
      simp only [if_neg hslash, if_pos hblank, skip_bytes hnext]
      exact ih (hstands.reads (reads_of_next? hnext)) start
  | case7 reader c next hnext hslash hblank =>
      refine ⟨start, ?_⟩
      rw [ByteScanner.skipBlanks_eq, peek?_bytes, head?_of_next? hnext]
      simp only [if_neg hslash, if_neg hblank]
      rfl

end Slices

section Tokens

/-- The offsets of the source fit into words. -/
def Short (reader : Reader) : Prop :=
  byteLength reader.source < offsetLimit - 1

theorem Stands.offset_le (hstands : reader.Stands) : reader.offset ≤ byteLength reader.source := by
  obtain ⟨front, hsource, hoffset⟩ := hstands
  rw [hsource, hoffset, byteLength_append]
  exact Nat.le_add_right _ _

/-- Nothing is lost of an offset. -/
theorem Stands.truncated_eq (hstands : reader.Stands) (hshort : reader.Short) :
    truncated reader.offset = reader.offset := by
  have hle := hstands.offset_le
  rw [Short] at hshort
  exact Nat.mod_eq_of_lt (by omega)

/-- A token has begun where the first reader stands, and is read up to the next one. -/
structure Begun (first : Reader) (passed : List Char) (next : Reader) : Prop where
  stands : first.Stands
  short : first.Short
  reads : first.Reads passed next

theorem Begun.reads_trans {more : List Char} (h : first.Begun passed next)
    (hmore : next.Reads more behind) : first.Begun (passed ++ more) behind :=
  ⟨h.stands, h.short, h.reads.trans hmore⟩

theorem Begun.tokenWith_eq (h : first.Begun passed next) (kind : TokenKind) (lexeme : String) :
    (next.bytes first.offset look).tokenWith kind lexeme =
      ⟨kind, lexeme, ⟨first.offset, next.offset⟩⟩ := by
  have hshort : next.Short := by
    rw [Short, h.reads.source]
    exact h.short
  have hstop := (h.stands.reads h.reads).truncated_eq hshort
  rw [ByteScanner.tokenWith, bytes]
  dsimp only
  rw [h.stands.truncated_eq h.short, hstop]

theorem Begun.lexeme_eq (h : first.Begun passed next) :
    (next.bytes first.offset look).lexeme = .ok (String.ofList passed) :=
  h.reads.sliceOf_eq h.stands

theorem Begun.tokenFrom_eq (h : first.Begun passed next) (kind : TokenKind) :
    next.tokenFrom first.offset kind =
      ⟨kind, String.ofList passed, ⟨first.offset, next.offset⟩⟩ := by
  rw [tokenFrom, h.reads.slice h.stands]

theorem Begun.makeToken_eq (h : first.Begun passed next) (kind : TokenKind) :
    (next.bytes first.offset look).makeToken kind =
      .ok (next.tokenFrom first.offset kind, next.bytes first.offset look) := by
  rw [ByteScanner.makeToken, h.lexeme_eq]
  change Except.ok ((next.bytes first.offset look).tokenWith kind (String.ofList passed), _) = _
  rw [h.tokenWith_eq, h.tokenFrom_eq]

theorem Begun.errorToken_eq (h : first.Begun passed next) (error : LexicalError) :
    (next.bytes first.offset look).errorToken error =
      (next.errorFrom first.offset error, next.bytes first.offset look) := by
  rw [ByteScanner.errorToken, h.tokenWith_eq, errorFrom]

theorem Begun.identifier_eq (h : first.Begun passed next) :
    (next.bytes first.offset look).identifier =
      .ok ((next.word first.offset).1, (next.word first.offset).2.bytes first.offset look) := by
  have hword := h.reads_trans (reads_skipWhile isWordPart next)
  rw [ByteScanner.identifier, skipWhile_bytes, hword.lexeme_eq]
  change (bytes _ _ _).makeToken (.ofWord _) = _
  rw [hword.makeToken_eq, word, hword.tokenFrom_eq, hword.tokenFrom_eq]

theorem parseWord?_of_digits {digits : List Char} (hne : digits ≠ [])
    (hdigits : ∀ d ∈ digits, d.isDigit = true) :
    parseWord? (String.ofList digits) =
      if decimalValue digits < wordLimit then some (decimalValue digits) else none := by
  have hall : digits.all Char.isDigit = true := List.all_eq_true.mpr hdigits
  have hnonempty : String.ofList digits ≠ "" := by
    intro hempty
    apply hne
    rw [← String.toList_ofList (l := digits), hempty]
    rfl
  rw [parseWord?, String.toList_ofList, hall]
  simp [hnonempty]

/-- A number that does not fit into a word is no constant either. -/
theorem Begun.integer_eq (h : first.Begun [c] next) (hc : c.isDigit = true) :
    (next.bytes first.offset look).integer =
      .ok ((next.integer first.offset).1,
        (next.integer first.offset).2.bytes first.offset look) := by
  have hrun := h.reads_trans (reads_skipWhile Char.isDigit next)
  have hdigits : ∀ d ∈ [c] ++ next.rest.takeWhile Char.isDigit, d.isDigit = true := by
    rintro d (_ | ⟨_, hmem⟩)
    · exact hc
    · exact mem_takeWhile hmem
  rw [ByteScanner.integer, Reader.integer, skipWhile_bytes, nextIf?_bytes]
  cases hnext : (next.skipWhile Char.isDigit).nextIf? isWordStart with
  | some letter =>
      obtain ⟨d, hletter, _⟩ := nextIf?_eq_some hnext
      have hword := (hrun.reads_trans (reads_of_next? hletter)).reads_trans
        (reads_skipWhile isWordPart letter)
      simp only [Option.map_some, skipWhile_bytes, hword.errorToken_eq]
      rfl
  | none =>
      have hparsed := parseWord?_of_digits (by simp) hdigits
      have hwords : maxConstant < wordLimit := by decide
      simp only [Option.map_none, hrun.lexeme_eq, hrun.errorToken_eq, hrun.makeToken_eq, bind,
        Except.bind, hparsed, hrun.tokenFrom_eq, String.toList_ofList]
      by_cases hvalue : decimalValue ([c] ++ next.rest.takeWhile Char.isDigit) ≤ maxConstant
      · rw [if_pos (Nat.lt_of_le_of_lt hvalue hwords), if_pos hvalue]
        simp only [if_pos hvalue]
      · rw [if_neg hvalue]
        split
        · rename_i value hparsed
          split at hparsed
          · cases hparsed
            rw [if_neg hvalue]
            rfl
          · cases hparsed
        · rfl

theorem content_bytes (reader : Reader) (start : Nat) (look : Token) :
    (reader.bytes start look).content =
      match (reader.skipWhile isQuotable).nextIf? (· = '"') with
      | some behind => (behind.bytes start look, true)
      | none => ((reader.skipWhile isQuotable).bytes start look, false) := by
  fun_induction skipWhile isQuotable reader with
  | case1 reader next hnext ih =>
      obtain ⟨c, hread, hc⟩ := nextIf?_eq_some hnext
      obtain ⟨hquote, hbreak⟩ := isQuotable_iff.mp hc
      rw [ByteScanner.content_eq, peek?_bytes, head?_of_next? hread]
      simp only [if_neg hquote, if_neg hbreak, skip_bytes hread]
      exact ih
  | case2 reader hnone =>
      rw [ByteScanner.content_eq, peek?_bytes]
      cases hread : reader.next? with
      | none =>
          rw [nextIf?, hread, next?_eq_none_iff.mp hread]
          rfl
      | some read =>
          obtain ⟨c, next⟩ := read
          have hend := runEnds_of_nextIf? hnone c (head?_of_next? hread)
          rw [head?_of_next? hread, nextIf?, hread]
          dsimp only
          by_cases hquote : c = '"'
          · simp [hquote, skip_bytes hread]
          · have hbreak : c = '\n' := by
              by_contra hbreak
              rw [isQuotable_iff.mpr ⟨hquote, hbreak⟩] at hend
              cases hend
            simp [hbreak]

theorem Begun.string_eq (h : first.Begun ['"'] next) :
    (next.bytes first.offset look).string =
      .ok ((next.string first.offset).1,
        (next.string first.offset).2.bytes first.offset look) := by
  have hrun := reads_skipWhile isQuotable next
  rw [ByteScanner.string, Reader.string, content_bytes]
  cases hclosing : (next.skipWhile isQuotable).nextIf? (· = '"') with
  | none =>
      simp only [(h.reads_trans hrun).errorToken_eq]
  | some closed =>
      obtain ⟨d, hclosed, hd⟩ := nextIf?_eq_some hclosing
      obtain rfl : d = '"' := of_decide_eq_true hd
      have hread := reads_of_next? hclosed
      have hall := (h.reads_trans hrun).reads_trans hread
      have hinner := hrun.sliceOf_eq (h.stands.reads h.reads)
      have hslice := hrun.slice (h.stands.reads h.reads)
      rw [h.reads.offset] at hinner hslice
      simp only [hall.tokenWith_eq]
      have hsource : closed.source = (next.skipWhile isQuotable).source := hread.source
      have hoffset : closed.offset - 1 = (next.skipWhile isQuotable).offset := by
        rw [hread.offset]
        rfl
      change (do
        let inner ← sliceOf (String.ofList closed.source) ⟨first.offset + 1, closed.offset - 1⟩
        return (Token.mk .stringConstant inner ⟨first.offset, closed.offset⟩,
          closed.bytes first.offset look)) = _
      rw [hoffset, hsource]
      have hbyte : byteLength ['"'] = 1 := rfl
      rw [hbyte] at hinner hslice
      rw [hinner, hslice]
      rfl

theorem Short.reads (hshort : reader.Short) (hreads : reader.Reads passed next) : next.Short := by
  rw [Short, hreads.source]
  exact hshort

/-- A comment that is not closed is read from its opening to the end. -/
theorem exists_begun_of_gap {finished : Reader} {opening : Nat} (hstands : reader.Stands)
    (hshort : reader.Short) (h : reader.gap = (finished, some opening)) :
    ∃ (first : Reader) (passed : List Char), first.offset = opening ∧
      first.Begun passed finished := by
  fun_induction gap reader with
  | case1 | case5 | case7 => cases h
  | case2 reader next behind hbehind hnext ih =>
      have hreads := reads_skipWhile (· ≠ '\n') reader
      exact ih (hstands.reads hreads) (hshort.reads hreads) h
  | case3 reader next opened hopened closed hcomment hnext ih =>
      obtain ⟨inside, hinside⟩ := (passesComment_comment opened).reads
      rw [hcomment] at hinside
      have hreads := ((reads_of_next? hnext).trans (reads_of_next? hopened)).trans hinside
      exact ih (hstands.reads hreads) (hshort.reads hreads) h
  | case4 reader next opened hopened last hcomment hnext =>
      cases h
      obtain ⟨inside, hinside⟩ := (passesComment_comment opened).reads
      rw [hcomment] at hinside
      have hreads := ((reads_of_next? hnext).trans (reads_of_next? hopened)).trans hinside
      exact ⟨reader, _, rfl, hstands, hshort, hreads⟩
  | case6 reader c next hnext hslash hblank ih =>
      have hreads := reads_of_next? hnext
      exact ih (hstands.reads hreads) (hshort.reads hreads) h

theorem readToken_bytes (hstands : reader.Stands) (hshort : reader.Short) (look : Token) :
    (reader.bytes reader.offset look).readToken =
      .ok (reader.readToken.1, reader.readToken.2.bytes reader.offset look) := by
  rw [ByteScanner.readToken, next?_bytes, readToken]
  cases hnext : reader.next? with
  | none =>
      have hbegun : reader.Begun [] reader := ⟨hstands, hshort, .refl reader⟩
      exact hbegun.makeToken_eq .endOfFile
  | some read =>
      obtain ⟨c, next⟩ := read
      have hbegun : reader.Begun [c] next := ⟨hstands, hshort, reads_of_next? hnext⟩
      dsimp only [Option.map_some]
      cases Symbol.ofChar? c with
      | some mark => exact hbegun.makeToken_eq _
      | none =>
          dsimp only
          split
          · rename_i hquote
            subst hquote
            exact hbegun.string_eq
          · split
            · rename_i hdigit
              exact hbegun.integer_eq hdigit
            · split
              · exact hbegun.identifier_eq
              · rw [hbegun.errorToken_eq]

theorem scanToken_bytes (hstands : reader.Stands) (hshort : reader.Short) (start : Nat)
    (look : Token) :
    ∃ reached, (reader.bytes start look).scanToken =
      .ok (reader.scanToken.1, reader.scanToken.2.bytes reached look) := by
  obtain ⟨reached, hblanks⟩ := skipBlanks_bytes hstands start look
  rw [ByteScanner.scanToken, hblanks, scanToken]
  rcases hgap : reader.gap with ⟨behind, _ | opening⟩
  · obtain ⟨blank, hblank⟩ := (passesGap_gap reader).reads
    rw [hgap] at hblank
    refine ⟨behind.offset, ?_⟩
    exact readToken_bytes (hstands.reads hblank) (hshort.reads hblank) look
  · obtain ⟨first, passed, rfl, hbegun⟩ := exists_begun_of_gap hstands hshort hgap
    refine ⟨first.offset, ?_⟩
    change Except.ok ((behind.bytes first.offset look).errorToken .unterminatedComment) = _
    rw [hbegun.errorToken_eq]

end Tokens

end Reader

theorem ByteScanner.unread_eq (source : String) :
    unread source = (Reader.ofSource source).bytes 0 ⟨.endOfFile, "", ⟨0, 0⟩⟩ := by
  rw [unread, Reader.bytes, Reader.ofSource, String.ofList_toList]
  rfl

/-- The scanner by offsets that stands where a scanner of characters does. -/
def Scanner.bytes (scanner : Scanner) (start : Nat) : ByteScanner :=
  scanner.reader.bytes start scanner.lookAhead

namespace Scanner

/-- The scanner stands in a source whose offsets fit into words. -/
structure Sound (scanner : Scanner) : Prop where
  stands : scanner.reader.Stands
  short : scanner.reader.Short

variable {scanner : Scanner} {source : String}

theorem Sound.advance (h : scanner.Sound) : scanner.advance.2.Sound := by
  obtain ⟨⟨passed, hreads⟩, _⟩ := Reader.reads_scanToken h.stands
  exact ⟨h.stands.reads hreads, h.short.reads hreads⟩

theorem advance_bytes (h : scanner.Sound) (start : Nat) :
    ∃ reached, (scanner.bytes start).advance =
      .ok (scanner.lookAhead, scanner.advance.2.bytes reached) := by
  obtain ⟨reached, hscanned⟩ := Reader.scanToken_bytes h.stands h.short start scanner.lookAhead
  refine ⟨reached, ?_⟩
  rw [ByteScanner.advance, bytes, hscanned]
  rfl

theorem ofSource_bytes (hshort : source.utf8ByteSize < offsetLimit - 1) :
    (ofSource source).Sound ∧
      ∃ start, ByteScanner.ofSource source = .ok ((ofSource source).bytes start) := by
  have hstands : (Reader.ofSource source).Stands := ⟨[], rfl, rfl⟩
  have hbytes : (Reader.ofSource source).Short := by
    rw [Reader.Short, Reader.ofSource, byteLength_toList]
    exact hshort
  obtain ⟨⟨passed, hreads⟩, _⟩ := Reader.reads_scanToken hstands
  refine ⟨⟨hstands.reads hreads, hbytes.reads hreads⟩, ?_⟩
  obtain ⟨start, hscanned⟩ :=
    Reader.scanToken_bytes hstands hbytes 0 ⟨.endOfFile, "", ⟨0, 0⟩⟩
  refine ⟨start, ?_⟩
  rw [ByteScanner.ofSource, if_pos hshort, ByteScanner.unread_eq, hscanned]
  rfl

theorem lineOffsets_bytes (scanner : Scanner) (start : Nat) :
    (scanner.bytes start).lineOffsets = scanner.lineOffsets.mapError .malformedLines := by
  rw [ByteScanner.lineOffsets, bytes, Reader.skipWhile_bytes, lineOffsets, ← byteLength_toList]
  simp only [Reader.bytes, String.toList_ofList]
  generalize LineOffsets.ofStarts _ _ = offsets
  cases offsets <;> rfl

end Scanner

end JackLang
