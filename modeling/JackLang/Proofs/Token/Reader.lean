import JackLang.Proofs.Token.LineStarts
import JackLang.Proofs.Token.Respelling
import JackLang.Token.Reader
import Mathlib.Data.List.TakeWhile

/-! # Reading finds the tokens and the lines

Reading a source character by character hands out the tokens that scanning finds in it.
Everything that is read goes through one place, which notes the lines, so what has been
noted is always what the text in front holds.
-/

set_option autoImplicit false

namespace JackLang

theorem Cursor.tokensAfter_eq_append (found : List Token) (cursor : Cursor) :
    cursor.tokensAfter found = found.reverse ++ cursor.tokensAfter [] := by
  obtain ⟨tokens, hlaidOut⟩ := exists_laidOut cursor.offset cursor.rest
  rw [hlaidOut.tokensAfter found, hlaidOut.tokensAfter []]
  rfl

namespace Reader

def cursor (reader : Reader) : Cursor := ⟨reader.offset, reader.rest⟩

/-- From one reader to the other the characters are read. -/
structure Reads (reader : Reader) (passed : List Char) (next : Reader) : Prop where
  source : next.source = reader.source
  rest : reader.rest = passed ++ next.rest
  offset : next.offset = reader.offset + byteLength passed
  starts : next.starts = (LineOffsets.startsAfter reader.starts reader.offset passed).reverse

section Reads

variable {reader next last : Reader} {passed more : List Char} {c : Char}

theorem Reads.refl (reader : Reader) : reader.Reads [] reader :=
  ⟨rfl, rfl, rfl, (List.reverse_reverse _).symm⟩

theorem Reads.trans (h : reader.Reads passed next) (hnext : next.Reads more last) :
    reader.Reads (passed ++ more) last := by
  refine ⟨hnext.source.trans h.source, ?_, ?_, ?_⟩
  · rw [h.rest, hnext.rest, List.append_assoc]
  · rw [hnext.offset, h.offset, byteLength_append, Nat.add_assoc]
  · rw [hnext.starts, h.starts, h.offset, LineOffsets.startsAfter_append]

theorem Reads.cursor_eq (h : reader.Reads passed next) :
    next.cursor = ⟨reader.offset + byteLength passed, next.rest⟩ := by
  rw [cursor, h.offset]

theorem next?_eq_none_iff : reader.next? = none ↔ reader.rest = [] := by
  rw [next?]
  split <;> simp_all

theorem reads_of_next? (h : reader.next? = some (c, next)) : reader.Reads [c] next := by
  unfold next? at h
  split at h
  · cases h
  · rename_i heq
    cases h
    exact ⟨rfl, heq, rfl, (List.reverse_reverse _).symm⟩

theorem exists_next?_of_rest {rest : List Char} (h : reader.rest = c :: rest) :
    ∃ next, reader.next? = some (c, next) ∧ next.rest = rest := by
  rw [next?, h]
  exact ⟨_, rfl, rfl⟩

theorem nextIf?_eq_some {wanted : Char → Bool} (h : reader.nextIf? wanted = some next) :
    ∃ c, reader.next? = some (c, next) ∧ wanted c = true := by
  unfold nextIf? at h
  split at h
  · rename_i c behind hnext
    split at h
    · rename_i hwanted
      cases h
      exact ⟨c, hnext, hwanted⟩
    · cases h
  · cases h

/-- The text does not go on with a wanted character. -/
theorem runEnds_of_nextIf? {wanted : Char → Bool} (h : reader.nextIf? wanted = none) :
    RunEnds wanted reader.rest := by
  intro c hc
  obtain ⟨rest, hrest⟩ := List.head?_eq_some_iff.mp hc
  obtain ⟨next, hnext, _⟩ := exists_next?_of_rest hrest
  rw [nextIf?, hnext] at h
  simpa using h

/-- Reading on as long as a class goes on reads the longest run of it. -/
theorem reads_skipWhile (part : Char → Bool) (reader : Reader) :
    reader.Reads (reader.rest.takeWhile part) (reader.skipWhile part) := by
  fun_induction skipWhile part reader with
  | case1 reader next hnext ih =>
      obtain ⟨c, hread, hpart⟩ := nextIf?_eq_some hnext
      have hreads := (reads_of_next? hread).trans ih
      have hrest := (reads_of_next? hread).rest
      rw [hrest, List.singleton_append, List.takeWhile_cons_of_pos hpart]
      exact hreads
  | case2 reader hnone =>
      have hnothing : ∀ c ∈ ([] : List Char), part c = true := by simp
      have hrun := takeWhile_append_of_runEnds hnothing (runEnds_of_nextIf? hnone)
      rw [List.nil_append] at hrun
      rw [hrun]
      exact .refl reader

theorem rest_skipWhile (part : Char → Bool) (reader : Reader) :
    (reader.skipWhile part).rest = reader.rest.dropWhile part := by
  have hrest := (reads_skipWhile part reader).rest
  have hsplit : reader.rest.takeWhile part ++ reader.rest.dropWhile part = reader.rest :=
    List.takeWhile_append_dropWhile
  exact (List.append_cancel_left (hsplit.trans hrest)).symm

end Reads

section Gaps

variable {reader next behind opened closed : Reader} {passed : List Char} {c : Char}

/-- A comment is read up to where it is closed, or to the end of the source. -/
structure PassesComment (reader : Reader) (result : Reader × Bool) : Prop where
  reads : ∃ passed, reader.Reads passed result.1
  closed : result.2 = true → afterComment reader.offset reader.rest = some result.1.cursor
  unclosed : result.2 = false →
    afterComment reader.offset reader.rest = none ∧ result.1.rest = []

theorem PassesComment.of_next? {result : Reader × Bool} (h : next.PassesComment result)
    (hnext : reader.next? = some (c, next)) (hopen : ¬(c = '*' ∧ next.rest.head? = some '/')) :
    reader.PassesComment result := by
  have hread := reads_of_next? hnext
  have hafter : afterComment reader.offset reader.rest = afterComment next.offset next.rest := by
    rw [hread.rest, hread.offset]
    exact afterComment_cons _ hopen
  obtain ⟨more, hmore⟩ := h.reads
  exact ⟨⟨_, hread.trans hmore⟩, hafter ▸ h.closed, hafter ▸ h.unclosed⟩

theorem passesComment_comment (reader : Reader) : reader.PassesComment reader.comment := by
  fun_induction comment reader with
  | case1 reader hnone =>
      have hrest := next?_eq_none_iff.mp hnone
      exact ⟨⟨[], .refl reader⟩, Bool.noConfusion, fun _ => ⟨by rw [hrest]; rfl, hrest⟩⟩
  | case2 reader next closed hclosed hnext =>
      obtain ⟨c, hslash, hc⟩ := nextIf?_eq_some hclosed
      obtain rfl : c = '/' := of_decide_eq_true hc
      have hreads := (reads_of_next? hnext).trans (reads_of_next? hslash)
      refine ⟨⟨_, hreads⟩, fun _ => ?_, Bool.noConfusion⟩
      rw [hreads.rest, hreads.cursor_eq]
      rfl
  | case3 reader next hnone hnext ih =>
      refine ih.of_next? hnext ?_
      rintro ⟨_, hhead⟩
      have hslash := runEnds_of_nextIf? hnone '/' hhead
      cases hslash
  | case4 reader c next hnext hstar ih => exact ih.of_next? hnext fun hclose => hstar hclose.1

/-- The gap in front of a token is read, or all the rest where a comment is not closed. -/
structure PassesGap (reader : Reader) (result : Reader × Option Nat) : Prop where
  reads : ∃ passed, reader.Reads passed result.1
  ends : result.2 = none → reader.cursor.gap = .ends result.1.cursor
  unclosed : ∀ start, result.2 = some start →
    reader.cursor.gap = .unclosed ⟨start, result.1.offset⟩ ∧ result.1.rest = []

theorem PassesGap.of_reads {result : Reader × Option Nat} (h : next.PassesGap result)
    (hreads : reader.Reads passed next) (hgap : reader.cursor.gap = next.cursor.gap) :
    reader.PassesGap result := by
  obtain ⟨more, hmore⟩ := h.reads
  exact ⟨⟨_, hreads.trans hmore⟩, hgap ▸ h.ends, hgap ▸ h.unclosed⟩

theorem passesGap_of_ends (h : reader.cursor.gap = .ends reader.cursor) :
    reader.PassesGap (reader, none) :=
  ⟨⟨[], .refl reader⟩, fun _ => h, nofun⟩

theorem cursor_gap_of_next? (h : reader.next? = some (c, next))
    (hopens : ¬OpensComment c next.rest) :
    reader.cursor.gap = if isBlank c then next.cursor.gap else .ends reader.cursor := by
  have hread := reads_of_next? h
  rw [cursor, hread.rest, hread.cursor_eq]
  exact Cursor.gap_cons _ _ hopens

theorem not_opensComment (hline : ∀ behind, next.next? ≠ some ('/', behind))
    (hblock : ∀ behind, next.next? ≠ some ('*', behind)) : ¬OpensComment c next.rest := by
  have hnone : ∀ d, (∀ behind, next.next? ≠ some (d, behind)) → next.rest.head? ≠ some d := by
    intro d hbehind hhead
    obtain ⟨rest, hrest⟩ := List.head?_eq_some_iff.mp hhead
    obtain ⟨behind, hnext, _⟩ := exists_next?_of_rest hrest
    exact hbehind behind hnext
  rintro ⟨_, hhead | hhead⟩
  · exact hnone '/' hline hhead
  · exact hnone '*' hblock hhead

/-- A line comment is left standing at the line break. -/
theorem cursor_gap_of_lineComment (hnext : reader.next? = some ('/', next))
    (hbehind : next.next? = some ('/', behind)) :
    reader.cursor.gap = (reader.skipWhile (· ≠ '\n')).cursor.gap := by
  have hslashes := (reads_of_next? hnext).trans (reads_of_next? hbehind)
  rw [(reads_skipWhile (· ≠ '\n') reader).cursor_eq, rest_skipWhile, cursor, hslashes.rest]
  refine (Cursor.gap_lineComment reader.offset behind.rest).trans ?_
  simp [byteLength_cons, utf8Size_slash, ← Nat.add_assoc]

theorem cursor_gap_of_blockComment (hopening : reader.Reads ['/', '*'] opened)
    (hcomment : opened.comment = (closed, true)) : reader.cursor.gap = closed.cursor.gap := by
  have hclosed := (passesComment_comment opened).closed
  rw [hcomment] at hclosed
  rw [cursor, hopening.rest]
  apply Cursor.gap_blockComment
  rw [← hclosed rfl, hopening.offset]
  rfl

theorem passesGap_of_unclosed (hopening : reader.Reads ['/', '*'] opened)
    (hcomment : opened.comment = (closed, false)) :
    reader.PassesGap (closed, some reader.offset) := by
  obtain ⟨⟨inside, hinside⟩, _, hunclosed⟩ := passesComment_comment opened
  rw [hcomment] at hinside hunclosed
  obtain ⟨hafter, hrest⟩ := hunclosed rfl
  refine ⟨⟨_, hopening.trans hinside⟩, nofun, ?_⟩
  rintro start ⟨⟩
  refine ⟨?_, hrest⟩
  have hall := hinside.rest
  rw [hrest, List.append_nil] at hall
  rw [hinside.offset, ← hall, hopening.offset, cursor, hopening.rest]
  apply Cursor.gap_unclosed
  rw [← hafter, hopening.offset]
  rfl

theorem passesGap_gap (reader : Reader) : reader.PassesGap reader.gap := by
  fun_induction gap reader with
  | case1 reader hnone =>
      apply passesGap_of_ends
      rw [cursor, next?_eq_none_iff.mp hnone, Cursor.gap_nil]
  | case2 reader next behind hbehind hnext ih =>
      exact ih.of_reads (reads_skipWhile _ reader) (cursor_gap_of_lineComment hnext hbehind)
  | case3 reader next opened hopened closed hcomment hnext ih =>
      have hopening := (reads_of_next? hnext).trans (reads_of_next? hopened)
      obtain ⟨inside, hinside⟩ := (passesComment_comment opened).reads
      rw [hcomment] at hinside
      exact ih.of_reads (hopening.trans hinside) (cursor_gap_of_blockComment hopening hcomment)
  | case4 reader next opened hopened finished hcomment hnext =>
      exact passesGap_of_unclosed ((reads_of_next? hnext).trans (reads_of_next? hopened)) hcomment
  | case5 reader next hline hblock hnext =>
      have hgap := cursor_gap_of_next? hnext (not_opensComment hline hblock)
      exact passesGap_of_ends (hgap.trans (if_neg (by decide)))
  | case6 reader c next hnext hslash hblank ih =>
      have hgap := cursor_gap_of_next? hnext fun hopens => hslash hopens.1
      exact ih.of_reads (reads_of_next? hnext) (hgap.trans (if_pos hblank))
  | case7 reader c next hnext hslash hblank =>
      have hgap := cursor_gap_of_next? hnext fun hopens => hslash hopens.1
      exact passesGap_of_ends (hgap.trans (if_neg hblank))

end Gaps

/-- The reader stands where it has read up to. -/
def Stands (reader : Reader) : Prop :=
  ∃ front, reader.source = front ++ reader.rest ∧ reader.offset = byteLength front

section Tokens

variable {reader next : Reader} {passed : List Char} {c : Char}

theorem Stands.reads (h : reader.Stands) (hreads : reader.Reads passed next) : next.Stands := by
  obtain ⟨front, hsource, hoffset⟩ := h
  refine ⟨front ++ passed, ?_, ?_⟩
  · rw [hreads.source, hsource, hreads.rest, List.append_assoc]
  · rw [hreads.offset, hoffset, byteLength_append]

/-- What has been read is the slice of the source between the two places. -/
theorem Reads.slice (h : reader.Reads passed next) (hstands : reader.Stands) :
    sliceBytes next.source ⟨reader.offset, next.offset⟩ = passed := by
  obtain ⟨front, hsource, hoffset⟩ := hstands
  rw [h.source, h.offset, hsource, h.rest, hoffset]
  exact sliceBytes_append front passed next.rest

theorem Reads.tokenFrom_eq (h : reader.Reads passed next) (hstands : reader.Stands)
    (kind : TokenKind) :
    next.tokenFrom reader.offset kind =
      ⟨kind, String.ofList passed, ⟨reader.offset, reader.offset + byteLength passed⟩⟩ := by
  rw [tokenFrom, h.slice hstands, h.offset]

theorem Reads.errorFrom_eq (h : reader.Reads passed next) (error : LexicalError) :
    next.errorFrom reader.offset error =
      ⟨.invalid error, error.message,
        ⟨reader.offset, reader.offset + byteLength passed⟩⟩ := by
  rw [errorFrom, h.offset]

/-- The reader reads a token just as it is scanned from a place. -/
def Yields (reader : Reader) (scanned : Token × Reader) (expected : Token × Cursor) : Prop :=
  (∃ passed, reader.Reads passed scanned.2) ∧ scanned.1 = expected.1 ∧
    scanned.2.cursor = expected.2

/-- A run of letters, digits and underscores is read, and is of the class that it has. -/
theorem yields_run {kind : TokenKind} {lexeme : String} {run : List Char}
    (hread : reader.Reads (c :: run) next) (hfirst : isWordPart c = true)
    (hrun : ∀ d ∈ run, isWordPart d = true) (hend : RunEnds isWordPart next.rest)
    (hclass : classifyRun (c :: run) = (kind, lexeme)) :
    reader.Yields
      (⟨kind, lexeme, ⟨reader.offset, reader.offset + byteLength (c :: run)⟩⟩, next)
      (JackLang.readToken reader.offset c (run ++ next.rest)) := by
  rw [readToken_run _ hfirst hrun hend, hclass]
  exact ⟨⟨_, hread⟩, rfl, hread.cursor_eq⟩

theorem classifyRun_word {run : List Char} (hc : isWordStart c = true) :
    classifyRun (c :: run) =
      (.ofWord (String.ofList (c :: run)), String.ofList (c :: run)) := by
  simp [classifyRun, isDigit_of_isWordStart hc]

theorem yields_word (hstands : reader.Stands) (hread : reader.Reads [c] next)
    (hc : isWordStart c = true) :
    reader.Yields (next.word reader.offset)
      (JackLang.readToken reader.offset c next.rest) := by
  have hrun := reads_skipWhile isWordPart next
  have hreads := hread.trans hrun
  have hend : RunEnds isWordPart (next.skipWhile isWordPart).rest := by
    rw [rest_skipWhile]
    exact runEnds_dropWhile isWordPart next.rest
  rw [hrun.rest, word, hreads.tokenFrom_eq hstands]
  exact yields_run hreads (isWordPart_of_isWordStart hc) (fun d hmem => mem_takeWhile hmem) hend
    (classifyRun_word hc)

/-- Behind its digits a number goes on as a word. -/
theorem yields_malformed {digits behind : Reader} {run : List Char}
    (hreads : reader.Reads (c :: run) digits) (hdigits : ∀ d ∈ c :: run, d.isDigit = true)
    (hbehind : digits.nextIf? isWordStart = some behind) :
    reader.Yields
      ((behind.skipWhile isWordPart).errorFrom reader.offset .malformedInteger,
        behind.skipWhile isWordPart)
      (JackLang.readToken reader.offset c (run ++ digits.rest)) := by
  obtain ⟨d, hd, hstart⟩ := nextIf?_eq_some hbehind
  have hmore := (reads_of_next? hd).trans (reads_skipWhile isWordPart behind)
  have hall := hreads.trans hmore
  have hends : RunEnds isWordPart (behind.skipWhile isWordPart).rest := by
    rw [rest_skipWhile]
    exact runEnds_dropWhile isWordPart behind.rest
  have hword : ∀ e ∈ run ++ d :: behind.rest.takeWhile isWordPart, isWordPart e = true := by
    intro e hmem
    rcases List.mem_append.mp hmem with hmem | hmem
    · exact isWordPart_of_isDigit (hdigits e (.tail _ hmem))
    · rcases List.mem_cons.mp hmem with rfl | hmem
      · exact isWordPart_of_isWordStart hstart
      · exact mem_takeWhile hmem
  have hc := hdigits c (.head _)
  rw [hmore.rest, ← List.append_assoc, hall.errorFrom_eq]
  exact yields_run hall (isWordPart_of_isDigit hc) hword hends
    (classifyRun_malformed hc ⟨d, by simp, hstart⟩)

/-- A number ends where a word would, or it goes on as one. -/
theorem yields_integer (hstands : reader.Stands) (hread : reader.Reads [c] next)
    (hc : c.isDigit = true) :
    reader.Yields (next.integer reader.offset)
      (JackLang.readToken reader.offset c next.rest) := by
  have hrun := reads_skipWhile Char.isDigit next
  have hreads := hread.trans hrun
  have hrest := rest_skipWhile Char.isDigit next
  have hend := runEnds_dropWhile Char.isDigit next.rest
  have hdigits : ∀ d ∈ c :: next.rest.takeWhile Char.isDigit, d.isDigit = true := by
    rintro d (_ | ⟨_, hmem⟩)
    · exact hc
    · exact mem_takeWhile hmem
  rw [← hrest] at hend
  rw [hrun.rest, integer]
  generalize next.skipWhile Char.isDigit = digits at hreads hend
  generalize next.rest.takeWhile Char.isDigit = run at hreads hdigits
  split
  · rename_i behind hbehind
    exact yields_malformed hreads hdigits hbehind
  · rename_i hnone
    have hstart := runEnds_of_nextIf? hnone
    have hends : RunEnds isWordPart digits.rest := by
      intro d hd
      rw [isWordPart, hstart d hd, hend d hd]
      rfl
    have hpart := fun d hmem => isWordPart_of_isDigit (hdigits d (.tail _ hmem))
    rw [hreads.tokenFrom_eq hstands, hreads.errorFrom_eq]
    simp only [String.toList_ofList]
    split
    · rename_i hvalue
      exact yields_run hreads (isWordPart_of_isDigit hc) hpart hends
        (classifyRun_integer hdigits hvalue)
    · rename_i hvalue
      exact yields_run hreads (isWordPart_of_isDigit hc) hpart hends
        (classifyRun_outOfRange hdigits (Nat.lt_of_not_le hvalue))

theorem yields_string (hstands : reader.Stands) (hread : reader.Reads ['"'] next) :
    reader.Yields (next.string reader.offset)
      (JackLang.readToken reader.offset '"' next.rest) := by
  have hrun := reads_skipWhile isQuotable next
  have hrest := rest_skipWhile isQuotable next
  have hend := runEnds_dropWhile isQuotable next.rest
  have hcontent : ∀ d ∈ next.rest.takeWhile isQuotable, d ≠ '"' ∧ d ≠ '\n' :=
    fun d hmem => isQuotable_iff.mp (mem_takeWhile hmem)
  rw [← hrest] at hend
  rw [string]
  generalize next.skipWhile isQuotable = behind at hrun hend
  generalize next.rest.takeWhile isQuotable = content at hrun hcontent
  split
  · rename_i closed hclosed
    obtain ⟨d, hquote, hd⟩ := nextIf?_eq_some hclosed
    obtain rfl : d = '"' := of_decide_eq_true hd
    have hclosing := reads_of_next? hquote
    have hall := hread.trans (hrun.trans hclosing)
    have hinner : sliceBytes closed.source ⟨reader.offset + 1, closed.offset - 1⟩ = content := by
      have hslice := hrun.slice (hstands.reads hread)
      rw [hclosing.source, hclosing.offset]
      rwa [hread.offset] at hslice
    rw [hrun.rest, hclosing.rest, List.singleton_append, readToken_string _ hcontent, hinner,
      hall.offset]
    exact ⟨⟨_, hall⟩, rfl, hall.cursor_eq⟩
  · rename_i hnone
    have hquote := runEnds_of_nextIf? hnone
    have hbreak : RunEnds (· ≠ '\n') behind.rest := by
      intro d hd
      have hclass := hend d hd
      have hne := hquote d hd
      simpa [isQuotable, of_decide_eq_false hne] using hclass
    have hall := hread.trans hrun
    rw [hrun.rest, readToken_unterminatedString _ hcontent hbreak, hall.errorFrom_eq]
    exact ⟨⟨_, hall⟩, rfl, hall.cursor_eq⟩

/-- A token is read just as it is scanned behind its gap. -/
theorem yields_readToken (hstands : reader.Stands) {next : Reader}
    (hnext : reader.next? = some (c, next)) :
    reader.Yields reader.readToken (JackLang.readToken reader.offset c next.rest) := by
  have hread := reads_of_next? hnext
  rw [readToken]
  simp only [hnext]
  split
  · rename_i mark hmark
    obtain rfl := Symbol.ofChar?_eq_some_iff.mp hmark
    rw [readToken_symbol, hread.tokenFrom_eq hstands]
    exact ⟨⟨_, hread⟩, rfl, hread.cursor_eq⟩
  · rename_i hnone
    split
    · rename_i hquote
      subst hquote
      exact yields_string hstands hread
    · rename_i hquote
      split
      · rename_i hdigit
        exact yields_integer hstands hread hdigit
      · rename_i hdigit
        split
        · rename_i hstart
          exact yields_word hstands hread hstart
        · rename_i hstart
          have hpart : isWordPart c = false := by simp [isWordPart, hstart, hdigit]
          have hmark : ∀ mark : Symbol, mark.char ≠ c := by
            intro mark hchar
            rw [Symbol.ofChar?_eq_some_iff.mpr hchar] at hnone
            cases hnone
          rw [readToken_unexpected _ hpart hquote hmark, hread.errorFrom_eq]
          exact ⟨⟨_, hread⟩, rfl, hread.cursor_eq⟩

end Tokens

/-- Scanning by characters finds the next token and goes on behind it. Without one, it
reads the rest of the source and hands out its end. -/
theorem reads_scanToken {reader : Reader} (hstands : reader.Stands) :
    (∃ passed, reader.Reads passed reader.scanToken.2) ∧
      match reader.cursor.nextToken? with
      | some (token, next) =>
          reader.scanToken.1 = token ∧ reader.scanToken.2.cursor = next
      | none =>
          reader.scanToken.1 = .endOfFile (byteLength reader.source) ∧
            reader.scanToken.2.rest = [] := by
  obtain ⟨⟨blank, hblank⟩, hends, hunclosed⟩ := passesGap_gap reader
  rw [scanToken, Cursor.nextToken?]
  rcases hgap : reader.gap with ⟨behind, _ | start⟩
  · rw [hgap] at hblank hends
    dsimp only at hblank
    have hstanding := hstands.reads hblank
    rw [hends rfl]
    cases hrest : behind.rest with
    | nil =>
        obtain ⟨front, hsource, hoffset⟩ := hstanding
        rw [hrest, List.append_nil] at hsource
        have hend := (Reads.refl behind).tokenFrom_eq ⟨front, by simp [hrest, hsource], hoffset⟩
          .endOfFile
        have hread : behind.readToken = (behind.tokenFrom behind.offset .endOfFile, behind) := by
          rw [Reader.readToken]
          simp only [next?_eq_none_iff.mpr hrest]
        simp only [cursor, hrest, hread]
        refine ⟨⟨_, hblank⟩, ?_, trivial⟩
        rw [hend, ← hblank.source, hsource, ← hoffset]
        rfl
    | cons c rest =>
        obtain ⟨next, hnext, rfl⟩ := exists_next?_of_rest hrest
        obtain ⟨⟨passed, hreads⟩, htoken, hcursor⟩ := yields_readToken hstanding hnext
        simp only [cursor, hrest]
        exact ⟨⟨_, hblank.trans hreads⟩, htoken, hcursor⟩
  · rw [hgap] at hblank hunclosed
    obtain ⟨hcomment, hrest⟩ := hunclosed start rfl
    dsimp only at hrest
    rw [hcomment]
    exact ⟨⟨_, hblank⟩, rfl, by simp [cursor, hrest]⟩

end Reader

namespace Scanner

variable {source : String} {scanner : Scanner} {stream : TokenStream}

/-- The scanner behind the given number of tokens. -/
def advanced : Scanner → Nat → Scanner
  | scanner, 0 => scanner
  | scanner, number + 1 => scanner.advance.2.advanced number

/-- The scanner stands in the source behind its look-ahead, and has noted the lines in front
of where it stands. -/
structure Follows (source : String) (stream : TokenStream) (scanner : Scanner) : Prop where
  text : scanner.reader.source = source.toList
  reads : ∃ passed, (Reader.ofSource source).Reads passed scanner.reader
  lookAhead : scanner.lookAhead = stream.peek
  pending : Cursor.tokensAfter [] scanner.reader.cursor = stream.pending.tail
  length : stream.length = byteLength source.toList

/-- What is scanned next is the head of the tokens from there on. -/
theorem follows_scanToken {reader : Reader} {passed : List Char}
    (hreads : (Reader.ofSource source).Reads passed reader) :
    Follows source ⟨Cursor.tokensAfter [] reader.cursor, byteLength source.toList⟩
      ⟨reader.scanToken.2, reader.scanToken.1⟩ := by
  have hstands : reader.Stands := Reader.Stands.reads ⟨[], rfl, rfl⟩ hreads
  obtain ⟨⟨more, hmore⟩, hscanned⟩ := Reader.reads_scanToken hstands
  have htext : reader.source = source.toList := hreads.source
  cases hnext : reader.cursor.nextToken? with
  | none =>
      rw [hnext] at hscanned
      obtain ⟨hlookAhead, hrest⟩ := hscanned
      have hend : reader.scanToken.2.cursor.nextToken? = none := by
        rw [Reader.cursor, hrest, Cursor.nextToken?_nil]
      refine ⟨hmore.source.trans htext, ⟨_, hreads.trans hmore⟩, ?_, ?_, rfl⟩
      · rw [Cursor.tokensAfter_none [] hnext, hlookAhead, htext]
        rfl
      · rw [Cursor.tokensAfter_none [] hnext, Cursor.tokensAfter_none [] hend]
        rfl
  | some scanned =>
      obtain ⟨token, next⟩ := scanned
      rw [hnext] at hscanned
      obtain ⟨hlookAhead, hcursor⟩ := hscanned
      have htokens : Cursor.tokensAfter [] reader.cursor = token :: Cursor.tokensAfter [] next := by
        rw [Cursor.tokensAfter_some [] hnext, Cursor.tokensAfter_eq_append]
        rfl
      refine ⟨hmore.source.trans htext, ⟨_, hreads.trans hmore⟩, ?_, ?_, rfl⟩
      · rw [htokens, hlookAhead]
        rfl
      · rw [htokens, hcursor]
        rfl

theorem follows_ofSource (source : String) :
    Follows source (.ofSource source) (ofSource source) :=
  follows_scanToken (.refl _)

theorem Follows.advance (h : Follows source stream scanner) :
    Follows source stream.advance.2 scanner.advance.2 := by
  obtain ⟨passed, hreads⟩ := h.reads
  have hnext := follows_scanToken hreads
  rwa [h.pending, ← h.length] at hnext

theorem Follows.advanced (h : Follows source stream scanner) (number : Nat) :
    ∃ behind, Follows source behind (scanner.advanced number) ∧
      behind.peek = stream.token number := by
  induction number generalizing stream scanner with
  | zero => exact ⟨stream, h, rfl⟩
  | succ number ih => exact ih h.advance

/-- Whatever has been read, the rest of the source is read before its lines are told. -/
theorem Follows.lineOffsets_eq (h : Follows source stream scanner) :
    scanner.lineOffsets = .ok (.ofSource source) := by
  obtain ⟨passed, hreads⟩ := h.reads
  have hall := hreads.trans (Reader.reads_skipWhile (fun _ => true) scanner.reader)
  have hend : (scanner.reader.skipWhile fun _ => true).rest = [] := by
    rw [Reader.rest_skipWhile, List.dropWhile_eq_nil_iff]
    exact fun _ _ => rfl
  have htext := hall.rest
  rw [hend, List.append_nil] at htext
  have hstarts := hall.starts
  rw [← htext] at hstarts
  rw [lineOffsets, hstarts, hall.source, List.reverse_reverse]
  exact LineOffsets.ofStarts_self (.ofSource source)

end Scanner

end JackLang
