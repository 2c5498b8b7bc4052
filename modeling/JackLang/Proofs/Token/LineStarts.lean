import JackLang.Proofs.Token.Scanning
import JackLang.Source.LineOffsets

/-! # Lines that scanning passes

Scanning notes where lines start as it passes them, in gaps and inside of tokens. Scanning
the next token passes a piece of the source, and so the lines of a source come out the
same wherever the tokens are left off and the rest is passed over.
-/

set_option autoImplicit false

namespace JackLang

/-- A scanner with the starts of the lines that it has passed, which come last first. -/
structure LineScan where
  cursor : Cursor
  starts : List Nat

/-- The place at the end of the source. -/
def Cursor.finish (cursor : Cursor) : Cursor :=
  ⟨cursor.offset + byteLength cursor.rest, []⟩

namespace LineScan

def ofSource (source : String) : LineScan := ⟨⟨0, source.toList⟩, [0]⟩

/-- Goes on to a place further back in the source, and notes the lines on the way. -/
def pass (scan : LineScan) (next : Cursor) : LineScan :=
  let passed := scan.cursor.rest.take (scan.cursor.rest.length - next.rest.length)
  ⟨next, (LineOffsets.startsAfter scan.starts scan.cursor.offset passed).reverse⟩

/-- Scans one more token. The gap in front of the end of the source is passed too. -/
def advance (scan : LineScan) : LineScan :=
  match scan.cursor.nextToken? with
  | some (_, next) => scan.pass next
  | none => scan.pass scan.cursor.finish

def advanced (scan : LineScan) : Nat → LineScan
  | 0 => scan
  | number + 1 => (scan.advanced number).advance

/-- The line offsets of the source, from the lines passed so far and those in the rest. -/
def lineOffsets (scan : LineScan) : Except LineOffsets.Malformed LineOffsets :=
  let finished := scan.pass scan.cursor.finish
  LineOffsets.ofStarts finished.starts.reverse finished.cursor.offset

end LineScan

theorem LineOffsets.startsAfter_append (found : List Nat) (offset : Nat)
    (first second : List Char) :
    startsAfter found offset (first ++ second) =
      startsAfter (startsAfter found offset first).reverse (offset + byteLength first) second := by
  induction first generalizing found offset with
  | nil => simp [startsAfter]
  | cons c rest ih =>
      rw [List.cons_append, startsAfter, ih, startsAfter, byteLength_cons, Nat.add_assoc]

theorem LineOffsets.ofStarts_self (offsets : LineOffsets) :
    ofStarts offsets.starts offsets.length = .ok offsets := by
  rw [ofStarts, dif_neg offsets.starts_ne_nil, dif_pos offsets.getLast_le_length]

/-- From one place to another a piece of the source is passed. -/
def Cursor.Passes (cursor : Cursor) (passed : List Char) (next : Cursor) : Prop :=
  cursor.rest = passed ++ next.rest ∧ next.offset = cursor.offset + byteLength passed

theorem Cursor.passes_finish (cursor : Cursor) : cursor.Passes cursor.rest cursor.finish :=
  ⟨(List.append_nil _).symm, rfl⟩

theorem Cursor.exists_passes_of_nextToken? {cursor next : Cursor} {token : Token}
    (h : cursor.nextToken? = some (token, next)) : ∃ passed, cursor.Passes passed next := by
  obtain ⟨offset, rest⟩ := cursor
  obtain ⟨tokens, hlaidOut⟩ := exists_laidOut offset rest
  cases hlaidOut with
  | finish hgap =>
      have hnone := Cursor.nextToken?_append offset hgap
      rw [List.append_nil, Cursor.nextToken?_nil, h] at hnone
      cases hnone
  | @token _ gap word behind kind lexeme tokens hgap htoken hrest =>
      rw [Cursor.nextToken?_append offset hgap, htoken.nextToken?] at h
      cases h
      refine ⟨gap ++ word, (List.append_assoc gap word behind).symm, ?_⟩
      rw [byteLength_append, Nat.add_assoc]

namespace LineScan

variable {source : String} {scan : LineScan}

/-- The scanner stands in the source, and has noted the lines in front of it. -/
def Notes (source : String) (scan : LineScan) : Prop :=
  ∃ front, source.toList = front ++ scan.cursor.rest ∧ scan.cursor.offset = byteLength front ∧
    scan.starts.reverse = LineOffsets.startsAfter [0] 0 front

theorem notes_ofSource (source : String) : (ofSource source).Notes source :=
  ⟨[], rfl, rfl, rfl⟩

theorem Notes.pass (h : scan.Notes source) {passed : List Char} {next : Cursor}
    (hnext : scan.cursor.Passes passed next) : (scan.pass next).Notes source := by
  obtain ⟨front, hsource, hoffset, hstarts⟩ := h
  obtain ⟨hrest, hbehind⟩ := hnext
  have hpassed : scan.cursor.rest.take (scan.cursor.rest.length - next.rest.length) = passed := by
    rw [hrest, List.length_append, Nat.add_sub_cancel, List.take_left]
  refine ⟨front ++ passed, ?_, ?_, ?_⟩
  · rw [hsource, hrest, List.append_assoc]
    rfl
  · rw [byteLength_append, ← hoffset]
    exact hbehind
  · rw [LineOffsets.startsAfter_append, ← hstarts, List.reverse_reverse, Nat.zero_add, ← hoffset]
    simp only [LineScan.pass, hpassed, List.reverse_reverse]

theorem Notes.advance (h : scan.Notes source) : scan.advance.Notes source := by
  unfold LineScan.advance
  split
  · rename_i token next hnext
    obtain ⟨passed, hpasses⟩ := Cursor.exists_passes_of_nextToken? hnext
    exact h.pass hpasses
  · exact h.pass scan.cursor.passes_finish

theorem notes_advanced (source : String) (number : Nat) :
    ((ofSource source).advanced number).Notes source := by
  induction number with
  | zero => exact notes_ofSource source
  | succ number ih => exact ih.advance

/-- Wherever scanning is left off, the line offsets are those of the source. -/
theorem lineOffsets_advanced (source : String) (number : Nat) :
    ((ofSource source).advanced number).lineOffsets = .ok (.ofSource source) := by
  have hnotes := notes_advanced source number
  generalize (ofSource source).advanced number = scan at hnotes
  obtain ⟨front, hsource, hoffset, hstarts⟩ := hnotes.pass scan.cursor.passes_finish
  rw [show (scan.pass scan.cursor.finish).cursor.rest = [] from rfl, List.append_nil] at hsource
  rw [lineOffsets, hoffset, hstarts, ← hsource]
  exact LineOffsets.ofStarts_self (.ofSource source)

end LineScan

end JackLang
