import JackLang.Diagnostic.Render
import JackLang.Proofs.Source.Lines

/-! # The files that a diagnostic points into

Once the line offsets of a file are stored, the table tells the line of each byte of its
text and the range of each line. A diagnostic that points into the text can then be shown:
of the lines, showing it asks for those from the first to the last of its label only.
-/

set_option autoImplicit false

namespace JackLang

/-- What is made of an answer is an answer, if there is one for each. -/
theorem Except.exists_bind {ε α β : Type} {answer : Except ε α} {next : α → Except ε β}
    (hanswer : ∃ value, answer = .ok value)
    (hnext : ∀ value, answer = .ok value → ∃ result, next value = .ok result) :
    ∃ result, (answer >>= next) = .ok result := by
  obtain ⟨value, hvalue⟩ := hanswer
  obtain ⟨result, hresult⟩ := hnext value hvalue
  exact ⟨result, by rw [hvalue]; exact hresult⟩

theorem Except.exists_mapM {ε α β : Type} {list : List α} {next : α → Except ε β}
    (h : ∀ value ∈ list, ∃ result, next value = .ok result) :
    ∃ results, list.mapM next = .ok results := by
  induction list with
  | nil => exact ⟨[], rfl⟩
  | cons value rest ih =>
      rw [List.mapM_cons]
      refine exists_bind (h value (.head rest)) fun _ _ => ?_
      refine exists_bind (ih fun other hmem => h other (.tail value hmem)) fun _ _ => ?_
      exact ⟨_, rfl⟩

namespace FileTable

/-- The file has the source as its text, and its line offsets are stored. -/
structure Covers (table : FileTable) (number : Nat) (source : String) : Prop where
  text_eq : table.text number = .ok source
  lineOffsets_eq : table.lineOffsets number = .ok (.ofSource source)

variable {table stored : FileTable} {number : Nat} {source : String}

theorem exists_file_of_text (h : table.text number = .ok source) :
    ∃ file, table.files[number]? = some file ∧ file.text = source := by
  rw [text, file] at h
  split at h
  · rename_i file hfile
    exact ⟨file, hfile, Except.ok.inj h⟩
  · cases h

theorem exists_setLineOffsets (h : table.text number = .ok source) (offsets : LineOffsets) :
    ∃ stored, table.setLineOffsets number offsets = .ok stored ∧
      stored.text number = .ok source ∧ stored.lineOffsets number = .ok offsets := by
  obtain ⟨file, hfile, rfl⟩ := exists_file_of_text h
  have hless := (Array.getElem?_eq_some_iff.mp hfile).1
  refine ⟨⟨table.files.setIfInBounds number { file with lineOffsets := some offsets }⟩, ?_⟩
  simp only [setLineOffsets, text, lineOffsets, FileTable.file, hfile,
    Array.getElem?_setIfInBounds_self_of_lt hless]
  exact ⟨rfl, rfl, rfl⟩

theorem text_upsert (table : FileTable) (name source : String) :
    (table.upsert name source).1.text (table.upsert name source).2 = .ok source := by
  rw [upsert]
  split
  · rename_i number hfound
    have hless := (Array.findIdx?_eq_some_iff_getElem.mp hfound).1
    simp only [text, file, Array.getElem?_setIfInBounds_self_of_lt hless]
    rfl
  · simp only [text, file, Array.getElem?_push_size]
    rfl

theorem Covers.exists_name (h : table.Covers number source) :
    ∃ name, table.name number = .ok name := by
  obtain ⟨file, hfile, _⟩ := exists_file_of_text h.text_eq
  refine ⟨file.name, ?_⟩
  rw [name, FileTable.file, hfile]
  rfl

section Place

variable {byte line : Nat} (h : table.Covers number source)
include h

/-- The line of a place is the number of line breaks in front of it. -/
theorem Covers.lineIndex_eq (hbyte : byte ≤ source.utf8ByteSize) :
    table.lineIndex number byte = .ok (lineBreaksBefore source byte) := by
  obtain ⟨file, hfile, _⟩ := exists_file_of_text h.text_eq
  simp only [lineIndex, h.lineOffsets_eq, FileTable.file, hfile, bind, Except.bind,
    LineOffsets.lineOf_ofSource hbyte]
  rfl

/-- The line of a place has a range, and so have the lines in front of it. -/
theorem Covers.exists_lineRange (hline : line ≤ lineBreaksBefore source byte) :
    ∃ range, table.lineRange number line = .ok range := by
  obtain ⟨range, hrange⟩ := LineOffsets.exists_lineRange
    (Nat.lt_of_le_of_lt hline (LineOffsets.lineBreaksBefore_lt_lines source byte))
  refine ⟨range, ?_⟩
  simp only [lineRange, h.lineOffsets_eq, bind, Except.bind, hrange]
  rfl

theorem Covers.exists_location (hbyte : byte ≤ source.utf8ByteSize) :
    ∃ place, table.location number byte = .ok place := by
  refine Except.exists_bind ⟨_, h.lineIndex_eq hbyte⟩ fun line hline => ?_
  rw [h.lineIndex_eq hbyte] at hline
  cases hline
  refine Except.exists_bind ?_ fun _ _ => ⟨_, rfl⟩
  refine Except.exists_bind ⟨source, h.text_eq⟩ fun _ _ => ?_
  exact Except.exists_bind (h.exists_lineRange (Nat.le_refl _)) fun _ _ => ⟨_, rfl⟩

end Place

end FileTable

namespace Snippet

/-- The lines of the rows that are shown are not behind the last line of the label. -/
def Row.Within (last : Nat) : Row → Prop
  | .line number => number ≤ last
  | .omission => True

theorem within_rowsBetween {previous next last : Nat} (h : next ≤ last) :
    ∀ row ∈ rowsBetween previous next, row.Within last := by
  intro row hmem
  rw [rowsBetween] at hmem
  split at hmem
  · rw [List.mem_singleton.mp hmem]
    exact h
  · split at hmem
    · simp only [List.mem_cons, List.not_mem_nil, or_false] at hmem
      rcases hmem with rfl | rfl
      · simp only [Row.Within]
        omega
      · exact h
    · simp only [List.mem_cons, List.not_mem_nil, or_false] at hmem
      rcases hmem with rfl | rfl
      · trivial
      · exact h

theorem within_rowsOf {lines : List Nat} {last : Nat} (h : ∀ line ∈ lines, line ≤ last) :
    ∀ row ∈ rowsOf lines, row.Within last := by
  fun_induction rowsOf lines with
  | case1 previous next rest ih =>
      intro row hmem
      rcases List.mem_append.mp hmem with hmem | hmem
      · exact within_rowsBetween (h next (.tail _ (.head rest))) row hmem
      · exact ih (fun line hline => h line (.tail _ hline)) row hmem
  | case2 => simp

theorem le_of_mem_linesOf {first last line : Nat} (h : first ≤ last)
    (hmem : line ∈ linesOf first last) : line ≤ last := by
  simp only [linesOf, List.mem_append, List.mem_cons, List.not_mem_nil, or_false,
    List.mem_filter, List.mem_range'_1] at hmem
  omega

variable {table : FileTable} {number : Nat} {source : String} {byte last : Nat}

theorem exists_lineText (h : table.Covers number source) {line : Nat}
    (hline : line ≤ lineBreaksBefore source byte) :
    ∃ text, lineText table number line = .ok text := by
  refine Except.exists_bind ⟨source, h.text_eq⟩ fun _ _ => ?_
  exact Except.exists_bind (h.exists_lineRange hline) fun _ _ => ⟨_, rfl⟩

theorem exists_showRow (h : table.Covers number source) {row : Row} (width : Nat)
    (hrow : row.Within (lineBreaksBefore source byte)) :
    ∃ shown, showRow table number width row = .ok shown := by
  cases row with
  | omission => exact ⟨_, rfl⟩
  | line line => exact Except.exists_bind (exists_lineText h hrow) fun _ _ => ⟨_, rfl⟩

theorem exists_manyLines (h : table.Covers number source) {first : Nat}
    (hfirst : first ≤ lineBreaksBefore source byte) (width start stop : Nat) (note : String) :
    ∃ rows, manyLines table number width first (lineBreaksBefore source byte) start stop note =
      .ok rows := by
  refine Except.exists_bind (exists_lineText h hfirst) fun _ _ => ?_
  refine Except.exists_bind (Except.exists_mapM fun row hrow => ?_) fun _ _ => ?_
  · exact exists_showRow h width
      (within_rowsOf (fun line hline => le_of_mem_linesOf hfirst hline) row hrow)
  · exact Except.exists_bind (exists_lineText h (Nat.le_refl _)) fun _ _ => ⟨_, rfl⟩

end Snippet

/-- A diagnostic that points into the text of a file is shown. -/
theorem Diagnostic.exists_render {diagnostic : Diagnostic} {table : FileTable} {number : Nat}
    {source : String} (h : table.Covers number source)
    (hlabel : ∀ label, diagnostic.label = some label →
      label.span.start ≤ label.span.stop ∧ label.span.stop ≤ source.utf8ByteSize) :
    ∃ text, diagnostic.render table number = .ok text := by
  rw [render]
  cases hdiagnostic : diagnostic.label with
  | none => exact ⟨_, rfl⟩
  | some label =>
      obtain ⟨horder, hstop⟩ := hlabel label hdiagnostic
      have hstart := Nat.le_trans horder hstop
      have hfirst := lineBreaksBefore_mono source horder
      refine Except.exists_bind ⟨_, h.lineIndex_eq hstart⟩ fun first hindex => ?_
      rw [h.lineIndex_eq hstart] at hindex
      cases hindex
      refine Except.exists_bind (h.exists_lineRange (Nat.le_refl _)) fun _ _ => ?_
      refine Except.exists_bind ⟨_, h.lineIndex_eq hstop⟩ fun last hindex => ?_
      rw [h.lineIndex_eq hstop] at hindex
      cases hindex
      refine Except.exists_bind (h.exists_lineRange (Nat.le_refl _)) fun _ _ => ?_
      refine Except.exists_bind h.exists_name fun _ _ => ?_
      refine Except.exists_bind (h.exists_location hstart) fun _ _ => ?_
      simp only
      split
      · exact Except.exists_bind (Snippet.exists_lineText h (Nat.le_refl _)) fun _ _ => ⟨_, rfl⟩
      · exact Except.exists_bind (Snippet.exists_manyLines h hfirst _ _ _ _) fun _ _ => ⟨_, rfl⟩

end JackLang
