import JackLang.Proofs.Command.Units

/-! # Diagnostics are located

Whatever is done with a source, and whatever its sinks take, a label points at characters
of the source, and once the line offsets of the job are stored, the files have an answer to
all that showing the diagnostic asks them. So a unit that fails is told as such, and never
as trouble with the files.
-/

set_option autoImplicit false

namespace JackLang

/-- The files locate a label of a diagnostic in the text of a file. -/
structure FileTable.Locates (table : FileTable) (number : Nat) (source : String)
    (message : String) (span : Span) : Prop where
  start_le_stop : span.start ≤ span.stop
  stop_le_length : span.stop ≤ source.utf8ByteSize
  start_isValid : (String.Pos.Raw.mk span.start).IsValid source
  stop_isValid : (String.Pos.Raw.mk span.stop).IsValid source
  line_start : table.lineIndex number span.start = .ok (lineBreaksBefore source span.start)
  line_stop : table.lineIndex number span.stop = .ok (lineBreaksBefore source span.stop)
  line_start_le_line_stop :
    lineBreaksBefore source span.start ≤ lineBreaksBefore source span.stop
  lineRange : ∀ line ≤ lineBreaksBefore source span.stop,
    ∃ range, table.lineRange number line = .ok range
  same_line : message ≠ "Unterminated block comment." →
    lineBreaksBefore source span.start = lineBreaksBefore source span.stop

theorem FileTable.Covers.locates {table : FileTable} {number : Nat} {source : String}
    (h : table.Covers number source) {job : Job} {error : CompileError} {label : Label}
    (herror : job.error source = some error) (hlabel : error.diagnostic.label = some label) :
    table.Locates number source error.diagnostic.message label.span := by
  obtain ⟨front, word, behind, htext, hspan, hline⟩ := Job.exists_extent_of_error herror hlabel
  have hstop : source.toList = (front ++ word) ++ behind := by rw [htext, List.append_assoc]
  have hlength : byteLength (front ++ word) ≤ source.utf8ByteSize := by
    rw [← byteLength_toList, hstop, byteLength_append (front ++ word)]
    exact Nat.le_add_right _ _
  have hle : byteLength front ≤ byteLength (front ++ word) := by
    rw [byteLength_append]
    exact Nat.le_add_right _ _
  have hmono := lineBreaksBefore_mono source hle
  rw [← byteLength_append] at hspan
  rw [hspan]
  exact
    { start_le_stop := hle
      stop_le_length := hlength
      start_isValid := isValid_of_append htext
      stop_isValid := isValid_of_append hstop
      line_start := h.lineIndex_eq (Nat.le_trans hle hlength)
      line_stop := h.lineIndex_eq hlength
      line_start_le_line_stop := hmono
      lineRange := fun line hle => h.exists_lineRange hle
      same_line := by
        intro hmessage
        rw [lineBreaksBefore_of_append htext, lineBreaksBefore_of_append hstop,
          List.count_append, List.count_eq_zero.mpr (hline hmessage), Nat.add_zero] }

def missingNameDisk : Disk :=
  Disk.empty.put ["Main.jack"] (.file missingNameSource)

def missingNameTask : Task := ⟨.program, "Main.jack", none, false⟩

end JackLang
