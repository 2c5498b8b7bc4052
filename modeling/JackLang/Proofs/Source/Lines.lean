import JackLang.Proofs.SourceLayout
import JackLang.Proofs.Token.LineStarts
import Mathlib.Data.List.Count

/-! # The lines of a source

A line starts at the beginning of a source and behind each of its line breaks, and nowhere
else. In UTF-8 a line break is a single byte, and no other character has this byte in it.
-/

set_option autoImplicit false

namespace JackLang

/-- The byte of a line break. -/
def lineBreak : UInt8 := 10

theorem lineBreak_notMem_utf8EncodeChar {c : Char} (h : c ≠ '\n') :
    lineBreak ∉ String.utf8EncodeChar c := by
  have hcode : ∀ value : Nat, value < 256 → value ≠ 10 → lineBreak ≠ UInt8.ofNat value := by
    intro value hless hne heq
    have hvalue := congrArg UInt8.toNat heq
    rw [UInt8.toNat_ofNat', Nat.mod_eq_of_lt hless] at hvalue
    exact hne hvalue.symm
  have hc : c.val.toNat ≠ 10 := by
    intro hval
    exact h (Char.ext (UInt32.toNat_inj.mp hval))
  -- the bytes of a character that takes more than one of them are all above 127
  unfold String.utf8EncodeChar
  simp only
  split
  · exact fun hmem => hcode _ (by omega) hc (List.mem_singleton.mp hmem)
  · split
    · simp only [List.mem_cons, List.not_mem_nil, or_false, not_or]
      exact ⟨hcode _ (by omega) (by omega), hcode _ (by omega) (by omega)⟩
    · split
      · simp only [List.mem_cons, List.not_mem_nil, or_false, not_or]
        exact ⟨hcode _ (by omega) (by omega), hcode _ (by omega) (by omega),
          hcode _ (by omega) (by omega)⟩
      · simp only [List.mem_cons, List.not_mem_nil, or_false, not_or]
        exact ⟨hcode _ (by omega) (by omega), hcode _ (by omega) (by omega),
          hcode _ (by omega) (by omega), hcode _ (by omega) (by omega)⟩

theorem data_toUTF8 (source : String) :
    source.toUTF8.data.toList = source.toList.flatMap String.utf8EncodeChar := by
  have hbytes : (String.ofList source.toList).toByteArray = source.toList.utf8Encode :=
    String.toByteArray_ofList
  rw [String.ofList_toList] at hbytes
  rw [String.toUTF8, hbytes, List.utf8Encode]
  simp

/-- The number of line breaks among the first bytes of a source. -/
def lineBreaksBefore (source : String) (byte : Nat) : Nat :=
  (source.toUTF8.data.toList.take byte).count lineBreak

theorem count_flatMap_utf8EncodeChar (text : List Char) :
    (text.flatMap String.utf8EncodeChar).count lineBreak = text.count '\n' := by
  induction text with
  | nil => rfl
  | cons c rest ih =>
      rw [List.flatMap_cons, List.count_append, ih, List.count_cons, Nat.add_comm]
      congr 1
      split
      · rename_i hbreak
        rw [beq_iff_eq.mp hbreak]
        rfl
      · rename_i hother
        exact List.count_eq_zero.mpr
          (lineBreak_notMem_utf8EncodeChar fun hbreak => hother (beq_iff_eq.mpr hbreak))

theorem length_flatMap_utf8EncodeChar (text : List Char) :
    (text.flatMap String.utf8EncodeChar).length = byteLength text := by
  induction text with
  | nil => rfl
  | cons c rest ih =>
      rw [List.flatMap_cons, List.length_append, String.length_utf8EncodeChar, ih,
        byteLength_cons]

/-- The line breaks in front of a place are those among the characters in front of it. -/
theorem lineBreaksBefore_of_append {source : String} {front behind : List Char}
    (h : source.toList = front ++ behind) :
    lineBreaksBefore source (byteLength front) = front.count '\n' := by
  rw [lineBreaksBefore, data_toUTF8, h, List.flatMap_append, ← length_flatMap_utf8EncodeChar,
    List.take_left, count_flatMap_utf8EncodeChar]

theorem lineBreaksBefore_mono (source : String) {first second : Nat} (h : first ≤ second) :
    lineBreaksBefore source first ≤ lineBreaksBefore source second :=
  (List.take_prefix_take_left h).sublist.count_le lineBreak

theorem isValid_of_append {source : String} {front behind : List Char}
    (h : source.toList = front ++ behind) :
    (String.Pos.Raw.mk (byteLength front)).IsValid source := by
  have hsource : source = String.ofList front ++ String.ofList behind := by
    rw [← String.ofList_append, ← h, String.ofList_toList]
  have hlength : byteLength front = (String.ofList front).utf8ByteSize := by
    rw [← byteLength_toList, String.toList_ofList]
  rw [hsource, hlength]
  exact String.Pos.Raw.isValid_rawEndPos.append_right _

namespace LineOffsets

/-- The starts of the lines are one behind the places of the line breaks. -/
theorem startsAfter_eq_findIdxs (found : List Nat) (offset : Nat) (text : List Char) :
    startsAfter found offset text =
      found.reverse ++
        ((text.flatMap String.utf8EncodeChar).findIdxs (· = lineBreak) offset).map (· + 1) := by
  induction text generalizing found offset with
  | nil => simp [startsAfter]
  | cons c rest ih =>
      rw [startsAfter, ih, List.flatMap_cons, List.findIdxs_append,
        String.length_utf8EncodeChar, List.map_append, ← List.append_assoc]
      congr 1
      split
      · rename_i hbreak
        subst hbreak
        rw [List.reverse_cons]
        rfl
      · rename_i hother
        have hnone : (String.utf8EncodeChar c).findIdxs (· = lineBreak) offset = [] := by
          rw [List.findIdxs_eq_nil_iff]
          intro byte hmem
          rw [decide_eq_false_iff_not]
          rintro rfl
          exact lineBreak_notMem_utf8EncodeChar hother hmem
        rw [hnone, List.map_nil, List.append_nil]

/-- The line offsets are those of the bytes of a source: the lines start at 0 and behind
each line break, in increasing order, and the length is the number of the bytes. -/
structure IsOf (source : String) (offsets : LineOffsets) : Prop where
  mem_starts : ∀ start, start ∈ offsets.starts ↔
    start = 0 ∨ ∃ place, source.toUTF8.data[place]? = some lineBreak ∧ start = place + 1
  increasing : offsets.starts.Pairwise (· < ·)
  length : offsets.length = source.utf8ByteSize

theorem starts_ofSource (source : String) :
    (ofSource source).starts =
      0 :: (source.toUTF8.data.toList.findIdxs (· = lineBreak)).map (· + 1) := by
  rw [data_toUTF8]
  exact startsAfter_eq_findIdxs [0] 0 source.toList

theorem isOf_ofSource (source : String) : (ofSource source).IsOf source := by
  refine ⟨?_, ?_, byteLength_toList source⟩
  · intro start
    rw [starts_ofSource, List.mem_cons, List.mem_map]
    refine or_congr Iff.rfl ⟨?_, ?_⟩
    · rintro ⟨place, hmem, rfl⟩
      obtain ⟨hless, hbreak⟩ := List.mem_findIdxs_iff_exists_getElem_pos.mp hmem
      refine ⟨place, ?_, rfl⟩
      rw [Array.getElem?_eq_getElem (by simpa using hless)]
      simpa using hbreak
    · rintro ⟨place, hplace, rfl⟩
      obtain ⟨hless, hbreak⟩ := Array.getElem?_eq_some_iff.mp hplace
      refine ⟨place, List.mem_findIdxs_iff_exists_getElem_pos.mpr ⟨by simpa using hless, ?_⟩, rfl⟩
      simpa using hbreak
  · rw [starts_ofSource, List.pairwise_cons]
    refine ⟨?_, List.pairwise_findIdxs.map _ fun _ _ hless => Nat.succ_lt_succ hless⟩
    intro start hmem
    obtain ⟨place, _, rfl⟩ := List.mem_map.mp hmem
    exact Nat.succ_pos place

theorem exists_lineRange {offsets : LineOffsets} {line : Nat} (h : line < offsets.lines) :
    ∃ range, offsets.lineRange line = .ok range := by
  rw [lineRange]
  split
  · rename_i hnone
    exact absurd (List.drop_eq_nil_iff.mp hnone) (Nat.not_le_of_lt h)
  · exact ⟨_, rfl⟩
  · exact ⟨_, rfl⟩

section Place

variable {source : String} {byte : Nat}

/-- The lines that start at or in front of a place start behind the line breaks in front
of it, but for the first one. -/
theorem takeWhile_starts_ofSource (h : byte ≤ source.utf8ByteSize) :
    ((ofSource source).starts.takeWhile (· ≤ byte)).length =
      lineBreaksBefore source byte + 1 := by
  have hbytes : byte ≤ source.toUTF8.data.toList.length := by
    rwa [data_toUTF8, length_flatMap_utf8EncodeChar, byteLength_toList]
  rw [starts_ofSource, lineBreaksBefore]
  generalize source.toUTF8.data.toList = bytes at hbytes
  have hfront : ∀ start ∈ 0 :: ((bytes.take byte).findIdxs (· = lineBreak)).map (· + 1),
      decide (start ≤ byte) = true := by
    rintro start (_ | ⟨_, hmem⟩)
    · exact decide_eq_true (Nat.zero_le byte)
    · obtain ⟨place, hplace, rfl⟩ := List.mem_map.mp hmem
      have hless := List.lt_add_of_mem_findIdxs place hplace
      rw [List.length_take_of_le hbytes, Nat.add_zero] at hless
      exact decide_eq_true hless
  have hbehind : (((bytes.drop byte).findIdxs (· = lineBreak) byte).map (· + 1)).takeWhile
      (· ≤ byte) = [] := by
    cases hplaces : (bytes.drop byte).findIdxs (· = lineBreak) byte with
    | nil => rfl
    | cons place rest =>
        have hle := List.ge_of_mem_findIdxs place (by rw [hplaces]; exact .head rest)
        rw [List.map_cons, List.takeWhile_cons_of_neg]
        rw [decide_eq_true_eq]
        omega
  calc ((0 :: (bytes.findIdxs (· = lineBreak)).map (· + 1)).takeWhile (· ≤ byte)).length
    _ = ((0 :: ((bytes.take byte).findIdxs (· = lineBreak)).map (· + 1) ++
          ((bytes.drop byte).findIdxs (· = lineBreak) byte).map (· + 1)).takeWhile
            (· ≤ byte)).length := by
          conv_lhs => rw [← List.take_append_drop byte bytes, List.findIdxs_append,
            List.length_take_of_le hbytes, Nat.zero_add, List.map_append]
          rfl
    _ = (bytes.take byte).count lineBreak + 1 := by
          rw [List.takeWhile_append_of_pos hfront, hbehind, List.append_nil, List.length_cons,
            List.length_map, List.length_findIdxs]
          rfl

theorem lineOf_ofSource (h : byte ≤ source.utf8ByteSize) :
    (ofSource source).lineOf byte = .ok (lineBreaksBefore source byte) := by
  have hlength : byte ≤ (ofSource source).length := by rwa [← byteLength_toList] at h
  rw [lineOf, if_pos hlength, takeWhile_starts_ofSource h, Nat.add_sub_cancel]

theorem lineBreaksBefore_lt_lines (source : String) (byte : Nat) :
    lineBreaksBefore source byte < (ofSource source).lines := by
  have hle : lineBreaksBefore source byte ≤ source.toUTF8.data.toList.count lineBreak :=
    (List.take_sublist byte _).count_le lineBreak
  rw [lines, starts_ofSource, List.length_cons, List.length_map, List.length_findIdxs]
  exact Nat.lt_succ_of_le hle

end Place

end LineOffsets

end JackLang
