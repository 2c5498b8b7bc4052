import JackLang.Source.LineOffsets
import Mathlib.Data.List.TakeWhile
import Mathlib.Order.Bounds.Basic

/-! # Lines and their ranges

The line of an offset is found by a search among the starts of the lines. As long as the
starts increase from 0, the search finds the last line that starts at or in front of the
offset, and the ranges of the lines follow each other from the first byte to the last. So
looking up a line and giving its range undo each other.
-/

set_option autoImplicit false

namespace JackLang

/-- In a list in strict order a number is found where it stands, and a number that is not in
the list may be inserted at the place that is told. -/
structure Search.Sound (search : Search) : Prop where
  found : ∀ {list : List Nat} {number place : Nat}, list.Pairwise (· < ·) →
    search list number = .ok place → list[place]? = some number
  missing : ∀ {list : List Nat} {number place : Nat}, list.Pairwise (· < ·) →
    search list number = .error place → number ∉ list ∧ place ≤ list.length ∧
      (list.take place ++ number :: list.drop place).Pairwise (· ≤ ·)

/-- In an increasing list nothing behind the first number that fails passes a test that is
passed by everything below what passes it. -/
theorem eq_false_of_mem_dropWhile {test : Nat → Bool} {list : List Nat}
    (hbelow : ∀ number other, number < other → test other = true → test number = true)
    (h : list.Pairwise (· < ·)) : ∀ number ∈ list.dropWhile test, test number = false := by
  have hsorted := h.sublist (List.dropWhile_sublist test)
  have hfirst := List.head?_dropWhile_not test list
  cases hrest : list.dropWhile test with
  | nil => simp
  | cons first rest =>
      rw [hrest] at hsorted hfirst
      dsimp only [List.head?_cons] at hfirst
      rw [List.forall_mem_cons]
      refine ⟨hfirst, fun number hmem => ?_⟩
      by_contra hpasses
      have hless := (List.pairwise_cons.mp hsorted).1 number hmem
      rw [hbelow first number hless (by simpa using hpasses)] at hfirst
      cases hfirst

namespace Search

/-- What is less than a number stands in front, and is what a search from the front passes. -/
theorem exists_split_of_pairwise {list : List Nat} (h : list.Pairwise (· < ·)) (number : Nat) :
    ∃ front behind, list = front ++ behind ∧
      front.length = (list.takeWhile (· < number)).length ∧
      (∀ other ∈ front, other < number) ∧ ∀ other ∈ behind, number ≤ other := by
  refine ⟨list.takeWhile (· < number), list.dropWhile (· < number),
    List.takeWhile_append_dropWhile.symm, rfl, ?_, ?_⟩
  · intro other hmem
    simpa using List.mem_takeWhile_imp hmem
  · intro other hmem
    have hfails := eq_false_of_mem_dropWhile (by simp; omega) h other hmem
    simpa using hfails

/-- A number that is not the first of those that are not less is less than all of them. -/
theorem lt_of_head?_ne {list : List Nat} {number : Nat} (h : list.Pairwise (· < ·))
    (hle : ∀ other ∈ list, number ≤ other) (hhead : list.head? ≠ some number) :
    ∀ other ∈ list, number < other := by
  cases list with
  | nil => simp
  | cons first rest =>
      have hless : number < first := by
        refine Nat.lt_of_le_of_ne (hle first (.head rest)) ?_
        rintro rfl
        exact hhead rfl
      rw [List.forall_mem_cons]
      exact ⟨hless, fun other hmem => hless.trans ((List.pairwise_cons.mp h).1 other hmem)⟩

theorem sound_fromFront : fromFront.Sound := by
  constructor
  case found =>
    intro list number place _ h
    rw [fromFront] at h
    split at h
    · rename_i hplace
      cases h
      exact hplace
    · cases h
  case missing =>
    intro list number place hsorted h
    rw [fromFront] at h
    split at h
    · cases h
    · rename_i hother
      cases h
      obtain ⟨front, behind, rfl, hlength, hfront, hbehind⟩ :=
        exists_split_of_pairwise hsorted number
      rw [← hlength] at hother ⊢
      rw [List.getElem?_append_right (Nat.le_refl _), Nat.sub_self,
        ← List.head?_eq_getElem?] at hother
      obtain ⟨hless, hrest, _⟩ := List.pairwise_append.mp hsorted
      have hgreater := lt_of_head?_ne hrest hbehind hother
      refine ⟨?_, by simp, ?_⟩
      · intro hmem
        rcases List.mem_append.mp hmem with hmem | hmem
        · exact Nat.lt_irrefl number (hfront number hmem)
        · exact Nat.lt_irrefl number (hgreater number hmem)
      · rw [List.take_left, List.drop_left, List.pairwise_append, List.pairwise_cons]
        refine ⟨hless.imp Nat.le_of_lt, ⟨hbehind, hrest.imp Nat.le_of_lt⟩, ?_⟩
        intro other hmem next hnext
        have hother_lt := hfront other hmem
        rcases List.mem_cons.mp hnext with rfl | hnext
        · exact Nat.le_of_lt hother_lt
        · exact Nat.le_of_lt (Nat.lt_trans hother_lt (hgreater next hnext))

end Search

namespace LineOffsets

/-- The lines that start at an offset or in front of it. -/
def linesUpTo (offsets : LineOffsets) (byte : Nat) : Set Nat :=
  {line | ∃ start, offsets.starts[line]? = some start ∧ start ≤ byte}

/-- The starts of the lines increase from 0. -/
structure FromZero (offsets : LineOffsets) : Prop where
  first : offsets.starts.head? = some 0
  increasing : offsets.starts.Pairwise (· < ·)

/-- Looking up the line of an offset and giving the range of a line undo each other. -/
structure Inverse (search : Search) (offsets : LineOffsets) : Prop where
  lookup : ∀ byte, offsets.searchLine search byte = offsets.lineOf byte
  /-- An offset has a line unless it is behind the end. -/
  outside : ∀ byte, (∃ error, offsets.searchLine search byte = .error error) ↔
    offsets.length < byte
  greatest : ∀ byte line, offsets.searchLine search byte = .ok line →
    IsGreatest (offsets.linesUpTo byte) line
  /-- There is always a line in front of the place that is told. -/
  inside : ∀ byte, byte ≤ offsets.length → search offsets.starts byte ≠ .error 0
  missing : ∀ line, (∃ error, offsets.lineRange line = .error error) ↔ offsets.lines ≤ line
  /-- The ranges follow each other from 0 to the length. -/
  first : ∀ range, offsets.lineRange 0 = .ok range → range.start = 0
  consecutive : ∀ line range next, offsets.lineRange line = .ok range →
    offsets.lineRange (line + 1) = .ok next → range.stop = next.start
  last : ∀ line range, line + 1 = offsets.lines → offsets.lineRange line = .ok range →
    range.stop = offsets.length
  forward : ∀ line range, offsets.lineRange line = .ok range → range.start ≤ range.stop
  covered : ∀ byte, byte < offsets.length → ∃! line, ∃ range,
    offsets.lineRange line = .ok range ∧ range.start ≤ byte ∧ byte < range.stop
  /-- An offset lies on its line, or it is the length and its line is the last one. -/
  range_of_line : ∀ byte line, offsets.searchLine search byte = .ok line →
    ∃ range, offsets.lineRange line = .ok range ∧ range.start ≤ byte ∧
      (byte < range.stop ∨ byte = offsets.length ∧ line + 1 = offsets.lines)
  monotone : ∀ byte other line next, byte ≤ other → offsets.searchLine search byte = .ok line →
    offsets.searchLine search other = .ok next → line ≤ next
  line_of_start : ∀ line range, offsets.lineRange line = .ok range →
    offsets.searchLine search range.start = .ok line

variable {offsets : LineOffsets} {byte line : Nat}

theorem start_lt_start (h : offsets.FromZero) {other start next : Nat}
    (hstart : offsets.starts[line]? = some start) (hnext : offsets.starts[other]? = some next)
    (hless : line < other) : start < next := by
  obtain ⟨hline, rfl⟩ := List.getElem?_eq_some_iff.mp hstart
  obtain ⟨hother, rfl⟩ := List.getElem?_eq_some_iff.mp hnext
  exact List.pairwise_iff_getElem.mp h.increasing line other hline hother hless

/-- Where the starts up to an offset end, the last line of them is the greatest. -/
theorem isGreatest_of_split (h : offsets.FromZero) {front behind : List Nat}
    (hsplit : offsets.starts = front ++ behind) (hfront : ∀ start ∈ front, start ≤ byte)
    (hbehind : ∀ start ∈ behind, byte < start) :
    0 < front.length ∧ IsGreatest (offsets.linesUpTo byte) (front.length - 1) := by
  have hpos : 0 < front.length := by
    rw [List.length_pos_iff]
    rintro rfl
    have hzero : 0 ∈ behind := by
      rw [← List.nil_append behind, ← hsplit]
      exact List.mem_of_mem_head? h.first
    exact Nat.not_lt_zero byte (hbehind 0 hzero)
  refine ⟨hpos, ?_, ?_⟩
  · have hlast : front.length - 1 < front.length := by omega
    refine ⟨front[front.length - 1], ?_, hfront _ (List.getElem_mem hlast)⟩
    rw [hsplit, List.getElem?_append_left hlast, List.getElem?_eq_getElem hlast]
  · rintro line ⟨start, hstart, hle⟩
    by_contra hless
    rw [hsplit, List.getElem?_append_right (by omega)] at hstart
    have hgreater := hbehind start (List.mem_of_getElem? hstart)
    omega

theorem exists_lineOf (h : offsets.FromZero) (hbyte : byte ≤ offsets.length) :
    ∃ line, offsets.lineOf byte = .ok line ∧ IsGreatest (offsets.linesUpTo byte) line := by
  refine ⟨_, by rw [lineOf, if_pos hbyte], ?_⟩
  have hfront : ∀ start ∈ offsets.starts.takeWhile (· ≤ byte), start ≤ byte := by
    intro start hmem
    simpa using List.mem_takeWhile_imp hmem
  have hbehind : ∀ start ∈ offsets.starts.dropWhile (· ≤ byte), byte < start := by
    intro start hmem
    have hfails := eq_false_of_mem_dropWhile (by simp; omega) h.increasing start hmem
    simpa using hfails
  exact (isGreatest_of_split h List.takeWhile_append_dropWhile.symm hfront hbehind).2

/-- A start that is found is that of the last line up to it. -/
theorem isGreatest_of_found (h : offsets.FromZero) (hfound : offsets.starts[line]? = some byte) :
    IsGreatest (offsets.linesUpTo byte) line := by
  refine ⟨⟨byte, hfound, Nat.le_refl byte⟩, ?_⟩
  rintro other ⟨start, hstart, hle⟩
  by_contra hless
  exact Nat.not_lt_of_le hle (start_lt_start h hfound hstart (Nat.lt_of_not_le hless))

theorem isGreatest_of_missing {place : Nat} (h : offsets.FromZero)
    (hmissing : byte ∉ offsets.starts) (hplace : place ≤ offsets.starts.length)
    (hsorted : (offsets.starts.take place ++ byte :: offsets.starts.drop place).Pairwise (· ≤ ·)) :
    0 < place ∧ IsGreatest (offsets.linesUpTo byte) (place - 1) := by
  obtain ⟨_, hbehind, hfront⟩ := List.pairwise_append.mp hsorted
  have hgreatest := isGreatest_of_split h (List.take_append_drop place offsets.starts).symm
    (fun start hmem => hfront start hmem byte (.head _)) (fun start hmem => by
      have hle := (List.pairwise_cons.mp hbehind).1 start hmem
      refine Nat.lt_of_le_of_ne hle ?_
      rintro rfl
      exact hmissing (List.mem_of_mem_drop hmem))
  rwa [List.length_take_of_le hplace] at hgreatest

section Search

variable {search : Search}

/-- The search tells the last line that starts at the offset or in front of it, and what it
takes one off from is not 0. -/
theorem exists_searchLine (hsearch : search.Sound) (h : offsets.FromZero)
    (hbyte : byte ≤ offsets.length) :
    search offsets.starts byte ≠ .error 0 ∧
      ∃ line, offsets.searchLine search byte = .ok line ∧
        IsGreatest (offsets.linesUpTo byte) line := by
  rw [searchLine, if_neg (Nat.not_lt_of_le hbyte)]
  cases hresult : search offsets.starts byte with
  | ok line =>
      refine ⟨nofun, line, rfl, ?_⟩
      exact isGreatest_of_found h (hsearch.found h.increasing hresult)
  | error place =>
      obtain ⟨hmissing, hplace, hsorted⟩ := hsearch.missing h.increasing hresult
      obtain ⟨hpos, hgreatest⟩ := isGreatest_of_missing h hmissing hplace hsorted
      refine ⟨?_, place - 1, rfl, hgreatest⟩
      rintro ⟨⟩
      exact Nat.lt_irrefl 0 hpos

theorem searchLine_eq_ok_iff (hsearch : search.Sound) (h : offsets.FromZero) :
    offsets.searchLine search byte = .ok line ↔
      byte ≤ offsets.length ∧ IsGreatest (offsets.linesUpTo byte) line := by
  by_cases hbyte : byte ≤ offsets.length
  · obtain ⟨_, found, hfound, hgreatest⟩ := exists_searchLine hsearch h hbyte
    rw [hfound]
    constructor
    · rintro ⟨⟩
      exact ⟨hbyte, hgreatest⟩
    · rintro ⟨_, hline⟩
      rw [hgreatest.unique hline]
  · rw [searchLine, if_pos (Nat.lt_of_not_le hbyte)]
    simp [hbyte]

/-- The search gives what counting the starts up to the offset gives. -/
theorem searchLine_eq_lineOf (hsearch : search.Sound) (h : offsets.FromZero) (byte : Nat) :
    offsets.searchLine search byte = offsets.lineOf byte := by
  by_cases hbyte : byte ≤ offsets.length
  · obtain ⟨line, hline, hgreatest⟩ := exists_lineOf h hbyte
    rw [hline]
    exact (searchLine_eq_ok_iff hsearch h).mpr ⟨hbyte, hgreatest⟩
  · rw [searchLine, lineOf, if_pos (Nat.lt_of_not_le hbyte), if_neg hbyte]

end Search

/-- A line ranges from its start to that of the next line, or to the length. -/
theorem lineRange_eq_ok_iff {range : Span} :
    offsets.lineRange line = .ok range ↔ offsets.starts[line]? = some range.start ∧
      range.stop = offsets.starts[line + 1]?.getD offsets.length := by
  obtain ⟨start, stop⟩ := range
  rw [lineRange, ← List.head?_drop, ← List.head?_drop, ← List.tail_drop]
  rcases offsets.starts.drop line with _ | ⟨first, _ | ⟨next, rest⟩⟩
  · simp
  · simp [eq_comm (a := stop)]
  · simp [eq_comm (a := stop)]

theorem exists_error_lineRange_iff :
    (∃ error, offsets.lineRange line = .error error) ↔ offsets.lines ≤ line := by
  rw [lineRange, lines, ← List.drop_eq_nil_iff]
  rcases offsets.starts.drop line with _ | ⟨first, _ | ⟨next, rest⟩⟩ <;> simp

theorem start_le_length (h : offsets.FromZero) {start : Nat}
    (hstart : offsets.starts[line]? = some start) : start ≤ offsets.length := by
  refine Nat.le_trans ?_ offsets.getLast_le_length
  have hlast := List.getLast_eq_getElem offsets.starts_ne_nil
  obtain ⟨hline, rfl⟩ := List.getElem?_eq_some_iff.mp hstart
  rw [hlast]
  rcases Nat.lt_or_ge line (offsets.starts.length - 1) with hless | hge
  · exact Nat.le_of_lt (List.pairwise_iff_getElem.mp h.increasing _ _ hline _ hless)
  · exact Nat.le_of_eq (by congr 1; omega)

theorem start_le_stop (h : offsets.FromZero) {range : Span}
    (hrange : offsets.lineRange line = .ok range) : range.start ≤ range.stop := by
  obtain ⟨hstart, hstop⟩ := lineRange_eq_ok_iff.mp hrange
  rw [hstop]
  cases hnext : offsets.starts[line + 1]? with
  | none => exact start_le_length h hstart
  | some next => exact Nat.le_of_lt (start_lt_start h hstart hnext (Nat.lt_succ_self line))

/-- The last line up to an offset has the offset in its range, unless this is the length. -/
theorem exists_range_of_isGreatest (hbyte : byte ≤ offsets.length)
    (hgreatest : IsGreatest (offsets.linesUpTo byte) line) :
    ∃ range, offsets.lineRange line = .ok range ∧ range.start ≤ byte ∧
      (byte < range.stop ∨ byte = offsets.length ∧ line + 1 = offsets.lines) := by
  obtain ⟨⟨start, hstart, hle⟩, hbound⟩ := hgreatest
  refine ⟨⟨start, offsets.starts[line + 1]?.getD offsets.length⟩,
    lineRange_eq_ok_iff.mpr ⟨hstart, rfl⟩, hle, ?_⟩
  cases hnext : offsets.starts[line + 1]? with
  | none =>
      have hlast := List.getElem?_eq_none_iff.mp hnext
      have hline := (List.getElem?_eq_some_iff.mp hstart).1
      rcases Nat.lt_or_eq_of_le hbyte with hless | heq
      · exact .inl hless
      · exact .inr ⟨heq, Nat.le_antisymm hline hlast⟩
  | some next =>
      refine .inl (Nat.lt_of_not_le fun hnext_le => ?_)
      exact Nat.not_succ_le_self line (hbound ⟨next, hnext, hnext_le⟩)

/-- A line with an offset in its range is the last one up to the offset. -/
theorem isGreatest_of_mem_range (h : offsets.FromZero) {range : Span}
    (hrange : offsets.lineRange line = .ok range) (hstart : range.start ≤ byte)
    (hstop : byte < range.stop) : IsGreatest (offsets.linesUpTo byte) line := by
  obtain ⟨hline, hend⟩ := lineRange_eq_ok_iff.mp hrange
  refine ⟨⟨range.start, hline, hstart⟩, ?_⟩
  rintro other ⟨start, hother, hle⟩
  by_contra hless
  have hlength := (List.getElem?_eq_some_iff.mp hother).1
  have hnext := List.getElem?_eq_getElem (l := offsets.starts) (i := line + 1) (by omega)
  rw [hnext, Option.getD_some] at hend
  rcases Nat.eq_or_lt_of_le (Nat.lt_of_not_le hless) with heq | hbehind
  · rw [← heq, Nat.succ_eq_add_one, hnext, Option.some.injEq] at hother
    omega
  · have hgreater := start_lt_start h hnext hother hbehind
    omega

end LineOffsets

open LineOffsets

/-- Whatever search is used for them, lines are looked up and ranges given of the starts in
such a way that the one undoes the other. -/
theorem line_lookup_inverts_ranges {search : Search} (hsearch : search.Sound)
    {starts : List Nat} {length : Nat} (hfirst : starts.head? = some 0)
    (hincreasing : starts.Pairwise (· < ·)) (hlast : ∀ start ∈ starts.getLast?, start ≤ length) :
    ∃ offsets, ofStarts starts length = .ok offsets ∧ offsets.starts = starts ∧
      offsets.length = length ∧ offsets.Inverse search := by
  have hnil : starts ≠ [] := by
    rintro rfl
    cases hfirst
  have hend := hlast _ (List.getLast_mem_getLast? hnil)
  refine ⟨⟨starts, length, hnil, hend⟩, by rw [ofStarts, dif_neg hnil, dif_pos hend], rfl, rfl, ?_⟩
  have h : FromZero ⟨starts, length, hnil, hend⟩ := ⟨hfirst, hincreasing⟩
  generalize (⟨starts, length, hnil, hend⟩ : LineOffsets) = offsets at h
  have hline : ∀ byte line, offsets.searchLine search byte = .ok line ↔
      byte ≤ offsets.length ∧ IsGreatest (offsets.linesUpTo byte) line :=
    fun _ _ => searchLine_eq_ok_iff hsearch h
  constructor
  case lookup => exact searchLine_eq_lineOf hsearch h
  case outside =>
    intro byte
    rcases Nat.lt_or_ge offsets.length byte with hless | hbyte
    · simp [searchLine, hless]
    · obtain ⟨_, line, hfound, _⟩ := exists_searchLine hsearch h hbyte
      simp [hfound, hbyte]
  case greatest => exact fun byte line hfound => ((hline byte line).mp hfound).2
  case inside => exact fun byte hbyte => (exists_searchLine hsearch h hbyte).1
  case missing => exact fun line => exists_error_lineRange_iff
  case first =>
    intro range hrange
    have hstart := (lineRange_eq_ok_iff.mp hrange).1
    rw [← List.head?_eq_getElem?, h.first] at hstart
    exact (Option.some.inj hstart).symm
  case consecutive =>
    intro line range next hrange hnext
    rw [(lineRange_eq_ok_iff.mp hrange).2, (lineRange_eq_ok_iff.mp hnext).1, Option.getD_some]
  case last =>
    intro line range hlines hrange
    have hnone := List.getElem?_eq_none_iff.mpr (Nat.le_of_eq hlines.symm)
    rw [(lineRange_eq_ok_iff.mp hrange).2, hnone, Option.getD_none]
  case forward => exact fun line range hrange => start_le_stop h hrange
  case covered =>
    intro byte hbyte
    obtain ⟨line, _, hgreatest⟩ := exists_lineOf h (Nat.le_of_lt hbyte)
    obtain ⟨range, hrange, hstart, hstop⟩ :=
      exists_range_of_isGreatest (Nat.le_of_lt hbyte) hgreatest
    refine ⟨line, ⟨range, hrange, hstart, ?_⟩, ?_⟩
    · rcases hstop with hstop | ⟨hlength, _⟩
      · exact hstop
      · omega
    · rintro other ⟨found, hfound, hother, hbehind⟩
      exact (isGreatest_of_mem_range h hfound hother hbehind).unique hgreatest
  case range_of_line =>
    intro byte line hfound
    obtain ⟨hbyte, hgreatest⟩ := (hline byte line).mp hfound
    exact exists_range_of_isGreatest hbyte hgreatest
  case monotone =>
    intro byte other line next hle hfound hnext
    obtain ⟨⟨start, hstart, hbyte⟩, _⟩ := ((hline byte line).mp hfound).2
    exact ((hline other next).mp hnext).2.2 ⟨start, hstart, hbyte.trans hle⟩
  case line_of_start =>
    intro line range hrange
    have hstart := (lineRange_eq_ok_iff.mp hrange).1
    exact (hline range.start line).mpr ⟨start_le_length h hstart, isGreatest_of_found h hstart⟩

/-- The last line may be empty. -/
theorem line_lookup_inverts_ranges_of_emptyLine :
    Search.fromFront.Sound ∧ [0, 3, 7].head? = some 0 ∧ [0, 3, 7].Pairwise (· < ·) ∧
      (∀ start ∈ [0, 3, 7].getLast?, start ≤ 7) ∧
      ∃ offsets, ofStarts [0, 3, 7] 7 = .ok offsets ∧ offsets.starts = [0, 3, 7] ∧
        offsets.length = 7 ∧ offsets.Inverse Search.fromFront :=
  ⟨Search.sound_fromFront, rfl, by decide, by decide,
    line_lookup_inverts_ranges Search.sound_fromFront rfl (by decide) (by decide)⟩

end JackLang
