import JackLang.Text.Bytes

/-! # Line offsets

The offsets at which the lines of a source start turn a byte offset into a
line and a line into a byte range. A line ends behind its line break, so the
lines of a source cover it without a gap; the last one ends with the source.
-/

set_option autoImplicit false

namespace JackLang

/-- Tells where a number stands in a list, or else where it would have to be inserted. -/
abbrev Search := List Nat → Nat → Except Nat Nat

/-- A search from the front, up to the first number that is not less. -/
def Search.fromFront : Search := fun list number =>
  let place := (list.takeWhile (· < number)).length
  if list[place]? = some number then .ok place else .error place

/-- The start of each line, and the length of the source in bytes. There is at
least one line, and the last one starts within the source. -/
structure LineOffsets where
  starts : List Nat
  length : Nat
  starts_ne_nil : starts ≠ []
  getLast_le_length : starts.getLast starts_ne_nil ≤ length

namespace LineOffsets

inductive Malformed where
  | noLine
  | lineBehindEnd
deriving DecidableEq, Repr

inductive OutOfBounds where
  | offset
  | line
deriving DecidableEq, Repr

/-- Line offsets from a list of starts, which is taken to be increasing from 0. -/
def ofStarts (starts : List Nat) (length : Nat) : Except Malformed LineOffsets :=
  if hnil : starts = [] then .error .noLine
  else if hlast : starts.getLast hnil ≤ length then .ok ⟨starts, length, hnil, hlast⟩
  else .error .lineBehindEnd

/-- The starts of the lines that begin in the rest of a source, behind those
already found, which come last first. -/
def startsAfter (found : List Nat) (offset : Nat) : List Char → List Nat
  | [] => found.reverse
  | c :: rest =>
      let next := offset + c.utf8Size
      startsAfter (if c = '\n' then next :: found else found) next rest

theorem startsAfter_ne_nil (found : List Nat) (offset : Nat) (text : List Char)
    (h : found ≠ []) : startsAfter found offset text ≠ [] := by
  induction text generalizing found offset with
  | nil => simpa [startsAfter] using h
  | cons c rest ih =>
      refine ih _ _ ?_
      split
      · simp
      · exact h

theorem le_of_mem_startsAfter (found : List Nat) (offset : Nat) (text : List Char)
    (h : ∀ start ∈ found, start ≤ offset) :
    ∀ start ∈ startsAfter found offset text, start ≤ offset + byteLength text := by
  induction text generalizing found offset with
  | nil => simpa [startsAfter] using h
  | cons c rest ih =>
      have hnext : ∀ start ∈ (if c = '\n' then (offset + c.utf8Size) :: found else found),
          start ≤ offset + c.utf8Size := by
        intro start hmem
        split at hmem
        · rcases List.mem_cons.mp hmem with rfl | hmem
          · exact Nat.le_refl _
          · exact Nat.le_trans (h start hmem) (Nat.le_add_right _ _)
        · exact Nat.le_trans (h start hmem) (Nat.le_add_right _ _)
      intro start hmem
      have := ih _ _ hnext start hmem
      simp only [byteLength_cons]
      omega

/-- The lines of a source: one at its start and one behind every line break. -/
def ofSource (source : String) : LineOffsets where
  starts := startsAfter [0] 0 source.toList
  length := byteLength source.toList
  starts_ne_nil := startsAfter_ne_nil _ _ _ (by simp)
  getLast_le_length := by
    have h := le_of_mem_startsAfter [0] 0 source.toList (by simp) _
      (List.getLast_mem (startsAfter_ne_nil [0] 0 source.toList (by simp)))
    simpa using h

def lines (offsets : LineOffsets) : Nat :=
  offsets.starts.length

/-- The line of an offset: the last one that starts at or in front of it. -/
def lineOf (offsets : LineOffsets) (offset : Nat) : Except OutOfBounds Nat :=
  if offset ≤ offsets.length then
    .ok ((offsets.starts.takeWhile (· ≤ offset)).length - 1)
  else .error .offset

/-- The line of an offset by a search for it: the line that starts there, or else the one in
front of the place that a line with this start would have. -/
def searchLine (search : Search) (offsets : LineOffsets) (offset : Nat) :
    Except OutOfBounds Nat :=
  if offsets.length < offset then .error .offset
  else
    match search offsets.starts offset with
    | .ok line => .ok line
    | .error place => .ok (place - 1)

def lineRange (offsets : LineOffsets) (line : Nat) : Except OutOfBounds Span :=
  match offsets.starts.drop line with
  | [] => .error .line
  | [start] => .ok ⟨start, offsets.length⟩
  | start :: next :: _ => .ok ⟨start, next⟩

end LineOffsets

end JackLang
