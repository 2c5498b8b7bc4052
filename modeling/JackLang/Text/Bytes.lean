/-! # Byte offsets of text

Places in a source are counted in bytes of its UTF-8 form. A character is
placed by the offset at which it starts; a byte range of a text holds the
characters that start within it.
-/

set_option autoImplicit false

namespace JackLang

/-- A range of bytes of a source, from `start` up to but not including `stop`. -/
structure Span where
  start : Nat
  stop : Nat
deriving DecidableEq, Repr, Inhabited

def byteLength (text : List Char) : Nat :=
  text.foldr (fun c length => c.utf8Size + length) 0

@[simp] theorem byteLength_nil : byteLength [] = 0 := rfl

@[simp] theorem byteLength_cons (c : Char) (text : List Char) :
    byteLength (c :: text) = c.utf8Size + byteLength text := rfl

@[simp] theorem byteLength_append (first second : List Char) :
    byteLength (first ++ second) = byteLength first + byteLength second := by
  induction first with
  | nil => simp
  | cons c rest ih => simp [ih, Nat.add_assoc]

/-- The characters of a text with their offsets, behind those already placed,
which come last first. -/
def placeAfter (placed : List (Nat × Char)) (offset : Nat) : List Char → List (Nat × Char)
  | [] => placed.reverse
  | c :: rest => placeAfter ((offset, c) :: placed) (offset + c.utf8Size) rest

/-- The characters of a text with the offsets at which they start. -/
def placedChars (text : List Char) : List (Nat × Char) :=
  placeAfter [] 0 text

theorem map_snd_placeAfter (placed : List (Nat × Char)) (offset : Nat) (text : List Char) :
    (placeAfter placed offset text).map Prod.snd = (placed.map Prod.snd).reverse ++ text := by
  induction text generalizing placed offset with
  | nil => simp [placeAfter]
  | cons c rest ih => simp [placeAfter, ih]

/-- Placing characters neither drops nor reorders them. -/
theorem map_snd_placedChars (text : List Char) : (placedChars text).map Prod.snd = text := by
  simp [placedChars, map_snd_placeAfter]

def sliceBytes (text : List Char) (span : Span) : List Char :=
  ((placedChars text).filter fun placed =>
    span.start ≤ placed.1 && placed.1 < span.stop).map Prod.snd

/-- The number of characters that end within a byte range. -/
def charsEndingWithin (text : List Char) (span : Span) : Nat :=
  (placedChars text).countP fun placed =>
    let stop := placed.1 + placed.2.utf8Size
    span.start < stop && stop ≤ span.stop

end JackLang
