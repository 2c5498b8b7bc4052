/-! # Paths

A path is text whose parts are divided by slashes. Empty parts and parts that
are a single dot lead nowhere and are passed over at the end of a path; a root
or a dot at its very start belongs to no part.
-/

set_option autoImplicit false

namespace JackLang.Path

/-- The parts of a text between its slashes. -/
def parts : List Char → List (List Char)
  | [] => [[]]
  | c :: rest =>
      if c = '/' then [] :: parts rest
      else
        match parts rest with
        | [] => [[c]]
        | part :: others => (c :: part) :: others

/-- The text with the given parts. -/
def joinParts (ps : List (List Char)) : List Char :=
  ['/'].intercalate ps

theorem parts_ne_nil (text : List Char) : parts text ≠ [] := by
  cases text with
  | nil => simp [parts]
  | cons c rest =>
      unfold parts
      split
      · simp
      · split <;> simp

theorem joinParts_parts (text : List Char) : joinParts (parts text) = text := by
  induction text with
  | nil => rfl
  | cons c rest ih =>
      obtain ⟨part, others, hrest⟩ := List.exists_cons_of_ne_nil (parts_ne_nil rest)
      rw [hrest] at ih
      unfold parts
      rw [hrest]
      split
      · rename_i hc
        rw [← ih, hc]
        rfl
      · rw [← ih]
        cases others <;> rfl

/-- Whether a part leads nowhere. -/
def isIdle (part : List Char) : Bool :=
  part = [] || part = ['.']

/-- What stands in front of the parts of a path: its root, or a leading dot. -/
def start : List Char → List Char
  | '/' :: _ => ['/']
  | ['.'] => ['.']
  | '.' :: '/' :: _ => ['.']
  | _ => []

/-- The parts of a path from its last one back, without those at its end that
lead nowhere. -/
def partsBack (path : List Char) : List (List Char) :=
  (parts (path.drop (start path).length)).reverse.dropWhile isIdle

/-- The name that a path ends in, unless it ends by going up or has no part. -/
def fileName? (path : String) : Option (List Char) :=
  match partsBack path.toList with
  | [] => none
  | part :: _ => if part = ['.', '.'] then none else some part

/-- The path without its last part. A path that is a dot lies in the empty path,
and a root lies nowhere. -/
def parent? (path : String) : Option String :=
  let path := path.toList
  match partsBack path with
  | _ :: before =>
      some (String.ofList (start path ++ joinParts (before.dropWhile isIdle).reverse))
  | [] => if start path = ['.'] then some "" else none

/-- The length of a text with the given parts, and one more. -/
def partsSize (ps : List (List Char)) : Nat :=
  ps.foldr (fun part size => part.length + 1 + size) 0

theorem partsSize_cons (part : List Char) (others : List (List Char)) :
    partsSize (part :: others) = part.length + 1 + partsSize others := rfl

theorem partsSize_append (first second : List (List Char)) :
    partsSize (first ++ second) = partsSize first + partsSize second := by
  induction first with
  | nil => exact (Nat.zero_add _).symm
  | cons part others ih =>
      rw [List.cons_append, partsSize_cons, partsSize_cons, ih]
      omega

theorem length_joinParts_cons (part : List Char) (others : List (List Char)) :
    (joinParts (part :: others)).length + 1 = partsSize (part :: others) := by
  induction others generalizing part with
  | nil => simp [joinParts, List.intercalate, partsSize]
  | cons next rest ih =>
      have h : joinParts (part :: next :: rest) = part ++ '/' :: joinParts (next :: rest) := rfl
      rw [h]
      have := ih next
      simp only [partsSize_cons, List.length_append, List.length_cons] at this ⊢
      omega

theorem partsSize_parts (text : List Char) : partsSize (parts text) = text.length + 1 := by
  obtain ⟨part, others, h⟩ := List.exists_cons_of_ne_nil (parts_ne_nil text)
  have hlength := length_joinParts_cons part others
  rw [← h, joinParts_parts] at hlength
  exact hlength.symm

theorem partsSize_reverse (ps : List (List Char)) : partsSize ps.reverse = partsSize ps := by
  induction ps with
  | nil => rfl
  | cons part others ih =>
      rw [List.reverse_cons, partsSize_append, ih, partsSize_cons, Nat.add_comm]
      rfl

theorem partsSize_le_of_suffix {first second : List (List Char)} (h : first <:+ second) :
    partsSize first ≤ partsSize second := by
  obtain ⟨front, rfl⟩ := h
  rw [partsSize_append]
  exact Nat.le_add_left ..

theorem length_start_le (path : List Char) : (start path).length ≤ path.length := by
  unfold start
  split <;> simp

/-- The last part of a path leads somewhere. -/
theorem length_pos_of_partsBack {path part : List Char} {before : List (List Char)}
    (h : partsBack path = part :: before) : 0 < part.length := by
  have hne : isIdle part = false := by
    unfold partsBack at h
    have hcons : (parts (path.drop (start path).length)).reverse.dropWhile isIdle ≠ [] := by
      simp [h]
    have hhead := List.head_dropWhile_not isIdle hcons
    simpa only [h, List.head_cons] using hhead
  cases part with
  | nil => simp [isIdle] at hne
  | cons => simp

/-- What lies around a path is shorter than the path. -/
theorem length_parent? {path parent : String} (h : parent? path = some parent) :
    parent.toList.length < path.toList.length := by
  unfold parent? at h
  simp only at h
  have hstart := length_start_le path.toList
  split at h
  · rename_i part before hback
    cases h
    have hpos := length_pos_of_partsBack hback
    have hsuffix : (part :: before) <:+
        (parts (path.toList.drop (start path.toList).length)).reverse := by
      rw [← hback]
      exact List.dropWhile_suffix _
    have hsize := partsSize_le_of_suffix hsuffix
    rw [partsSize_reverse, partsSize_parts, List.length_drop] at hsize
    have hfewer := partsSize_le_of_suffix (List.dropWhile_suffix (l := before) isIdle)
    have hcons := partsSize_cons part before
    rw [String.toList_ofList, List.length_append]
    cases hrest : (before.dropWhile isIdle).reverse with
    | nil =>
        simp only [joinParts, List.intercalate]
        simp
        omega
    | cons first others =>
        have hjoin := length_joinParts_cons first others
        have hreverse : partsSize (first :: others) = partsSize (before.dropWhile isIdle) := by
          rw [← hrest, partsSize_reverse]
        omega
  · split at h
    · rename_i hdot
      cases h
      rw [hdot] at hstart
      exact hstart
    · simp at h

/-- A name in front of its last dot and, unless it starts with that dot, the
extension behind it. -/
def splitExtension (name : List Char) : List Char × Option (List Char) :=
  match name.reverse.dropWhile (· ≠ '.') with
  | _ :: before@(_ :: _) =>
      (before.reverse, some (name.reverse.takeWhile (· ≠ '.')).reverse)
  | _ => (name, none)

/-- The name that a path ends in, without its extension. -/
def stem? (path : String) : Option String :=
  (fileName? path).map fun name => String.ofList (splitExtension name).1

/-- The extension of the name that a path ends in. -/
def extension? (path : String) : Option String :=
  (fileName? path).bind fun name => (splitExtension name).2.map String.ofList

/-- The path of a name in a directory. A name that starts at the root is a path
of its own. -/
def join (directory name : String) : String :=
  if name.toList.head? = some '/' then name
  else
    match directory.toList.getLast? with
    | none => name
    | some last => if last = '/' then directory ++ name else directory ++ "/" ++ name

end JackLang.Path
