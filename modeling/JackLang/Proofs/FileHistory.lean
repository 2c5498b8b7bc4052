import JackLang.Source.NamedFiles
import JackLang.Proofs.LineLookup
import JackLang.Proofs.SourceLayout
import Mathlib.Data.List.Induction
import Mathlib.Data.List.Nodup

/-! # Files and their history

Files are entered and given line offsets by calls. What is told of them is told by the
history of the calls: the names are numbered in the order in which they came up, a file has
the text that was entered last, and the line offsets that were stored since then.
-/

set_option autoImplicit false

namespace JackLang

/-- A call that changes the files. -/
inductive FileCall where
  | upsert (name text : String)
  | setLineOffsets (number : Nat) (offsets : LineOffsets)

/-- The calls that have been made, in their order. -/
abbrev FileHistory := List FileCall

/-- A call is answered by the number of the file, if it asks for one, or by an error. -/
abbrev FileAnswer := Except FileError (Option Nat)

namespace FileCall

def run (named : NamedFiles) : FileCall → NamedFiles × FileAnswer
  | .upsert name text =>
      let (next, number) := named.upsert name text
      (next, .ok (some number))
  | .setLineOffsets number offsets =>
      match named.setLineOffsets number offsets with
      | .ok next => (next, .ok none)
      | .error error => (named, .error error)

def name? : FileCall → Option String
  | .upsert name _ => some name
  | .setLineOffsets _ _ => none

/-- The text that a call enters under a name. -/
def text? (name : String) : FileCall → Option String
  | .upsert other text => if other = name then some text else none
  | .setLineOffsets _ _ => none

/-- What a call makes of the line offsets of a file. To enter its name again forgets them. -/
def lineOffsets? (number : Nat) (name : String) : FileCall → Option (Option LineOffsets)
  | .upsert other _ => if other = name then some none else none
  | .setLineOffsets other offsets => if other = number then some (some offsets) else none

end FileCall

/-- Makes calls one after the other, and gives the files behind them and the answers. -/
def NamedFiles.runAll (named : NamedFiles) : List FileCall → NamedFiles × List FileAnswer
  | [] => (named, [])
  | call :: rest =>
      let (next, answer) := call.run named
      let (last, answers) := next.runAll rest
      (last, answer :: answers)

namespace FileHistory

/-- The names that have come up, each once, in the order in which they did. -/
def names (history : FileHistory) : List String :=
  (history.filterMap FileCall.name?).eraseDups

/-- The text that was entered last under a name. -/
def text? (history : FileHistory) (name : String) : Option String :=
  history.reverse.findSome? (FileCall.text? name)

/-- The line offsets that were stored last for a file, unless its name came up since. -/
def lineOffsets? (history : FileHistory) (number : Nat) : Option LineOffsets := do
  let name ← history.names[number]?
  (history.reverse.findSome? (FileCall.lineOffsets? number name)).join

/-- The file of a number, as the calls have left it. -/
def file? (history : FileHistory) (number : Nat) : Option SourceFile := do
  let name ← history.names[number]?
  let text ← history.text? name
  return ⟨name, text, history.lineOffsets? number⟩

/-- The number of a name that comes up, perhaps for the first time. -/
def numberOf (history : FileHistory) (name : String) : Nat :=
  (history.names ++ [name]).idxOf name

/-- The number of the file that a call is about. -/
def subject (history : FileHistory) : FileCall → Nat
  | .upsert name _ => history.numberOf name
  | .setLineOffsets number _ => number

end FileHistory

/-- There is no answer where there is no file. -/
def FileError.orMissing {α : Type} : Option α → Except FileError α
  | some answer => .ok answer
  | none => .error .fileMissing

namespace NamedFiles

/-- Both tables tell the same of a file. -/
structure Alike (number : Nat) (first second : NamedFiles) : Prop where
  name : first.name number = second.name number
  text : first.text number = second.text number
  lineIndex : ∀ byte, first.lineIndex number byte = second.lineIndex number byte
  lineRange : ∀ line, first.lineRange number line = second.lineRange number line
  columnNumber : ∀ line byte,
    first.columnNumber number line byte = second.columnNumber number line byte
  location : ∀ byte, first.location number byte = second.location number byte

/-- What the files tell, and what the calls have been answered, is told by the history. -/
structure Recounts (named : NamedFiles) (history : FileHistory) (answers : List FileAnswer) :
    Prop where
  /-- Names and numbers belong to each other, and the numbers are the places of the names. -/
  distinct : history.names.Nodup
  numbers : ∀ (name : String) (number : Nat),
    named.numbers[name]? = some number ↔ history.names[number]? = some name
  /-- Whenever a name has come up it has been given its number. -/
  given : ∀ (place : Nat) (name text : String), history[place]? = some (FileCall.upsert name text) →
    ∃ number, answers[place]? = some (Except.ok (some number)) ∧ history.names[number]? = some name
  next : ∀ name text, (named.upsert name text).2 = history.numberOf name
  name : ∀ number, named.name number = FileError.orMissing history.names[number]?
  text : ∀ number,
    named.text number = FileError.orMissing (history.names[number]?.bind history.text?)
  /-- There are no lines unless line offsets are stored, for the text of now. -/
  noLine : ∀ number byte,
    named.lineIndex number byte = .error .fileMissing ↔ history.lineOffsets? number = none
  noRange : ∀ number line,
    named.lineRange number line = .error .fileMissing ↔ history.lineOffsets? number = none
  lineIndex : ∀ number offsets byte line, history.lineOffsets? number = some offsets →
    (named.lineIndex number byte = .ok line ↔ offsets.lineOf byte = .ok line)
  indexTooLarge : ∀ number offsets byte error, history.lineOffsets? number = some offsets →
    (named.lineIndex number byte = .error error ↔ offsets.length < byte ∧
      ∃ text, named.text number = .ok text ∧ error = .indexTooLarge byte text.utf8ByteSize)
  lineRange : ∀ number offsets line range, history.lineOffsets? number = some offsets →
    (named.lineRange number line = .ok range ↔ offsets.lineRange line = .ok range)
  lineTooLarge : ∀ number offsets line error, history.lineOffsets? number = some offsets →
    (named.lineRange number line = .error error ↔
      offsets.lines ≤ line ∧ error = .lineTooLarge line offsets.lines)
  /-- A call makes no difference to the other files. -/
  others : ∀ call number, history.subject call ≠ number → Alike number (call.run named).1 named
  stored : ∀ number offsets, number < history.names.length →
    ((FileCall.setLineOffsets number offsets).run named).2 = .ok none
  unknown : ∀ number offsets, history.names.length ≤ number →
    (FileCall.setLineOffsets number offsets).run named = (named, .error .fileMissing)
  /-- The table finds a name by itself where the index has it. -/
  table : ∀ name text, named.toFileTable.upsert name text =
    ((named.upsert name text).1.toFileTable, (named.upsert name text).2)

end NamedFiles

namespace FileHistory

variable (history : FileHistory) (name text : String) (number : Nat) (offsets : LineOffsets)

theorem names_upsert : names (history ++ [.upsert name text]) =
    if name ∈ history.names then history.names else history.names ++ [name] := by
  have hname : FileCall.name? (.upsert name text) = some name := rfl
  rw [names, List.filterMap_append, List.eraseDups_append, names]
  simp only [List.filterMap_cons, hname, List.filterMap_nil, List.mem_eraseDups]
  generalize history.filterMap FileCall.name? = entered
  by_cases hmem : name ∈ entered
  · simp [List.removeAll, hmem]
  · simp [List.removeAll, hmem, List.eraseDups_cons]

theorem names_setLineOffsets :
    names (history ++ [.setLineOffsets number offsets]) = history.names := by
  have hname : FileCall.name? (.setLineOffsets number offsets) = none := rfl
  simp only [names, List.filterMap_append, List.filterMap_cons, hname, List.filterMap_nil,
    List.append_nil]

/-- A name keeps its number. -/
theorem getElem?_names_append {history : FileHistory} {name : String} {number : Nat}
    (h : history.names[number]? = some name) (call : FileCall) :
    (names (history ++ [call]))[number]? = some name := by
  cases call with
  | setLineOffsets other offsets => rwa [names_setLineOffsets]
  | upsert other text =>
      rw [names_upsert]
      split
      · exact h
      · obtain ⟨hlength, -⟩ := List.getElem?_eq_some_iff.mp h
        rwa [List.getElem?_append_left hlength]

theorem nodup_names : history.names.Nodup := by
  induction history using List.reverseRecOn with
  | nil => exact List.nodup_nil
  | append_singleton history call ih =>
      cases call with
      | setLineOffsets number offsets => rwa [names_setLineOffsets]
      | upsert name text =>
          rw [names_upsert]
          split
          · exact ih
          · rename_i hnew
            exact List.nodup_append_comm.mpr (List.nodup_cons.mpr ⟨hnew, ih⟩)

theorem numberOf_of_mem (h : name ∈ history.names) :
    history.numberOf name = history.names.idxOf name := by
  rw [numberOf, List.idxOf_append, if_pos h]

theorem numberOf_of_notMem (h : name ∉ history.names) :
    history.numberOf name = history.names.length := by
  rw [numberOf, List.idxOf_append, if_neg h, List.idxOf_cons_self, Nat.zero_add]

/-- A number that belongs to a name is the number of it. -/
theorem numberOf_eq_of_getElem?_names {history : FileHistory} {name : String} {number : Nat}
    (h : history.names[number]? = some name) : history.numberOf name = number := by
  obtain ⟨hlength, rfl⟩ := List.getElem?_eq_some_iff.mp h
  rw [numberOf_of_mem _ _ (List.getElem_mem hlength)]
  exact history.nodup_names.idxOf_getElem number hlength

theorem getElem?_names_upsert : (names (history ++ [.upsert name text]))[number]? =
    if number = history.numberOf name then some name else history.names[number]? := by
  rw [names_upsert]
  split
  · rename_i hmem
    split
    · rename_i hnumber
      rw [hnumber, numberOf_of_mem _ _ hmem]
      exact List.getElem?_idxOf hmem
    · rfl
  · rename_i hnew
    rw [numberOf_of_notMem _ _ hnew]
    split
    · rename_i hnumber
      rw [hnumber, List.getElem?_concat_length]
    · rename_i hnumber
      rcases Nat.lt_or_gt_of_ne hnumber with hless | hgreater
      · exact List.getElem?_append_left hless
      · rw [List.getElem?_eq_none (by simp; omega), List.getElem?_eq_none (by omega)]

theorem text?_append (call : FileCall) :
    text? (history ++ [call]) name = (call.text? name).or (history.text? name) := by
  rw [text?, List.reverse_concat, List.findSome?_cons, text?]
  cases call.text? name <;> rfl

/-- A name that has come up has a text. -/
theorem exists_text? {history : FileHistory} {name : String} (h : name ∈ history.names) :
    ∃ text, history.text? name = some text := by
  induction history using List.reverseRecOn with
  | nil => cases h
  | append_singleton history call ih =>
      rw [text?_append]
      cases call with
      | setLineOffsets number offsets =>
          rw [names_setLineOffsets] at h
          exact ih h
      | upsert other text =>
          by_cases hname : other = name
          · exact ⟨text, by rw [FileCall.text?, if_pos hname, Option.some_or]⟩
          · rw [FileCall.text?, if_neg hname, Option.none_or]
            refine ih ?_
            rw [names_upsert] at h
            split at h
            · exact h
            · simpa [Ne.symm hname] using h

/-- What the calls have last made of the line offsets of a file with a name. -/
theorem findSome?_lineOffsets?_append (call : FileCall) :
    (history ++ [call]).reverse.findSome? (FileCall.lineOffsets? number name) =
      (call.lineOffsets? number name).or
        (history.reverse.findSome? (FileCall.lineOffsets? number name)) := by
  rw [List.reverse_concat, List.findSome?_cons]
  cases call.lineOffsets? number name <;> rfl

theorem lineOffsets?_upsert : lineOffsets? (history ++ [.upsert name text]) number =
    if number = history.numberOf name then none else history.lineOffsets? number := by
  rw [lineOffsets?, getElem?_names_upsert]
  split
  · rw [Option.bind_eq_bind, Option.bind_some, findSome?_lineOffsets?_append,
      FileCall.lineOffsets?, if_pos rfl]
    rfl
  · rename_i hnumber
    rw [lineOffsets?]
    cases hother : history.names[number]? with
    | none => rfl
    | some other =>
        have hne : name ≠ other := by
          rintro rfl
          exact hnumber (numberOf_eq_of_getElem?_names hother).symm
        rw [Option.bind_eq_bind, Option.bind_some, findSome?_lineOffsets?_append,
          FileCall.lineOffsets?, if_neg hne]
        rfl

theorem lineOffsets?_setLineOffsets (other : Nat) :
    lineOffsets? (history ++ [.setLineOffsets number offsets]) other =
      if number = other ∧ other < history.names.length then some offsets
      else history.lineOffsets? other := by
  rw [lineOffsets?, names_setLineOffsets, lineOffsets?]
  by_cases hlength : other < history.names.length
  · rw [List.getElem?_eq_getElem hlength, Option.bind_eq_bind, Option.bind_some,
      findSome?_lineOffsets?_append, FileCall.lineOffsets?]
    by_cases hnumber : number = other <;> simp [hnumber, hlength]
  · rw [List.getElem?_eq_none (Nat.le_of_not_lt hlength), if_neg fun h => hlength h.2]
    rfl

theorem file?_eq_none_iff : history.file? number = none ↔ history.names.length ≤ number := by
  rw [file?]
  by_cases hlength : number < history.names.length
  · obtain ⟨text, htext⟩ := exists_text? (List.getElem_mem hlength)
    rw [List.getElem?_eq_getElem hlength, Option.bind_eq_bind, Option.bind_some, htext]
    simp [hlength]
  · rw [List.getElem?_eq_none (Nat.le_of_not_lt hlength)]
    exact iff_of_true rfl (Nat.le_of_not_lt hlength)

theorem file?_upsert : file? (history ++ [.upsert name text]) number =
    if number = history.numberOf name then some ⟨name, text, none⟩
    else history.file? number := by
  rw [file?, getElem?_names_upsert, lineOffsets?_upsert, file?]
  split
  · rw [Option.bind_eq_bind, Option.bind_some, text?_append, FileCall.text?, if_pos rfl]
    rfl
  · rename_i hnumber
    cases hother : history.names[number]? with
    | none => rfl
    | some other =>
        have hne : name ≠ other := by
          rintro rfl
          exact hnumber (numberOf_eq_of_getElem?_names hother).symm
        rw [Option.bind_eq_bind, Option.bind_some, text?_append, FileCall.text?, if_neg hne]
        rfl

theorem file?_setLineOffsets (other : Nat) :
    file? (history ++ [.setLineOffsets number offsets]) other =
      if number = other then
        (history.file? other).map fun file => { file with lineOffsets := some offsets }
      else history.file? other := by
  rw [file?, names_setLineOffsets, lineOffsets?_setLineOffsets, file?]
  cases hname : history.names[other]? with
  | none => simp
  | some name =>
      obtain ⟨hlength, -⟩ := List.getElem?_eq_some_iff.mp hname
      rw [Option.bind_eq_bind, Option.bind_some, text?_append, FileCall.text?, Option.none_or]
      by_cases hnumber : number = other <;> cases htext : history.text? name <;>
        simp [hnumber, hlength, htext]

end FileHistory

namespace NamedFiles

variable {named : NamedFiles} {history : FileHistory}

theorem runAll_append (named : NamedFiles) (calls : List FileCall) (call : FileCall) :
    named.runAll (calls ++ [call]) =
      ((call.run (named.runAll calls).1).1,
        (named.runAll calls).2 ++ [(call.run (named.runAll calls).1).2]) := by
  induction calls generalizing named with
  | nil => rfl
  | cons first rest ih => simp [runAll, ih]

theorem length_runAll (named : NamedFiles) (calls : List FileCall) :
    (named.runAll calls).2.length = calls.length := by
  induction calls generalizing named with
  | nil => rfl
  | cons first rest ih => simp [runAll, ih]

/-- The table holds the files of the history, and the index has their names. -/
structure Remembers (named : NamedFiles) (history : FileHistory) : Prop where
  files : ∀ number : Nat, named.files[number]? = history.file? number
  numbers : ∀ (name : String) (number : Nat),
    named.numbers[name]? = some number ↔ history.names[number]? = some name

theorem remembers_empty : NamedFiles.empty.Remembers [] := by
  constructor
  case files =>
    intro number
    rfl
  case numbers =>
    intro name number
    simp [empty, FileHistory.names]

namespace Remembers

theorem size_eq (h : named.Remembers history) : named.files.size = history.names.length := by
  have hbound : ∀ number, named.files.size ≤ number ↔ history.names.length ≤ number := by
    intro number
    rw [← Array.getElem?_eq_none_iff, h.files, FileHistory.file?_eq_none_iff]
  exact Nat.le_antisymm ((hbound _).mpr (Nat.le_refl _)) ((hbound _).mp (Nat.le_refl _))

/-- The index has the number of a name that has come up, and otherwise the next number is
that of a new name. -/
theorem upsert_eq (h : named.Remembers history) (name text : String) :
    named.upsert name text =
      if name ∈ history.names then
        (⟨⟨named.files.setIfInBounds (history.numberOf name) ⟨name, text, none⟩⟩,
          named.numbers⟩, history.numberOf name)
      else
        (⟨⟨named.files.push ⟨name, text, none⟩⟩,
          named.numbers.insert name (history.numberOf name)⟩, history.numberOf name) := by
  rw [upsert]
  cases hnumber : named.numbers[name]? with
  | some number =>
      have hname := (h.numbers name number).mp hnumber
      rw [if_pos (List.mem_of_getElem? hname), FileHistory.numberOf_eq_of_getElem?_names hname]
  | none =>
      have hnew : name ∉ history.names := by
        intro hmem
        have hfound := (h.numbers name _).mpr (List.getElem?_idxOf hmem)
        rw [hnumber] at hfound
        cases hfound
      rw [if_neg hnew, FileHistory.numberOf_of_notMem _ _ hnew, ← h.size_eq]
      simp

theorem snd_upsert (h : named.Remembers history) (name text : String) :
    (named.upsert name text).2 = history.numberOf name := by
  rw [h.upsert_eq]
  split <;> rfl

theorem numberOf_lt (h : named.Remembers history) {name : String} (hmem : name ∈ history.names) :
    history.numberOf name < named.files.size := by
  rw [h.size_eq, FileHistory.numberOf_of_mem _ _ hmem]
  exact List.idxOf_lt_length_of_mem hmem

theorem upsert (h : named.Remembers history) (name text : String) :
    (named.upsert name text).1.Remembers (history ++ [.upsert name text]) := by
  rw [h.upsert_eq]
  constructor
  case files =>
    intro number
    rw [FileHistory.file?_upsert, ← h.files]
    split
    · rename_i hmem
      simp only [Array.getElem?_setIfInBounds, h.numberOf_lt hmem, if_true,
        eq_comm (a := number)]
    · rename_i hnew
      rw [FileHistory.numberOf_of_notMem _ _ hnew, ← h.size_eq]
      exact Array.getElem?_push
  case numbers =>
    intro other number
    rw [FileHistory.getElem?_names_upsert]
    by_cases hnumber : number = history.numberOf name
    · subst hnumber
      rw [if_pos rfl, Option.some_inj]
      split
      · rename_i hmem
        rw [h.numbers, FileHistory.numberOf_of_mem _ _ hmem, List.getElem?_idxOf hmem,
          Option.some_inj]
      · rename_i hnew
        by_cases hname : name = other
        · simp [hname]
        · have hbehind : history.names[history.numberOf name]? = none := by
            rw [FileHistory.numberOf_of_notMem _ _ hnew]
            exact List.getElem?_eq_none (Nat.le_refl _)
          have hnone := (h.numbers other (history.numberOf name)).not.mpr (by simp [hbehind])
          simpa [Std.HashMap.getElem?_insert, hname] using hnone
    · rw [if_neg hnumber, ← h.numbers]
      split
      · rfl
      · rename_i hnew
        by_cases hname : name = other
        · subst hname
          have hnone := (h.numbers name number).not.mpr fun hfound =>
            hnew (List.mem_of_getElem? hfound)
          simpa [Ne.symm hnumber] using hnone
        · simp [Std.HashMap.getElem?_insert, hname]

/-- Line offsets are stored for a file that there is, and otherwise nothing is changed. -/
theorem run_setLineOffsets (h : named.Remembers history) (number : Nat)
    (offsets : LineOffsets) :
    (FileCall.setLineOffsets number offsets).run named =
      match history.file? number with
      | some file =>
          (⟨⟨named.files.setIfInBounds number { file with lineOffsets := some offsets }⟩,
            named.numbers⟩, .ok none)
      | none => (named, .error .fileMissing) := by
  rw [FileCall.run, NamedFiles.setLineOffsets, FileTable.setLineOffsets, FileTable.file, h.files]
  cases history.file? number <;> rfl

theorem setLineOffsets (h : named.Remembers history) (number : Nat) (offsets : LineOffsets) :
    ((FileCall.setLineOffsets number offsets).run named).1.Remembers
      (history ++ [.setLineOffsets number offsets]) := by
  rw [h.run_setLineOffsets]
  split
  · rename_i file hfile
    have hlength : number < named.files.size := by
      rw [h.size_eq, ← Nat.not_le, ← FileHistory.file?_eq_none_iff, hfile]
      exact Option.some_ne_none file
    constructor
    case files =>
      intro other
      rw [FileHistory.file?_setLineOffsets]
      simp only [Array.getElem?_setIfInBounds, hlength, if_true]
      split
      · rename_i hnumber
        rw [← hnumber, hfile, Option.map_some]
      · exact h.files other
    case numbers =>
      rw [FileHistory.names_setLineOffsets]
      exact h.numbers
  · rename_i hfile
    constructor
    case files =>
      intro other
      rw [FileHistory.file?_setLineOffsets]
      split
      · rename_i hnumber
        rw [← hnumber, hfile]
        exact (h.files number).trans hfile
      · exact h.files other
    case numbers =>
      rw [FileHistory.names_setLineOffsets]
      exact h.numbers

/-- Each call keeps the files in step with the history. -/
theorem run (h : named.Remembers history) (call : FileCall) :
    (call.run named).1.Remembers (history ++ [call]) := by
  cases call with
  | upsert name text => exact h.upsert name text
  | setLineOffsets number offsets => exact h.setLineOffsets number offsets

end Remembers

theorem remembers_runAll (calls : List FileCall) :
    (NamedFiles.empty.runAll calls).1.Remembers calls := by
  induction calls using List.reverseRecOn with
  | nil => exact remembers_empty
  | append_singleton calls call ih =>
      rw [runAll_append]
      exact ih.run call

/-- What is told of a file depends on nothing else in the table. -/
theorem alike_of_getElem?_eq {number : Nat} {first second : NamedFiles}
    (h : first.files[number]? = second.files[number]?) : Alike number first second := by
  have hfile : first.file number = second.file number := by
    rw [FileTable.file, FileTable.file, h]
  have htext : first.text number = second.text number := by
    rw [FileTable.text, FileTable.text, hfile]
  have hoffsets : first.lineOffsets number = second.lineOffsets number := by
    rw [FileTable.lineOffsets, FileTable.lineOffsets, hfile]
  have hindex : ∀ byte, first.lineIndex number byte = second.lineIndex number byte := by
    intro byte
    rw [FileTable.lineIndex, FileTable.lineIndex, hfile, hoffsets]
  have hrange : ∀ line, first.lineRange number line = second.lineRange number line := by
    intro line
    rw [FileTable.lineRange, FileTable.lineRange, hoffsets]
  have hcolumn : ∀ line byte,
      first.columnNumber number line byte = second.columnNumber number line byte := by
    intro line byte
    rw [FileTable.columnNumber, FileTable.columnNumber, htext, hrange]
  constructor
  case name => rw [FileTable.name, FileTable.name, hfile]
  case text => exact htext
  case lineIndex => exact hindex
  case lineRange => exact hrange
  case columnNumber => exact hcolumn
  case location =>
    intro byte
    rw [FileTable.location, FileTable.location, hindex]
    simp only [hcolumn]

namespace Remembers

theorem file_eq (h : named.Remembers history) (number : Nat) :
    named.file number = FileError.orMissing (history.file? number) := by
  rw [FileTable.file, h.files]
  cases history.file? number <;> rfl

theorem lineOffsets_eq (h : named.Remembers history) (number : Nat) :
    named.lineOffsets number = FileError.orMissing (history.lineOffsets? number) := by
  rw [FileTable.lineOffsets, h.file_eq, FileHistory.file?]
  cases hname : history.names[number]? with
  | none =>
      rw [FileHistory.lineOffsets?, hname]
      rfl
  | some name =>
      obtain ⟨text, htext⟩ := FileHistory.exists_text? (List.mem_of_getElem? hname)
      rw [Option.bind_eq_bind, Option.bind_some, htext]
      cases history.lineOffsets? number <;> rfl

theorem lineIndex_of_none (h : named.Remembers history) {number : Nat}
    (hnone : history.lineOffsets? number = none) (byte : Nat) :
    named.lineIndex number byte = .error .fileMissing := by
  rw [FileTable.lineIndex, h.lineOffsets_eq, hnone, h.file_eq]
  cases history.file? number <;> rfl

theorem lineIndex_of_some (h : named.Remembers history) {number : Nat} {offsets : LineOffsets}
    (hsome : history.lineOffsets? number = some offsets) (byte : Nat) :
    ∃ text, named.text number = .ok text ∧ named.lineIndex number byte =
      match offsets.lineOf byte with
      | .ok line => .ok line
      | .error _ => .error (FileError.indexTooLarge byte text.utf8ByteSize) := by
  cases hfile : history.file? number with
  | none =>
      have hlength := (FileHistory.file?_eq_none_iff _ _).mp hfile
      rw [FileHistory.lineOffsets?, List.getElem?_eq_none hlength] at hsome
      cases hsome
  | some file =>
      refine ⟨file.text, ?_, ?_⟩
      · rw [FileTable.text, h.file_eq, hfile]
        rfl
      · rw [FileTable.lineIndex, h.lineOffsets_eq, hsome, h.file_eq, hfile, ← byteLength_toList]
        change (match offsets.lineOf byte with
          | .ok line => pure line
          | .error _ =>
              Except.error (FileError.indexTooLarge byte (byteLength file.text.toList))) = _
        cases offsets.lineOf byte <;> rfl

theorem lineRange_of_none (h : named.Remembers history) {number : Nat}
    (hnone : history.lineOffsets? number = none) (line : Nat) :
    named.lineRange number line = .error .fileMissing := by
  rw [FileTable.lineRange, h.lineOffsets_eq, hnone]
  rfl

theorem lineRange_of_some (h : named.Remembers history) {number : Nat} {offsets : LineOffsets}
    (hsome : history.lineOffsets? number = some offsets) (line : Nat) :
    named.lineRange number line =
      match offsets.lineRange line with
      | .ok range => .ok range
      | .error _ => .error (FileError.lineTooLarge line offsets.lines) := by
  rw [FileTable.lineRange, h.lineOffsets_eq, hsome]
  change (match offsets.lineRange line with
    | .ok range => pure range
    | .error _ => Except.error (FileError.lineTooLarge line offsets.lines)) = _
  cases offsets.lineRange line <;> rfl

theorem name_eq (h : named.Remembers history) (number : Nat) :
    named.name number = FileError.orMissing history.names[number]? := by
  rw [FileTable.name, h.file_eq, FileHistory.file?]
  cases hname : history.names[number]? with
  | none => rfl
  | some name =>
      obtain ⟨text, htext⟩ := FileHistory.exists_text? (List.mem_of_getElem? hname)
      rw [Option.bind_eq_bind, Option.bind_some, htext]
      rfl

theorem text_eq (h : named.Remembers history) (number : Nat) :
    named.text number =
      FileError.orMissing (history.names[number]?.bind history.text?) := by
  rw [FileTable.text, h.file_eq, FileHistory.file?]
  cases hname : history.names[number]? with
  | none => rfl
  | some name =>
      obtain ⟨text, htext⟩ := FileHistory.exists_text? (List.mem_of_getElem? hname)
      rw [Option.bind_eq_bind, Option.bind_some, Option.bind_some, htext]
      rfl

/-- A call leaves the files alone that it is not about. -/
theorem alike_run (h : named.Remembers history) {call : FileCall} {number : Nat}
    (hother : history.subject call ≠ number) : Alike number (call.run named).1 named := by
  refine alike_of_getElem?_eq ?_
  rw [(h.run call).files, h.files]
  cases call with
  | upsert name text =>
      rw [FileHistory.subject] at hother
      rw [FileHistory.file?_upsert, if_neg (Ne.symm hother)]
  | setLineOffsets other offsets =>
      rw [FileHistory.subject] at hother
      rw [FileHistory.file?_setLineOffsets, if_neg hother]

theorem getElem?_names_of_file (h : named.Remembers history) {number : Nat}
    {file : SourceFile} (hfile : named.files[number]? = some file) :
    history.names[number]? = some file.name := by
  rw [h.files, FileHistory.file?] at hfile
  obtain ⟨name, hname, hrest⟩ := Option.bind_eq_some_iff.mp hfile
  obtain ⟨text, htext, hfile⟩ := Option.bind_eq_some_iff.mp hrest
  cases hfile
  exact hname

/-- The first file with a name is the only one. -/
theorem findIdx?_eq (h : named.Remembers history) (name : String) :
    named.files.findIdx? (·.name = name) = named.numbers[name]? := by
  refine Option.ext fun number => ?_
  rw [Array.findIdx?_eq_some_iff_getElem, h.numbers]
  constructor
  · rintro ⟨hlength, hname, -⟩
    have hfile := h.getElem?_names_of_file (Array.getElem?_eq_getElem hlength)
    rwa [of_decide_eq_true hname] at hfile
  · intro hname
    obtain ⟨hlength, -⟩ := List.getElem?_eq_some_iff.mp hname
    rw [← h.size_eq] at hlength
    have hnumber : ∀ (place : Nat) (hplace : place < named.files.size),
        named.files[place].name = name → place = number := by
      intro place hplace hsame
      have hfile := h.getElem?_names_of_file (Array.getElem?_eq_getElem hplace)
      rw [hsame] at hfile
      rw [← FileHistory.numberOf_eq_of_getElem?_names hfile]
      exact FileHistory.numberOf_eq_of_getElem?_names hname
    refine ⟨hlength, ?_, ?_⟩
    · have hfile := h.getElem?_names_of_file (Array.getElem?_eq_getElem hlength)
      rw [hname, Option.some_inj] at hfile
      exact decide_eq_true hfile.symm
    · intro place hplace hsame
      have := hnumber place (Nat.lt_trans hplace hlength) (of_decide_eq_true hsame)
      omega

theorem toFileTable_upsert (h : named.Remembers history) (name text : String) :
    named.toFileTable.upsert name text =
      ((named.upsert name text).1.toFileTable, (named.upsert name text).2) := by
  rw [FileTable.upsert, h.findIdx?_eq, NamedFiles.upsert]
  cases named.numbers[name]? with
  | some number => rfl
  | none => simp

end Remembers

theorem given_runAll (calls : List FileCall) {place : Nat} {name text : String}
    (h : calls[place]? = some (.upsert name text)) :
    ∃ number, (NamedFiles.empty.runAll calls).2[place]? = some (.ok (some number)) ∧
      (FileHistory.names calls)[number]? = some name := by
  induction calls using List.reverseRecOn with
  | nil => cases h
  | append_singleton calls call ih =>
      rw [runAll_append]
      rcases Nat.lt_or_ge place calls.length with hless | hlast
      · rw [List.getElem?_append_left hless] at h
        obtain ⟨number, hanswer, hname⟩ := ih h
        refine ⟨number, ?_, FileHistory.getElem?_names_append hname call⟩
        rw [List.getElem?_append_left (by rwa [length_runAll])]
        exact hanswer
      · -- the last call is answered by the number of its name
        have hplace : place = calls.length := by
          obtain ⟨hlength, -⟩ := List.getElem?_eq_some_iff.mp h
          rw [List.length_append, List.length_singleton] at hlength
          omega
        subst hplace
        rw [List.getElem?_concat_length, Option.some_inj] at h
        subst h
        refine ⟨FileHistory.numberOf calls name, ?_, ?_⟩
        · rw [← length_runAll NamedFiles.empty calls, List.getElem?_concat_length,
            ← (remembers_runAll calls).snd_upsert name text]
          rfl
        · rw [FileHistory.getElem?_names_upsert, if_pos rfl]

/-- However files are entered and given line offsets, what is told of them is told by the
history. -/
theorem files_recount_history (calls : List FileCall) :
    (NamedFiles.empty.runAll calls).1.Recounts calls (NamedFiles.empty.runAll calls).2 := by
  have h := remembers_runAll calls
  constructor
  case distinct => exact FileHistory.nodup_names calls
  case numbers => exact h.numbers
  case given =>
    intro place name text hcall
    exact given_runAll calls hcall
  case next =>
    exact h.snd_upsert
  case name => exact h.name_eq
  case text => exact h.text_eq
  case noLine =>
    intro number byte
    refine ⟨fun hmissing => ?_, fun hnone => h.lineIndex_of_none hnone byte⟩
    cases hoffsets : FileHistory.lineOffsets? calls number with
    | none => rfl
    | some offsets =>
        obtain ⟨text, -, hline⟩ := h.lineIndex_of_some hoffsets byte
        rw [hmissing] at hline
        cases hfound : offsets.lineOf byte <;> rw [hfound] at hline <;> cases hline
  case noRange =>
    intro number line
    refine ⟨fun hmissing => ?_, fun hnone => h.lineRange_of_none hnone line⟩
    cases hoffsets : FileHistory.lineOffsets? calls number with
    | none => rfl
    | some offsets =>
        have hrange := h.lineRange_of_some hoffsets line
        rw [hmissing] at hrange
        cases hfound : offsets.lineRange line <;> rw [hfound] at hrange <;> cases hrange
  case lineIndex =>
    intro number offsets byte line hoffsets
    obtain ⟨text, -, hline⟩ := h.lineIndex_of_some hoffsets byte
    rw [hline]
    cases offsets.lineOf byte <;> simp
  case indexTooLarge =>
    intro number offsets byte error hoffsets
    obtain ⟨text, htext, hline⟩ := h.lineIndex_of_some hoffsets byte
    rw [hline, LineOffsets.lineOf]
    by_cases hbyte : byte ≤ offsets.length
    · rw [if_pos hbyte]
      simp [Nat.not_lt.mpr hbyte]
    · rw [if_neg hbyte]
      simp [Nat.lt_of_not_le hbyte, htext, eq_comm]
  case lineRange =>
    intro number offsets line range hoffsets
    rw [h.lineRange_of_some hoffsets]
    cases offsets.lineRange line <;> simp
  case lineTooLarge =>
    intro number offsets line error hoffsets
    rw [h.lineRange_of_some hoffsets, ← LineOffsets.exists_error_lineRange_iff]
    cases offsets.lineRange line <;> simp [eq_comm]
  case others =>
    intro call number hother
    exact h.alike_run hother
  case stored =>
    intro number offsets hnumber
    rw [h.run_setLineOffsets]
    split
    · rfl
    · rename_i hnone
      have := (FileHistory.file?_eq_none_iff _ _).mp hnone
      omega
  case unknown =>
    intro number offsets hnumber
    rw [h.run_setLineOffsets, (FileHistory.file?_eq_none_iff _ _).mpr hnumber]
  case table => exact h.toFileTable_upsert

end NamedFiles

end JackLang
