import JackLang.Source.FileTable
import Std.Data.HashMap

/-! # Files by their names

Beside a table of files there is an index of their names. The number of a name is looked up
in the index; a name that is not in it is entered in both with the next number.
-/

set_option autoImplicit false

namespace JackLang

/-- A table of files with an index from the names to the numbers. -/
structure NamedFiles extends FileTable where
  numbers : Std.HashMap String Nat

namespace NamedFiles

def empty : NamedFiles := ⟨.empty, ∅⟩

def upsert (named : NamedFiles) (name text : String) : NamedFiles × Nat :=
  let file : SourceFile := ⟨name, text, none⟩
  match named.numbers[name]? with
  | some number => (⟨⟨named.files.setIfInBounds number file⟩, named.numbers⟩, number)
  | none =>
      let files := named.files.push file
      let number := files.size - 1
      (⟨⟨files⟩, named.numbers.insert name number⟩, number)

def setLineOffsets (named : NamedFiles) (number : Nat) (offsets : LineOffsets) :
    Except FileError NamedFiles := do
  let table ← named.toFileTable.setLineOffsets number offsets
  return ⟨table, named.numbers⟩

end NamedFiles

end JackLang
