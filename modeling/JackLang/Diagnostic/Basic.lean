import JackLang.Text.Bytes

/-! # Diagnostics

A diagnostic tells why a run failed. It points at a place of the source
unless the failure lies outside of it, and it may add what was found there.
-/

set_option autoImplicit false

namespace JackLang

/-- The place of an error, with what was found there or an empty note. -/
structure Label where
  span : Span
  note : String
deriving DecidableEq, Repr

structure Diagnostic where
  message : String
  label : Option Label
deriving DecidableEq, Repr

end JackLang
