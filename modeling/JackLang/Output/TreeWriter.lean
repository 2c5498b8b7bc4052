import JackLang.Output.Element
import JackLang.Output.Outlet

/-! # Parse trees

A parse tree is written as it grows: nodes open and close, and tokens are its
leaves. Every line is indented by two blanks for each node it lies in. The end
of the file and text that is no token are no leaves.
-/

set_option autoImplicit false

namespace JackLang

structure TreeWriter where
  outlet : Outlet
  depth : Nat
deriving DecidableEq, Repr

namespace TreeWriter

def toSink (sink : Sink) : TreeWriter := ⟨.toSink sink, 0⟩

def indent (depth : Nat) : List String :=
  List.replicate (2 * depth) " "

def writeLine (outlet : Outlet) (depth : Nat) (pieces : List String) : Outlet × Bool :=
  outlet.writeAll (indent depth ++ pieces)

/-- Opens a node. The lines behind it are one level deeper, if it was written. -/
def opening : TreeWriter → Rule → TreeWriter × Bool
  | ⟨outlet, depth⟩, rule =>
      match writeLine outlet depth rule.openingPieces with
      | (outlet, true) => (⟨outlet, depth + 1⟩, true)
      | (outlet, false) => (⟨outlet, depth⟩, false)

/-- Closes a node. The depth does not go below that of the root. -/
def closing : TreeWriter → Rule → TreeWriter × Bool
  | ⟨outlet, depth⟩, rule =>
      let (outlet, written) := writeLine outlet (depth - 1) rule.closingPieces
      (⟨outlet, depth - 1⟩, written)

def leaf : TreeWriter → Token → TreeWriter × Bool
  | ⟨outlet, depth⟩, token =>
      if token.kind.tokenClass = .auxiliary then (⟨outlet, depth⟩, true)
      else
        let (outlet, written) := writeLine outlet depth token.linePieces
        (⟨outlet, depth⟩, written)

/-- Closes the writer, and tells whether all of the tree has reached its sink. -/
def close : TreeWriter → TreeWriter × Bool
  | ⟨outlet, depth⟩ =>
      let (outlet, closed) := outlet.flush
      (⟨outlet, depth⟩, closed)

end TreeWriter

end JackLang
