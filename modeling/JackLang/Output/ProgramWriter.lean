import JackLang.Output.Outlet
import JackLang.Vm.Instruction

/-! # Programs

A program is written one instruction to a line. The writer counts the
instructions that it has written as a whole.
-/

set_option autoImplicit false

namespace JackLang

structure ProgramWriter where
  outlet : Outlet
  written : Nat
deriving DecidableEq, Repr

namespace ProgramWriter

def toSink (sink : Sink) : ProgramWriter := ⟨.toSink sink, 0⟩

/-- Writes an instruction. The flag tells whether all of it was written. -/
def write : ProgramWriter → Instruction → ProgramWriter × Bool
  | ⟨outlet, count⟩, instruction =>
      match outlet.writeAll instruction.linePieces with
      | (outlet, true) => (⟨outlet, count + 1⟩, true)
      | (outlet, false) => (⟨outlet, count⟩, false)

/-- Passes on to the sink what has gathered so far. -/
def flush : ProgramWriter → ProgramWriter × Bool
  | ⟨outlet, count⟩ =>
      let (outlet, flushed) := outlet.flush
      (⟨outlet, count⟩, flushed)

end ProgramWriter

end JackLang
