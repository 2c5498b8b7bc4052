/-! # Outlets

Text leaves the program through an outlet: pieces gather in a buffer, which is
passed on to a sink when the next piece does not fit and when the outlet is
closed. A sink may take only a number of bytes in all; a write that it refuses
leaves the buffer as it is, so from then on closing fails too.
-/

set_option autoImplicit false

namespace JackLang

def bufferSize : Nat := 8192

/-- A sink with what it has taken, and the bytes it still takes, if they are
limited. -/
structure Sink where
  taken : String
  room : Option Nat
deriving DecidableEq, Repr

namespace Sink

def unlimited : Sink := ⟨"", none⟩

def broken : Sink := ⟨"", some 0⟩

/-- The words in which a sink refuses a write. -/
def refusal : String := "broken"

/-- Passes text to a sink, or gives `none` if the sink refuses it. Nothing can
be refused of an empty text. -/
def write? (sink : Sink) (text : String) : Option Sink :=
  match sink.room with
  | none => some ⟨sink.taken ++ text, none⟩
  | some room =>
      if text.utf8ByteSize ≤ room then
        some ⟨sink.taken ++ text, some (room - text.utf8ByteSize)⟩
      else none

end Sink

structure Outlet where
  sink : Sink
  buffer : String
deriving DecidableEq, Repr

namespace Outlet

def toSink (sink : Sink) : Outlet := ⟨sink, ""⟩

/-- Passes the buffer on. The flag tells whether the sink took it. -/
def flush (outlet : Outlet) : Outlet × Bool :=
  match outlet.sink.write? outlet.buffer with
  | some sink => (⟨sink, ""⟩, true)
  | none => (outlet, false)

/-- Puts a piece behind the buffer, or past it if it is too large. -/
def append (outlet : Outlet) (piece : String) : Outlet × Bool :=
  if piece.utf8ByteSize < bufferSize then (⟨outlet.sink, outlet.buffer ++ piece⟩, true)
  else
    match outlet.sink.write? piece with
    | some sink => (⟨sink, outlet.buffer⟩, true)
    | none => (outlet, false)

/-- Writes a piece, and makes room for it first if it does not fit. -/
def write (outlet : Outlet) (piece : String) : Outlet × Bool :=
  if outlet.buffer.utf8ByteSize + piece.utf8ByteSize ≤ bufferSize then outlet.append piece
  else
    match outlet.flush with
    | (flushed, true) => flushed.append piece
    | (flushed, false) => (flushed, false)

def writeAll (outlet : Outlet) : List String → Outlet × Bool
  | [] => (outlet, true)
  | piece :: rest =>
      match outlet.write piece with
      | (next, true) => next.writeAll rest
      | (next, false) => (next, false)

def taken (outlet : Outlet) : String :=
  outlet.sink.taken

end Outlet

end JackLang
