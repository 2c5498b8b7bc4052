import JackLang.Proofs.Compilation.Turns
import JackLang.Proofs.Token.Cursors

/-! # Turns over a scanner by offsets

A pass goes the same way whether its scanner takes the lexemes out of the source by offsets
or reads the characters. So it is carried out with offsets that are words too.
-/

set_option autoImplicit false

namespace JackLang

/-- The pass with a scanner by offsets that stands where a pass does. -/
def Pass.bytes (pass : Pass Scanner) (start : Nat) : Pass ByteScanner :=
  ⟨pass.scanner.bytes start, pass.taken, pass.goals, pass.number, pass.context, pass.writers⟩

def Turn.bytes : Turn Scanner → Nat → Turn ByteScanner
  | .goesOn pass, start => .goesOn (pass.bytes start)
  | .ended pass error, start => .ended (pass.bytes start) error

namespace Pass

variable {source : String} {pass : Pass Scanner} {step : Option Step} {turn : Turn Scanner}
variable {start : Nat}

theorem write_bytes (pass : Pass Scanner) (start : Nat) (events : List Event)
    (failure : Option Failure) :
    (pass.bytes start).write events failure = (pass.write events failure).bytes start := by
  rcases hrecord : pass.writers.recordAll events with ⟨writers, refused⟩
  have hbytes : (pass.bytes start).writers.recordAll events = (writers, refused) := hrecord
  rw [write, write, hrecord, hbytes]
  cases refused with
  | none => cases failure <;> rfl
  | some kind => rfl

theorem scanner_write (pass : Pass Scanner) (events : List Event) (failure : Option Failure) :
    (pass.write events failure).pass.scanner = pass.scanner := by
  rw [write]
  rcases pass.writers.recordAll events with ⟨writers, _ | kind⟩
  · cases failure <;> rfl
  · rfl

/-- What is written behind a step is the same for both scanners. -/
theorem mirrored_write (h : pass.scanner.Mirrored source start) (events : List Event)
    (failure : Option Failure) :
    ∃ reached, Except.ok ((pass.bytes start).write events failure) =
        (Except.ok ((pass.write events failure).bytes reached) : Except Abort _) ∧
      (pass.write events failure).pass.scanner.Mirrored source reached := by
  rw [write_bytes, scanner_write]
  exact ⟨start, rfl, h⟩

theorem carryOut_bytes (h : pass.scanner.Mirrored source start)
    (hturn : pass.carryOut step = .ok turn) :
    ∃ reached, (pass.bytes start).carryOut step = .ok (turn.bytes reached) ∧
      turn.pass.scanner.Mirrored source reached := by
  rcases step with _ | rule | rule | token | action
  · cases hturn
    exact ⟨start, rfl, h⟩
  · cases hturn
    exact mirrored_write h [.opened rule] none
  · cases hturn
    exact mirrored_write h [.closed rule] none
  · cases hturn
    obtain ⟨middle, hadvance, hnext⟩ := h.advance
    let next : Pass Scanner := { pass with
      scanner := pass.scanner.advance.2
      taken := pass.taken ++ [pass.scanner.lookAhead] }
    have hmirrored : next.scanner.Mirrored source middle := hnext
    rw [carryOut]
    change ∃ reached, ((pass.scanner.bytes start).advance >>= _) = _ ∧ _
    rw [hadvance]
    exact mirrored_write hmirrored [.leaf pass.scanner.lookAhead] none
  · obtain ⟨effect, heffect, hwritten⟩ := Except.of_bind_eq_ok hturn
    cases hwritten
    let next : Pass Scanner := { pass with context := effect.context }
    have hmirrored : next.scanner.Mirrored source start := h
    rw [carryOut]
    change ∃ reached, (pass.context.performInWords action >>= _) = _ ∧ _
    rw [heffect]
    exact mirrored_write hmirrored effect.events (effect.error.map .static)

theorem turn_bytes (h : pass.scanner.Mirrored source start) (hturn : pass.turn = .ok turn) :
    ∃ reached, (pass.bytes start).turn = .ok (turn.bytes reached) ∧
      turn.pass.scanner.Mirrored source reached := by
  cases hgoals : pass.goals with
  | nil =>
      have hbytes : (pass.bytes start).goals = [] := hgoals
      rw [Pass.turn, hgoals] at hturn
      cases hturn
      refine ⟨start, ?_, h⟩
      rw [Pass.turn, hbytes]
      rfl
  | cons goal goals =>
      have hbytes : (pass.bytes start).goals = goal :: goals := hgoals
      cases hvalid : pass.scanner.lookAhead.kind.isInvalid with
      | true =>
          obtain ⟨error, hkind⟩ := TokenKind.eq_invalid_of_isInvalid hvalid
          rw [turn_of_invalid hgoals hkind] at hturn
          cases hturn
          exact ⟨start, turn_of_invalid hbytes hkind, h⟩
      | false =>
          have hbytesTurn := turn_of_valid hbytes hvalid
          rw [turn_of_valid hgoals hvalid] at hturn
          cases hmove : goal.move (TokenSource.lookAhead pass.scanner) pass.number with
          | error expected =>
              -- both scanners hold the same look-ahead, so the goal moves alike
              have hsame : goal.move (TokenSource.lookAhead (pass.bytes start).scanner)
                (pass.bytes start).number = .error expected := hmove
              rw [hmove] at hturn
              rw [hsame] at hbytesTurn
              cases hturn
              exact ⟨start, hbytesTurn, h⟩
          | ok move =>
              have hsame : goal.move (TokenSource.lookAhead (pass.bytes start).scanner)
                (pass.bytes start).number = .ok move := hmove
              rw [hmove] at hturn
              rw [hsame] at hbytesTurn
              let moved : Pass Scanner :=
                { pass with goals := move.goals ++ goals, number := move.number }
              have hmoved : moved.scanner.Mirrored source start := h
              obtain ⟨reached, hcarried, hbehind⟩ := carryOut_bytes hmoved hturn
              exact ⟨reached, hbytesTurn.trans hcarried, hbehind⟩

/-- Any number of turns comes to the same over both scanners. -/
theorem run_bytes (h : pass.scanner.Mirrored source start) {turns : Nat}
    (hrun : pass.run turns = .ok turn) :
    ∃ reached, (pass.bytes start).run turns = .ok (turn.bytes reached) ∧
      turn.pass.scanner.Mirrored source reached := by
  induction turns generalizing pass start with
  | zero =>
      cases hrun
      exact ⟨start, rfl, h⟩
  | succ turns ih =>
      obtain ⟨first, hfirst, hrest⟩ := Except.of_bind_eq_ok hrun
      obtain ⟨middle, hbytes, hbehind⟩ := turn_bytes h hfirst
      rw [run, hbytes]
      cases first with
      | goesOn next => exact ih hbehind hrest
      | ended last error =>
          cases hrest
          exact ⟨middle, rfl, hbehind⟩

end Pass

end JackLang
