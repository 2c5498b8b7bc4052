import JackLang.Proofs.Compilation.Jumps
import JackLang.Proofs.Compilation.Labels
import JackLang.Proofs.Compilation.StackHeights
import JackLang.Proofs.Compilation.Values

/-! # The code of a statement has its effects

Wherever the source execution of a statement ends, there the code of a function
gets as well: behind the statement with the stack it started with, or at a
`return` with the value on top.
-/

set_option autoImplicit false

namespace JackLang

/-- What a machine shows: its stack, the frame and the memory. -/
structure Machine.Shows (machine : Machine) (around : Surroundings) (stack : List Value)
    (frame : Frame) (memory : Memory) : Prop where
  stack : machine.stack = stack
  frame : machine.frame around = frame
  memory : machine.memory = memory

theorem Machine.Shows.popped {machine : Machine} {around : Surroundings} {value : Value}
    {stack : List Value} {frame : Frame} {memory : Memory}
    (h : machine.Shows around (value :: stack) frame memory) :
    Machine.Shows { machine with stack := stack } around stack frame memory :=
  ⟨rfl, h.frame, h.memory⟩

/-- From the code in front, the machine gets to where an ending shows: behind the
code that it lands at, or at a `return`. -/
def Ends (routines : Routines) (around : Surroundings) (code front landing : List Instruction)
    (machine : Machine) (stack : List Value) : Ending → Prop
  | .finished frame memory =>
      ∃ last, Reaches routines code (front.length, machine) (landing.length, last) ∧
        last.Shows around stack frame memory
  | .returned value frame memory =>
      ∃ position last, Reaches routines code (front.length, machine) (position, last) ∧
        code[position]? = some .return ∧ last.Shows around (value :: stack) frame memory

/-- Writing a variable of the subroutine changes the value of its name only. -/
theorem Machine.shows_of_write (machine : Machine) {around : Surroundings} {name type : String}
    {kind : VariableKind} {index : Nat}
    (hfound : variableOf? around.ofSubroutine name = some ⟨type, kind, index⟩)
    (hlevel : kind.isClassLevel = false) (value : Value) :
    ∃ next, machine.write? index value kind.segment = some next ∧
      next.Shows around machine.stack
        { machine.frame around with
          values := Function.update (machine.frame around).values name value }
        machine.memory := by
  have hother : ∀ {other : String} {found : Variable}, other ≠ name →
      variableOf? around.ofSubroutine other = some found → found.kind = kind →
      found.index ≠ index := by
    intro other found hne hfoundOther hkind hindex
    exact hne (variableOf?_inj hfoundOther hfound hkind hindex)
  cases kind with
  | static | field => cases hlevel
  | argument | «local» =>
      refine ⟨_, rfl, rfl, ?_, rfl⟩
      rw [frame, frame, Frame.mk.injEq]
      refine ⟨?_, rfl⟩
      funext other
      by_cases hname : other = name
      · subst hname
        simp [hfound, own]
      · rw [Function.update_of_ne hname]
        change own _ _ = machine.own (variableOf? around.ofSubroutine other)
        cases hfoundOther : variableOf? around.ofSubroutine other with
        | none => rfl
        | some found =>
            have hindex := hother hname hfoundOther
            obtain ⟨type, kind, place⟩ := found
            cases kind with
            | static | field => rfl
            | argument | «local» => simp_all [own]

section Code

variable {routines : Routines} {around : Surroundings}
variable {code front middle landing : List Instruction}
variable {machine next : Machine} {stack : List Value} {frame : Frame} {memory : Memory}
variable {ending : Ending}

/-- A way to the front of code that ends leads to where it ends. -/
theorem Ends.after (h : Ends routines around code middle landing next stack ending)
    (hway : Reaches routines code (front.length, machine) (middle.length, next)) :
    Ends routines around code front landing machine stack ending := by
  cases ending with
  | finished frame memory =>
      obtain ⟨last, hreaches, hshows⟩ := h
      exact ⟨last, hway.trans hreaches, hshows⟩
  | returned value frame memory =>
      obtain ⟨position, last, hreaches, hreturn, hshows⟩ := h
      exact ⟨position, last, hway.trans hreaches, hreturn, hshows⟩

/-- A way on that does not change the machine leads to where it lands. -/
theorem Ends.onward (h : Ends routines around code front middle machine stack ending)
    (hway : ∀ last, Reaches routines code (middle.length, last) (landing.length, last)) :
    Ends routines around code front landing machine stack ending := by
  cases ending with
  | finished frame memory =>
      obtain ⟨last, hreaches, hshows⟩ := h
      exact ⟨last, hreaches.trans (hway last), hshows⟩
  | returned value frame memory => exact h

/-- Code without jumps leads from a machine that shows what it starts with to one
that shows what it computes. -/
theorem Computes.reaches {part : List Instruction} {last : List Value} {left : Memory}
    (h : Computes routines machine part stack memory last left)
    (hshows : machine.Shows around stack frame memory) (hcode : front ++ part <+: code) :
    ∃ next, Reaches routines code (front.length, machine) ((front ++ part).length, next) ∧
      next.Shows around last frame left := by
  obtain ⟨rfl, rfl, rfl⟩ := hshows
  obtain ⟨array, temp, hrun⟩ := h machine.array machine.temp
  exact ⟨_, .of_run hcode hrun, rfl, rfl, rfl⟩

variable (haround : around.Levelled)

include haround

theorem Expression.reaches {expression : Expression} (h : expression.Permitted around)
    {value : Value} {left : Memory}
    (hvalue : expression.value routines around frame memory = (value, left))
    (hshows : machine.Shows around stack frame memory)
    (hcode : front ++ expression.code around <+: code) :
    ∃ next, Reaches routines code (front.length, machine)
        ((front ++ expression.code around).length, next) ∧
      next.Shows around (value :: stack) frame left := by
  have hcomputes : Computes routines machine _ _ _ _ _ :=
    expression.computes haround machine h stack memory
  rw [hshows.frame, hvalue] at hcomputes
  exact hcomputes.reaches hshows hcode

/-- Storing a name takes the value and keeps everything else as it is. -/
theorem reaches_store {name : String} (h : around.Declares name) {value : Value}
    {after : Frame} {left : Memory} (hstore : frame.store around name value memory = (after, left))
    (hshows : machine.Shows around (value :: stack) frame memory)
    (hcode : front ++ around.store name <+: code) :
    ∃ next, Reaches routines code (front.length, machine)
        ((front ++ around.store name).length, next) ∧
      next.Shows around stack after left := by
  obtain ⟨hstack, rfl, rfl⟩ := hshows
  suffices hrun : ∃ next, machine.run? routines (around.store name) = some next ∧
      next.Shows around stack after left by
    obtain ⟨next, hnext, hlast⟩ := hrun
    exact ⟨next, .of_run hcode hnext, hlast⟩
  obtain ⟨⟨type, kind, index⟩, hresolve, hplace⟩ := h.place haround
  have hpop : around.store name = [.pop kind.segment index] := by
    simp [Surroundings.store, Surroundings.withVariable, hresolve]
  rw [hpop, Machine.run?, Machine.execute?, hstack]
  rw [Frame.store] at hstore
  rcases hplace with ⟨hown, hfound, hlevel⟩ | ⟨hown, hfound, hlevel⟩
  · rw [if_pos hown] at hstore
    cases hstore
    obtain ⟨next, hwrite, hnext⟩ :=
      Machine.shows_of_write { machine with stack := stack } hfound hlevel value
    refine ⟨next, ?_, hnext⟩
    simp only [hwrite, Option.bind_some, Machine.run?]
  · rw [if_neg hown, hfound] at hstore
    cases kind with
    | static | field =>
        cases hstore
        exact ⟨_, rfl, rfl, rfl, rfl⟩
    | argument | «local» => cases hlevel

omit haround

/-- Once its condition is not zero, a conditional ends where its first branch does. -/
theorem Ends.first {number : Nat} {condition first second : List Instruction} {value : Value}
    (hlabels : (labelsOf code).Nodup)
    (hcode : front ++ conditionalCode number condition first second <+: code)
    (htest : Reaches routines code (front.length, machine) ((front ++ condition).length, next))
    (hstack : next.stack = value :: stack) (hvalue : value ≠ 0)
    (h : Ends routines around code (front ++ condition ++ testCode number)
      (front ++ condition ++ testCode number ++ first) { next with stack := stack } stack ending) :
    Ends routines around code front (front ++ conditionalCode number condition first second)
      machine stack ending :=
  (h.after (htest.trans (reaches_first hlabels hcode hstack hvalue))).onward
    fun _ => reaches_end_first hlabels hcode

theorem Ends.second {number : Nat} {condition first second : List Instruction}
    (hlabels : (labelsOf code).Nodup)
    (hcode : front ++ conditionalCode number condition first second <+: code)
    (htest : Reaches routines code (front.length, machine) ((front ++ condition).length, next))
    (hstack : next.stack = 0 :: stack)
    (h : Ends routines around code
      (front ++ condition ++ testCode number ++ first ++ elseCode number)
      (front ++ condition ++ testCode number ++ first ++ elseCode number ++ second)
      { next with stack := stack } stack ending) :
    Ends routines around code front (front ++ conditionalCode number condition first second)
      machine stack ending :=
  (h.after (htest.trans (reaches_second hlabels hcode hstack))).onward
    fun _ => reaches_end_second hcode

end Code

end JackLang
