import JackLang.Proofs.Compilation.Effects

/-! # Programs do what their sources say

Every execution of a statement that comes to an end is followed by the code of
its function, step by step over the conditionals and loops inside.
-/

set_option autoImplicit false

namespace JackLang

section Statements

variable {routines : Routines} {around : Surroundings}

theorem computes_add (base : Machine) (first last : Value) (stack : List Value)
    (memory : Memory) :
    Computes routines base [.operate .add] (last :: first :: stack) memory
      ((first + last) :: stack) memory :=
  fun other temp => ⟨other, temp, rfl⟩

/-- A value is put aside while pointer 1 takes the address below it. -/
theorem computes_put (base : Machine) (address value : Value) (stack : List Value)
    (memory : Memory) :
    Computes routines base
      [.pop .temp 0, .pop .pointer 1, .push .temp 0, .pop .that 0]
      (value :: address :: stack) memory stack (memory.put address value) := by
  intro other temp
  refine ⟨address, Function.update temp 0 value, ?_⟩
  simp [Machine.run?, Machine.execute?, Machine.write?, Machine.read?]

/-- The address and the value are complete before anything is written, so elements
and calls in them do no harm. -/
theorem computes_assignElement (haround : around.Levelled) (base : Machine) {array : String}
    {index value : Expression}
    (h : (Statement.assignElement array index value).Permitted around) (number : Nat)
    (stack : List Value) (memory : Memory) :
    let place := index.value routines around (base.frame around) memory
    let result := value.value routines around (base.frame around) place.2
    Computes routines base ((Statement.assignElement array index value).code around number)
      stack memory stack
      (result.2.put ((base.frame around).load around array memory + place.1) result.1) :=
  ((((computes_load haround h.1).append (index.computes haround base h.2.1 _ _)).append
    (computes_add base _ _ stack _)).append (value.computes haround base h.2.2 _ _)).append
      (computes_put base _ _ stack _)

theorem computes_callStatement (haround : around.Levelled) (base : Machine) {call : Call}
    (h : (Statement.call call).Permitted around) (number : Nat) (stack : List Value)
    (memory : Memory) :
    Computes routines base ((Statement.call call).code around number) stack memory stack
      (call.value routines around (base.frame around) memory).2 := by
  have hdrop : ∀ (value : Value) (left : Memory),
      Computes routines base [.pop .temp 0] (value :: stack) left stack left :=
    fun value left other temp => ⟨other, Function.update temp 0 value, rfl⟩
  cases call with
  | own name arguments =>
      exact ((Term.ownCall name arguments).computes haround base h stack memory).append
        (hdrop _ _)
  | member receiver name arguments =>
      exact ((Term.memberCall receiver name arguments).computes haround base h stack
        memory).append (hdrop _ _)

end Statements

section Execution

variable {routines : Routines} {around : Surroundings} {code : List Instruction}
variable {stack : List Value}

/-- The condition of a loop is evaluated behind the label at its start. -/
theorem reaches_loopCondition {front body : List Instruction} {number : Nat}
    {condition : Expression} {frame : Frame} {memory left : Memory} {value : Value}
    {machine : Machine} (haround : around.Levelled) (h : condition.Permitted around)
    (hvalue : condition.value routines around frame memory = (value, left))
    (hshows : machine.Shows around stack frame memory)
    (hcode : front ++ loopCode number (condition.code around) body <+: code) :
    ∃ next, Reaches routines code (front.length, machine)
        ((front ++ startCode number ++ condition.code around).length, next) ∧
      next.Shows around (value :: stack) frame left := by
  obtain ⟨next, hreaches, hnext⟩ :=
    Expression.reaches haround h hvalue hshows (prefix_loopCondition hcode)
  exact ⟨next, (Reaches.of_label (prefix_startLabel hcode)).trans hreaches, hnext⟩

mutual

theorem Statement.Executes.ends {statement : Statement} {frame : Frame} {memory : Memory}
    {ending : Ending} {front : List Instruction} {number : Nat} {machine : Machine}
    (h : statement.Executes routines around frame memory ending) (haround : around.Levelled)
    (hlabels : (labelsOf code).Nodup) (hpermitted : statement.Permitted around)
    (hshows : machine.Shows around stack frame memory)
    (hcode : front ++ statement.code around number <+: code) :
    Ends routines around code front (front ++ statement.code around number) machine stack
      ending := by
  match h with
  | .assign hvalue hstore =>
      rw [Statement.code, ← List.append_assoc] at hcode ⊢
      obtain ⟨next, hreaches, hnext⟩ := Expression.reaches haround hpermitted.2 hvalue hshows
        ((List.prefix_append _ _).trans hcode)
      obtain ⟨last, hlast, hafter⟩ := reaches_store haround hpermitted.1 hstore hnext hcode
      exact ⟨last, hreaches.trans hlast, hafter⟩
  | .assignElement hindex hvalue =>
      have hcomputes : Computes routines machine _ _ _ _ _ :=
        computes_assignElement haround machine hpermitted number stack memory
      rw [hshows.frame, hindex, hvalue] at hcomputes
      exact hcomputes.reaches hshows hcode
  | .taken hcondition htest hbody =>
      obtain ⟨next, hreaches, hnext⟩ :=
        Expression.reaches haround hpermitted.1 hcondition hshows (prefix_condition hcode)
      refine Ends.first hlabels hcode hreaches hnext.stack htest ?_
      exact hbody.ends haround hlabels hpermitted.2 hnext.popped
        (prefix_first hcode)
  | .skipped hcondition =>
      obtain ⟨next, hreaches, hnext⟩ :=
        Expression.reaches haround hpermitted.1 hcondition hshows (prefix_condition hcode)
      refine Ends.second hlabels hcode hreaches hnext.stack ?_
      rw [List.append_nil]
      exact ⟨_, .refl _, hnext.popped⟩
  | .first hcondition htest hbody =>
      obtain ⟨next, hreaches, hnext⟩ :=
        Expression.reaches haround hpermitted.1 hcondition hshows (prefix_condition hcode)
      refine Ends.first hlabels hcode hreaches hnext.stack htest ?_
      exact hbody.ends haround hlabels hpermitted.2.1 hnext.popped
        (prefix_first hcode)
  | .second hcondition hbody =>
      obtain ⟨next, hreaches, hnext⟩ :=
        Expression.reaches haround hpermitted.1 hcondition hshows (prefix_condition hcode)
      refine Ends.second hlabels hcode hreaches hnext.stack ?_
      exact hbody.ends haround hlabels hpermitted.2.2 hnext.popped
        (prefix_second hcode)
  | .again hcondition hbody hloop =>
      obtain ⟨next, hreaches, hnext⟩ :=
        reaches_loopCondition haround hpermitted.1 hcondition hshows hcode
      obtain ⟨last, hlast, hagain⟩ := hbody.ends haround hlabels hpermitted.2 hnext.popped
        (prefix_body hcode)
      have hround := (hreaches.trans (reaches_body hcode hnext.stack)).trans
        (hlast.trans (reaches_start hlabels hcode))
      exact (hloop.ends haround hlabels hpermitted hagain hcode).after hround
  | .broken hcondition hbody =>
      obtain ⟨next, hreaches, hnext⟩ :=
        reaches_loopCondition haround hpermitted.1 hcondition hshows hcode
      exact (hbody.ends haround hlabels hpermitted.2 hnext.popped (prefix_body hcode)).after
        (hreaches.trans (reaches_body hcode hnext.stack))
  | .done hcondition htest =>
      obtain ⟨next, hreaches, hnext⟩ :=
        reaches_loopCondition haround hpermitted.1 hcondition hshows hcode
      exact ⟨_, hreaches.trans (reaches_exit hlabels hcode hnext.stack htest), hnext.popped⟩
  | .call hcall =>
      have hcomputes : Computes routines machine _ _ _ _ _ :=
        computes_callStatement haround machine hpermitted number stack memory
      rw [hshows.frame, hcall] at hcomputes
      exact hcomputes.reaches hshows hcode
  | .returnNothing frame memory =>
      have hpush : Computes routines machine [.push .constant 0] stack memory (0 :: stack)
          memory := fun other temp => ⟨other, temp, rfl⟩
      have hreturn : front ++ [.push .constant 0] ++ [.return] <+: code := by
        rw [List.append_assoc]
        exact hcode
      obtain ⟨next, hreaches, hnext⟩ := hpush.reaches hshows
        ((List.prefix_append _ _).trans hreturn)
      exact ⟨_, next, hreaches, getElem?_of_prefix hreturn, hnext⟩
  | .returnValue hvalue =>
      rw [Statement.code, ← List.append_assoc] at hcode ⊢
      obtain ⟨next, hreaches, hnext⟩ := Expression.reaches haround hpermitted hvalue hshows
        ((List.prefix_append _ _).trans hcode)
      exact ⟨_, next, hreaches, getElem?_of_prefix hcode, hnext⟩

theorem Statements.Executes.ends {statements : Statements} {frame : Frame} {memory : Memory}
    {ending : Ending} {front : List Instruction} {number : Nat} {machine : Machine}
    (h : statements.Executes routines around frame memory ending) (haround : around.Levelled)
    (hlabels : (labelsOf code).Nodup) (hpermitted : statements.Permitted around)
    (hshows : machine.Shows around stack frame memory)
    (hcode : front ++ statements.code around number <+: code) :
    Ends routines around code front (front ++ statements.code around number) machine stack
      ending := by
  match h with
  | .nil frame memory =>
      rw [Statements.code, List.append_nil]
      exact ⟨machine, .refl _, hshows⟩
  | .next hfirst hrest =>
      rw [Statements.code, ← List.append_assoc] at hcode ⊢
      obtain ⟨last, hreaches, hlast⟩ := hfirst.ends haround hlabels hpermitted.1 hshows
        ((List.prefix_append _ _).trans hcode)
      exact (hrest.ends haround hlabels hpermitted.2 hlast hcode).after hreaches
  | .stop hfirst =>
      rw [Statements.code, ← List.append_assoc] at hcode ⊢
      exact hfirst.ends haround hlabels hpermitted.1 hshows
        ((List.prefix_append _ _).trans hcode)

end

end Execution

/-- The code of a subroutine does what the source says. An expression pushes its
value and leaves the memory of its evaluation, whatever code it stands in, and keeps
the frame. A statement whose execution ends gets to where it ends. -/
structure ClassUnit.FollowsSource (unit : ClassUnit) (routines : Routines)
    (numbered : Subroutine × Nat) : Prop where
  expression : ∀ expression ∈ numbered.1.body.parts,
    ∀ (front back : List Instruction) (machine : Machine),
      let around := unit.around numbered.1
      let result := expression.value routines around (machine.frame around) machine.memory
      ∃ next, Reaches routines (front ++ expression.code around ++ back) (front.length, machine)
          ((front ++ expression.code around).length, next) ∧
        next.stack = result.1 :: machine.stack ∧ next.memory = result.2 ∧
        next.locals = machine.locals ∧ next.arguments = machine.arguments ∧
        next.object = machine.object
  statement : ∀ {statement : Statement} {number : Nat} {front back : List Instruction},
    Occurs (unit.around numbered.1) statement number front back numbered.2 numbered.1.body →
      ∀ (machine : Machine) (ending : Ending),
        let around := unit.around numbered.1
        let before := numbered.1.opening unit.name unit.declared ++ front
        statement.Executes routines around (machine.frame around) machine.memory ending →
          Ends routines around (unit.section numbered) before
            (before ++ statement.code around number) machine machine.stack ending

theorem ClassUnit.followsSource {unit : ClassUnit} (h : unit.Permitted) (routines : Routines)
    {numbered : Subroutine × Nat} (hmem : numbered ∈ unit.numbered) :
    unit.FollowsSource routines numbered := by
  have hbody : numbered.1.body.Permitted (unit.around numbered.1) :=
    (h.subroutines _ (fst_mem_of_mem_numberedFrom hmem)).body
  have haround := unit.levelled numbered.1
  constructor
  · intro expression hpart front back machine around result
    have hcomputes : Computes routines machine _ _ _ _ _ := expression.computes haround machine
      (numbered.1.body.permitted_parts hbody expression hpart) machine.stack machine.memory
    obtain ⟨array, temp, hrun⟩ := hcomputes machine.array machine.temp
    exact ⟨_, .of_run (List.prefix_append _ back) hrun, rfl, rfl, rfl, rfl, rfl⟩
  · intro statement number front back hoccurs machine ending around before hexecutes
    refine hexecutes.ends haround (unit.labelsOf_section_nodup numbered)
      (hoccurs.permitted hbody) ⟨rfl, rfl, rfl⟩ ?_
    rw [unit.section_eq, hoccurs.code_eq]
    simp [before, around]

section Compile

variable (routines : Routines) (source taken : String) (tree : Option String)

/-- What is written for a source that compiles computes what the source says,
whatever the subroutines do that are called. -/
theorem compile_program_computes
    (h : (compile source (.working taken) (tree.map .working)).error = none) :
    (∃ unit : ClassUnit, unit.Derives source) ∧
      ∀ unit : ClassUnit, unit.Derives source →
        (compile source (.working taken) (tree.map .working)).writers.program.outlet.taken =
          taken ++ listing unit.code ∧
        sections unit.code = unit.numbered.map unit.section ∧
        ∀ numbered ∈ unit.numbered, unit.FollowsSource routines numbered := by
  refine ⟨exists_derives_of_failure_eq_none (failure_of_compiles source taken tree h), ?_⟩
  intro unit hderives
  obtain ⟨hpermitted, htaken⟩ := taken_of_compiles source taken tree h hderives
  refine ⟨htaken, unit.sections_code, ?_⟩
  intro numbered hmem
  exact ClassUnit.followsSource hpermitted routines hmem

end Compile

/-- Subroutines that give back their first argument and change nothing. -/
def idleRoutines : Routines where
  result _ arguments memory := (arguments.headD 0, memory)
  temp _ _ _ temp := temp

theorem compile_program_computes_of_loop :
    (compile loopSource (.working "") none).error = none ∧
      (∃ unit : ClassUnit, unit.Derives loopSource) ∧
      ∀ unit : ClassUnit, unit.Derives loopSource →
        (compile loopSource (.working "") none).writers.program.outlet.taken =
          "" ++ listing unit.code ∧
        sections unit.code = unit.numbered.map unit.section ∧
        ∀ numbered ∈ unit.numbered, unit.FollowsSource idleRoutines numbered :=
  ⟨loopSource_compiles,
    compile_program_computes idleRoutines loopSource "" none loopSource_compiles⟩

end JackLang
