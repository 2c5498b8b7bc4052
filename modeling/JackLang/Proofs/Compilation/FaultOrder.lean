import JackLang.Proofs.Compilation.Units

/-! # Faults in the order of their tokens

The faults of a phrase lie among its tokens and come in their order. Where several
faults meet at one token, an argument too many comes first, a name declared twice
comes before a name too many, and a string too long before a character without a code.
-/

set_option autoImplicit false

namespace JackLang

/-- What decides between faults at one token. -/
def Fault.rank : Fault → Nat
  | .tooManyArguments => 0
  | .undeclared => 1
  | .redeclared => 1
  | .integerOutOfRange => 1
  | .stringTooLong => 1
  | .tooManyVariables _ => 2
  | .noCharacterCode _ => 2

/-- The first one of two faults is the one to report. -/
def Precedes (first second : Nat × Fault) : Prop :=
  first.1 < second.1 ∨ first.1 = second.1 ∧ first.2.rank ≤ second.2.rank

/-- Faults of the tokens from one number to another, in their order. -/
structure InOrder (faults : List (Nat × Fault)) (start stop : Nat) : Prop where
  le : start ≤ stop
  sorted : faults.Pairwise Precedes
  bounds : ∀ found ∈ faults, start ≤ found.1 ∧ found.1 < stop

namespace InOrder

variable {faults others : List (Nat × Fault)} {start middle next stop : Nat}

theorem nil (h : start ≤ stop) : InOrder [] start stop :=
  ⟨h, .nil, by simp⟩

theorem single (number : Nat) (fault : Fault) :
    InOrder [(number, fault)] number (number + 1) :=
  ⟨Nat.le_succ number, List.pairwise_singleton _ _, by simp⟩

theorem mono (h : InOrder faults middle next) (hstart : start ≤ middle) (hstop : next ≤ stop) :
    InOrder faults start stop := by
  refine ⟨Nat.le_trans hstart (Nat.le_trans h.le hstop), h.sorted, ?_⟩
  intro found hmem
  have hbounds := h.bounds found hmem
  exact ⟨Nat.le_trans hstart hbounds.1, Nat.lt_of_lt_of_le hbounds.2 hstop⟩

theorem append (h : InOrder faults start middle) (hothers : InOrder others next stop)
    (hle : middle ≤ next) : InOrder (faults ++ others) start stop := by
  have hstart := h.le
  have hstop := hothers.le
  refine ⟨by omega, ?_, ?_⟩
  · refine List.pairwise_append.mpr ⟨h.sorted, hothers.sorted, ?_⟩
    intro first hfirst second hsecond
    have hless := (h.bounds first hfirst).2
    have hmore := (hothers.bounds second hsecond).1
    exact .inl (by omega)
  · intro found hmem
    rcases List.mem_append.mp hmem with hmem | hmem
    · have hbounds := h.bounds found hmem
      omega
    · have hbounds := hothers.bounds found hmem
      omega

/-- A fault at the token that others start at comes in front of them if none of them
outranks it. -/
theorem cons (h : InOrder faults start stop) {fault : Fault} (hless : start < stop)
    (hrank : ∀ found ∈ faults, fault.rank ≤ found.2.rank) :
    InOrder ((start, fault) :: faults) start stop := by
  refine ⟨h.le, List.pairwise_cons.mpr ⟨?_, h.sorted⟩, ?_⟩
  · intro found hmem
    rcases Nat.lt_or_eq_of_le (h.bounds found hmem).1 with hlater | hsame
    · exact .inl hlater
    · exact .inr ⟨hsame, hrank found hmem⟩
  · rintro found (_ | ⟨_, hmem⟩)
    · exact ⟨Nat.le_refl start, hless⟩
    · exact h.bounds found hmem

theorem argument (h : InOrder faults start stop) (hless : start < stop) (others : Nat) :
    InOrder (argumentFaults start others ++ faults) start stop := by
  rw [argumentFaults]
  split
  · exact h.cons hless fun _ _ => Nat.zero_le _
  · exact h

theorem of_visitAll {α : Type} {words : α → List Word}
    {visit : Nat → α → List (Nat × Fault)}
    (h : ∀ start one, InOrder (visit start one) start (start + (words one).length))
    (start : Nat) (things : List α) :
    InOrder (visitAll (fun one => (words one).length) visit start things) start
      (start + (things.flatMap words).length) := by
  induction things generalizing start with
  | nil => exact nil (Nat.le_refl _)
  | cons first rest ih =>
      have hrest := ih (start + (words first).length)
      rw [List.flatMap_cons, List.length_append, ← Nat.add_assoc]
      exact (h start first).append hrest (Nat.le_refl _)

end InOrder

section Code

variable (around : Surroundings)

theorem Surroundings.inOrder_name (number : Nat) (name : String) :
    InOrder (around.nameFaults number name) number (number + 1) := by
  rw [nameFaults]
  split
  · exact .nil (Nat.le_succ number)
  · exact .single number .undeclared

theorem inOrder_string (number : Nat) (content : String) :
    InOrder (stringFaults number content) number (number + 1) := by
  have hcharacter : InOrder ((content.toList.find? fun c => maxConstant < c.toNat).toList.map
      fun c => (number, .noCharacterCode c)) number (number + 1) := by
    cases content.toList.find? fun c => maxConstant < c.toNat with
    | none => exact .nil (Nat.le_succ number)
    | some c => exact .single number (.noCharacterCode c)
  rw [stringFaults]
  split
  · refine hcharacter.cons (Nat.lt_succ_self number) ?_
    intro found hmem
    obtain ⟨c, _, rfl⟩ := List.mem_map.mp hmem
    exact Nat.le_succ 1
  · exact hcharacter

theorem Expression.length_words_pos (expression : Expression) :
    0 < expression.words.length := by
  obtain ⟨rest, hwords⟩ := expression.words_eq_cons
  rw [hwords]
  exact Nat.succ_pos _

mutual

theorem Expression.inOrder (expression : Expression) (start : Nat) :
    InOrder (expression.faults around start) start (start + expression.words.length) := by
  match expression with
  | .single term => simpa [Expression.faults] using term.inOrder start
  | .operate first operator last =>
      have hlast := last.inOrder (start + first.words.length + 1)
      refine ((first.inOrder start).append hlast (by omega)).mono (Nat.le_refl start) ?_
      simp
      omega

theorem Term.inOrder (term : Term) (start : Nat) :
    InOrder (term.faults around start) start (start + term.words.length) := by
  match term with
  | .integer _ | .trueConstant | .falseConstant | .nullConstant | .thisConstant =>
      exact .nil (Nat.le_add_right _ _)
  | .string content => simpa [Term.faults] using inOrder_string start content
  | .parenthesized inner =>
      refine (inner.inOrder (start + 1)).mono (Nat.le_succ start) ?_
      simp
      omega
  | .unary operator operand =>
      refine (operand.inOrder (start + 1)).mono (Nat.le_succ start) ?_
      simp
      omega
  | .name name => simpa [Term.faults] using around.inOrder_name start name
  | .element array index =>
      refine ((around.inOrder_name start array).append (index.inOrder (start + 2))
        (by omega)).mono (Nat.le_refl start) ?_
      simp
      omega
  | .ownCall name arguments =>
      refine (arguments.inOrder 1 (start + 2)).mono (by omega) ?_
      simp
      omega
  | .memberCall receiver name arguments =>
      refine (arguments.inOrder (around.receiverCount receiver) (start + 4)).mono (by omega) ?_
      simp
      omega

theorem Arguments.inOrder (arguments : Arguments) (receivers start : Nat) :
    InOrder (arguments.faults around receivers start) start
      (start + arguments.words.length) := by
  match arguments with
  | .none => exact .nil (Nat.le_add_right _ _)
  | .some list => simpa [Arguments.faults] using list.inOrder receivers start

theorem ArgumentList.inOrder (list : ArgumentList) (receivers start : Nat) :
    InOrder (list.faults around receivers start) start (start + list.words.length) := by
  match list with
  | .single argument =>
      have hpos := argument.length_words_pos
      simpa [ArgumentList.faults] using
        (argument.inOrder start).argument (by omega) receivers
  | .append before last =>
      have hpos := last.length_words_pos
      have hlast := (last.inOrder (start + before.words.length + 1)).argument (by omega)
        (receivers + before.count)
      rw [ArgumentList.faults, List.append_assoc]
      refine ((before.inOrder receivers start).append hlast (by omega)).mono
        (Nat.le_refl start) ?_
      simp
      omega

end

theorem Call.inOrder (call : Call) (start : Nat) :
    InOrder (call.faults around start) start (start + call.words.length) := by
  cases call with
  | own name arguments => exact Term.inOrder around (.ownCall name arguments) start
  | member receiver name arguments =>
      exact Term.inOrder around (.memberCall receiver name arguments) start

mutual

theorem Statement.inOrder (statement : Statement) (start : Nat) :
    InOrder (statement.faults around start) start (start + statement.words.length) := by
  match statement with
  | .assign target value =>
      refine ((around.inOrder_name (start + 1) target).append
        (value.inOrder around (start + 3)) (by omega)).mono (by omega) ?_
      simp
      omega
  | .assignElement array index value =>
      have hindex := (around.inOrder_name (start + 1) array).append
        (index.inOrder around (start + 3)) (by omega)
      refine (hindex.append (value.inOrder around (start + 3 + index.words.length + 2))
        (by omega)).mono (by omega) ?_
      simp
      omega
  | .conditional condition body =>
      refine ((condition.inOrder around (start + 2)).append
        (body.inOrder (start + 2 + condition.words.length + 2)) (by omega)).mono (by omega) ?_
      simp
      omega
  | .alternative condition first second =>
      have hfirst := (condition.inOrder around (start + 2)).append
        (first.inOrder (start + 2 + condition.words.length + 2)) (by omega)
      refine (hfirst.append (second.inOrder
        (start + 2 + condition.words.length + 2 + first.words.length + 3)) (by omega)).mono
          (by omega) ?_
      simp
      omega
  | .loop condition body =>
      refine ((condition.inOrder around (start + 2)).append
        (body.inOrder (start + 2 + condition.words.length + 2)) (by omega)).mono (by omega) ?_
      simp
      omega
  | .call call =>
      refine (call.inOrder around (start + 1)).mono (by omega) ?_
      simp
      omega
  | .returnNothing => exact .nil (Nat.le_add_right _ _)
  | .returnValue value =>
      refine (value.inOrder around (start + 1)).mono (by omega) ?_
      simp
      omega

theorem Statements.inOrder (statements : Statements) (start : Nat) :
    InOrder (statements.faults around start) start (start + statements.words.length) := by
  match statements with
  | .nil => exact .nil (Nat.le_add_right _ _)
  | .cons first rest =>
      refine ((first.inOrder start).append (rest.inOrder (start + first.words.length))
        (Nat.le_refl _)).mono (Nat.le_refl start) ?_
      simp
      omega

end

end Code

theorem inOrder_declaration (before : List Declared) (number : Nat) (one : Declared) :
    InOrder ((if one.name ∈ namesOf before then [(number, .redeclared)] else []) ++
      if countOf one.kind before = maxConstant then [(number, .tooManyVariables one.kind)]
      else []) number (number + 1) := by
  have hmany : InOrder (if countOf one.kind before = maxConstant
      then [(number, .tooManyVariables one.kind)] else []) number (number + 1) := by
    split
    · exact .single number (.tooManyVariables one.kind)
    · exact .nil (Nat.le_succ number)
  split
  · refine hmany.cons (Nat.lt_succ_self number) ?_
    intro found hmem
    split at hmem
    · rw [List.mem_singleton.mp hmem]
      exact Nat.le_succ 1
    · cases hmem
  · exact hmany

theorem Declaring.inOrder {start : Nat} {steps : List Step} {numbered : List (Nat × Declared)}
    (h : Declaring start steps numbered) (before : List Declared) :
    InOrder (declarationFaults before numbered) start (start + (wordsTaken steps).length) := by
  induction h generalizing before with
  | nil start => exact .nil (Nat.le_refl start)
  | opened rule h ih | closed rule h ih => exact ih before
  | @took start steps numbered token h ih =>
      refine (ih before).mono (Nat.le_succ start) ?_
      rw [wordsTaken_took, List.length_cons]
      omega
  | @declare start steps numbered one h ih =>
      -- the names behind this one are compared with it too
      have hrest := ih (before ++ [one])
      refine ((inOrder_declaration before start one).append hrest (Nat.le_refl _)).mono
        (Nat.le_refl start) ?_
      rw [wordsTaken_append, wordsTaken_declareCourse, List.length_append,
        List.length_singleton]
      omega

theorem Subroutine.inOrder (subroutine : Subroutine) (className : String)
    (ofClass : List Declared) (start : Nat) :
    InOrder (subroutine.faults className ofClass start) start
      (start + subroutine.words.length) := by
  have hdeclared := (subroutine.declaring start).inOrder (subroutine.kind.receiver className)
  rw [subroutine.length_declarationCourse] at hdeclared
  have hbody := subroutine.body.inOrder
    ⟨className, ofClass, subroutine.declared className⟩ (subroutine.bodyStart start)
  refine (hdeclared.append hbody (Nat.le_refl _)).mono (Nat.le_add_right start 3) ?_
  simp [words, bodyStart, localStart]
  omega

/-- The faults of a unit lie among its tokens and come in their order. -/
theorem ClassUnit.inOrder (unit : ClassUnit) : InOrder unit.faults 0 unit.words.length := by
  have hsubroutines := InOrder.of_visitAll
    (fun start subroutine => subroutine.inOrder unit.name unit.declared start)
    (3 + (unit.declarations.flatMap ClassVariables.words).length) unit.subroutines
  have hdeclared := unit.declaring.inOrder []
  refine (hdeclared.append hsubroutines (by simp)).mono (Nat.zero_le 3) ?_
  simp only [words_eq, List.length_cons, List.length_append, List.length_nil]
  omega

end JackLang
