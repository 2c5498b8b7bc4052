import JackLang.Proofs.Compilation.Permitted
import JackLang.Proofs.Compilation.Sections

/-! # The parts of a subroutine

An expression has expressions inside: in parentheses, as an index or as arguments,
and its own front part without the last operator. A statement has statements inside
its blocks. What the language asks of the whole holds of each part.
-/

set_option autoImplicit false

namespace JackLang

mutual

/-- An expression and the expressions inside. -/
def Expression.parts : Expression → List Expression
  | .single term => .single term :: term.parts
  | .operate first operator last =>
      .operate first operator last :: (first.parts ++ last.parts)

def Term.parts : Term → List Expression
  | .integer _ => []
  | .string _ => []
  | .trueConstant => []
  | .falseConstant => []
  | .nullConstant => []
  | .thisConstant => []
  | .parenthesized inner => inner.parts
  | .unary _ operand => operand.parts
  | .name _ => []
  | .element _ index => index.parts
  | .ownCall _ arguments => arguments.parts
  | .memberCall _ _ arguments => arguments.parts

def Arguments.parts : Arguments → List Expression
  | .none => []
  | .some list => list.parts

def ArgumentList.parts : ArgumentList → List Expression
  | .single argument => argument.parts
  | .append list last => list.parts ++ last.parts

end

def Call.parts : Call → List Expression
  | .own _ arguments => arguments.parts
  | .member _ _ arguments => arguments.parts

mutual

/-- The expressions of a statement. -/
def Statement.parts : Statement → List Expression
  | .assign _ value => value.parts
  | .assignElement _ index value => index.parts ++ value.parts
  | .conditional condition body => condition.parts ++ body.parts
  | .alternative condition first second => condition.parts ++ (first.parts ++ second.parts)
  | .loop condition body => condition.parts ++ body.parts
  | .call call => call.parts
  | .returnNothing => []
  | .returnValue value => value.parts

def Statements.parts : Statements → List Expression
  | .nil => []
  | .cons first rest => first.parts ++ rest.parts

end

variable {around : Surroundings}

theorem permitted_append {first second : List Expression}
    (h : ∀ part ∈ first, part.Permitted around)
    (hmore : ∀ part ∈ second, part.Permitted around) :
    ∀ part ∈ first ++ second, part.Permitted around := by
  intro part hmem
  exact (List.mem_append.mp hmem).elim (h part) (hmore part)

mutual

theorem Expression.permitted_parts (expression : Expression)
    (h : expression.Permitted around) : ∀ part ∈ expression.parts, part.Permitted around := by
  match expression with
  | .single term => exact List.forall_mem_cons.mpr ⟨h, term.permitted_parts h⟩
  | .operate first operator last =>
      exact List.forall_mem_cons.mpr
        ⟨h, permitted_append (first.permitted_parts h.1) (last.permitted_parts h.2)⟩

theorem Term.permitted_parts (term : Term) (h : term.Permitted around) :
    ∀ part ∈ term.parts, part.Permitted around := by
  match term with
  | .integer _ | .string _ | .trueConstant | .falseConstant | .nullConstant | .thisConstant
  | .name _ =>
      intro part hmem
      cases hmem
  | .parenthesized inner => exact inner.permitted_parts h
  | .unary _ operand => exact operand.permitted_parts h
  | .element _ index => exact index.permitted_parts h.2
  | .ownCall _ arguments | .memberCall _ _ arguments => exact arguments.permitted_parts h.2

theorem Arguments.permitted_parts (arguments : Arguments) (h : arguments.Permitted around) :
    ∀ part ∈ arguments.parts, part.Permitted around := by
  match arguments with
  | .none =>
      intro part hmem
      cases hmem
  | .some list => exact list.permitted_parts h

theorem ArgumentList.permitted_parts (list : ArgumentList) (h : list.Permitted around) :
    ∀ part ∈ list.parts, part.Permitted around := by
  match list with
  | .single argument => exact argument.permitted_parts h
  | .append before last =>
      exact permitted_append (before.permitted_parts h.1) (last.permitted_parts h.2)

end

theorem Call.permitted_parts (call : Call) (h : call.Permitted around) :
    ∀ part ∈ call.parts, part.Permitted around := by
  cases call with
  | own _ arguments | member _ _ arguments => exact arguments.permitted_parts h.2

mutual

theorem Statement.permitted_parts (statement : Statement) (h : statement.Permitted around) :
    ∀ part ∈ statement.parts, part.Permitted around := by
  match statement with
  | .assign _ value => exact value.permitted_parts h.2
  | .assignElement _ index value =>
      exact permitted_append (index.permitted_parts h.2.1) (value.permitted_parts h.2.2)
  | .conditional condition body | .loop condition body =>
      exact permitted_append (condition.permitted_parts h.1) (body.permitted_parts h.2)
  | .alternative condition first second =>
      exact permitted_append (condition.permitted_parts h.1)
        (permitted_append (first.permitted_parts h.2.1) (second.permitted_parts h.2.2))
  | .call call => exact call.permitted_parts h
  | .returnNothing =>
      intro part hmem
      cases hmem
  | .returnValue value => exact value.permitted_parts h

theorem Statements.permitted_parts (statements : Statements) (h : statements.Permitted around) :
    ∀ part ∈ statements.parts, part.Permitted around := by
  match statements with
  | .nil =>
      intro part hmem
      cases hmem
  | .cons first rest =>
      exact permitted_append (first.permitted_parts h.1) (rest.permitted_parts h.2)

end

theorem Statement.permitted_of_mem_blocks {statement : Statement}
    (h : statement.Permitted around) {number : Nat} {block : Block}
    (hblock : block ∈ statement.blocks around number) : block.body.Permitted around := by
  cases statement with
  | conditional condition body | loop condition body =>
      rw [List.mem_singleton.mp hblock]
      exact h.2
  | alternative condition first second =>
      rcases List.mem_cons.mp hblock with rfl | hlast
      · exact h.2.1
      · rw [List.mem_singleton.mp hlast]
        exact h.2.2
  | _ => cases hblock

theorem Occurs.permitted {statement : Statement} {number start : Nat}
    {front back : List Instruction} {statements : Statements}
    (h : Occurs around statement number front back start statements)
    (hpermitted : statements.Permitted around) : statement.Permitted around := by
  induction h with
  | head rest => exact hpermitted.1
  | tail first h ih => exact ih hpermitted.2
  | inside rest hblock h ih =>
      exact ih (Statement.permitted_of_mem_blocks hpermitted.1 hblock)

end JackLang
