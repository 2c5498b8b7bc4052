import JackLang.Compilation.Code

/-! # Where code stands

A program falls into sections, one for each subroutine, that start at the
`function` instructions. Within the body of a subroutine each statement has its
number, and its code stands between the code in front of it and behind it.
-/

set_option autoImplicit false

namespace JackLang

def Instruction.isFunction : Instruction → Bool
  | .function _ _ => true
  | _ => false

/-- What is in front of the first function of a program, and its sections: from
one `function` instruction to the next or to the end. -/
def splitSections : List Instruction → List Instruction × List (List Instruction)
  | [] => ([], [])
  | instruction :: rest =>
      let (lead, sections) := splitSections rest
      if instruction.isFunction then ([], (instruction :: lead) :: sections)
      else (instruction :: lead, sections)

def sections (program : List Instruction) : List (List Instruction) :=
  (splitSections program).2

theorem splitSections_append {code rest : List Instruction}
    (h : ∀ instruction ∈ code, instruction.isFunction = false) :
    splitSections (code ++ rest) =
      (code ++ (splitSections rest).1, (splitSections rest).2) := by
  induction code with
  | nil => rfl
  | cons first others ih =>
      have hfirst := h first (.head others)
      have hothers := ih fun instruction hmem => h instruction (.tail first hmem)
      simp [splitSections, hothers, hfirst]

/-- A section starts a function and stays within it. -/
def IsSection (code : List Instruction) : Prop :=
  ∃ first rest, code = first :: rest ∧ first.isFunction = true ∧
    ∀ instruction ∈ rest, instruction.isFunction = false

theorem sections_flatten {parts : List (List Instruction)} (h : ∀ part ∈ parts, IsSection part) :
    sections parts.flatten = parts := by
  have hsplit : splitSections parts.flatten = ([], parts) := by
    induction parts with
    | nil => rfl
    | cons part others ih =>
        obtain ⟨first, rest, rfl, hfirst, hrest⟩ := h part (.head others)
        have hothers := ih fun other hmem => h other (.tail _ hmem)
        rw [List.flatten_cons, List.cons_append, splitSections, splitSections_append hrest,
          hothers]
        simp [hfirst]
  rw [sections, hsplit]

/-- Subroutines with the number of the first conditional or loop of each. -/
def numberedFrom (number : Nat) : List Subroutine → List (Subroutine × Nat)
  | [] => []
  | first :: others => (first, number) :: numberedFrom (number + first.body.numbers) others

def ClassUnit.numbered (unit : ClassUnit) : List (Subroutine × Nat) :=
  numberedFrom 0 unit.subroutines

def ClassUnit.section (unit : ClassUnit) (numbered : Subroutine × Nat) : List Instruction :=
  numbered.1.code unit.name unit.declared numbered.2

/-- The code of a subroutine in front of its statements. -/
def Subroutine.opening (className : String) (ofClass : List Declared)
    (subroutine : Subroutine) : List Instruction :=
  .function (className ++ "." ++ subroutine.name)
      ((subroutine.declared className).countP fun declared => declared.kind = .local) ::
    subroutine.kind.entryCode (ofClass.countP fun declared => declared.kind = .field)

/-- What the statements of a subroutine of a unit depend on. -/
def ClassUnit.around (unit : ClassUnit) (subroutine : Subroutine) : Surroundings :=
  ⟨unit.name, unit.declared, subroutine.declared unit.name⟩

theorem ClassUnit.section_eq (unit : ClassUnit) (numbered : Subroutine × Nat) :
    unit.section numbered = numbered.1.opening unit.name unit.declared ++
      numbered.1.body.code (unit.around numbered.1) numbered.2 := rfl

theorem fst_mem_of_mem_numberedFrom {number : Nat} {subroutines : List Subroutine}
    {numbered : Subroutine × Nat} (h : numbered ∈ numberedFrom number subroutines) :
    numbered.1 ∈ subroutines := by
  induction subroutines generalizing number with
  | nil => cases h
  | cons first others ih =>
      rcases List.mem_cons.mp h with rfl | hmem
      · exact .head others
      · exact .tail first (ih hmem)

theorem subroutinesCode_eq_flatMap (className : String) (ofClass : List Declared)
    (number : Nat) (subroutines : List Subroutine) :
    subroutinesCode className ofClass number subroutines =
      (numberedFrom number subroutines).flatMap fun numbered =>
        numbered.1.code className ofClass numbered.2 := by
  induction subroutines generalizing number with
  | nil => rfl
  | cons first others ih => simp [subroutinesCode, numberedFrom, ih]

theorem ClassUnit.code_eq_flatMap (unit : ClassUnit) :
    unit.code = unit.numbered.flatMap unit.section :=
  subroutinesCode_eq_flatMap ..

/-- The code between the condition of a conditional and its first branch. -/
def testCode (number : Nat) : List Instruction :=
  [.ifGoto (LabelFamily.ifTrue.label number), .goto (LabelFamily.ifFalse.label number),
    .label (LabelFamily.ifTrue.label number)]

def elseCode (number : Nat) : List Instruction :=
  [.goto (LabelFamily.ifEnd.label number), .label (LabelFamily.ifFalse.label number)]

def startCode (number : Nat) : List Instruction :=
  [.label (LabelFamily.whileStart.label number)]

def exitCode (number : Nat) : List Instruction :=
  [.operate .not, .ifGoto (LabelFamily.whileEnd.label number)]

def repeatCode (number : Nat) : List Instruction :=
  [.goto (LabelFamily.whileStart.label number), .label (LabelFamily.whileEnd.label number)]

theorem conditionalCode_eq (number : Nat) (condition first second : List Instruction) :
    conditionalCode number condition first second =
      condition ++ testCode number ++ first ++ elseCode number ++ second ++
        [.label (LabelFamily.ifEnd.label number)] := rfl

theorem loopCode_eq (number : Nat) (condition body : List Instruction) :
    loopCode number condition body =
      startCode number ++ condition ++ exitCode number ++ body ++ repeatCode number := rfl

/-- Statements inside a statement: the code around theirs, and the number of the
first conditional or loop of theirs. -/
structure Block where
  front : List Instruction
  number : Nat
  body : Statements
  back : List Instruction

def Statement.blocks (around : Surroundings) (number : Nat) : Statement → List Block
  | .conditional condition body =>
      [{ front := condition.code around ++ testCode number
         number := number + 1
         body := body
         back := elseCode number ++ [.label (LabelFamily.ifEnd.label number)] }]
  | .alternative condition first second =>
      [{ front := condition.code around ++ testCode number
         number := number + 1
         body := first
         back := elseCode number ++ second.code around (number + 1 + first.numbers) ++
            [.label (LabelFamily.ifEnd.label number)] },
       { front := condition.code around ++ testCode number ++ first.code around (number + 1) ++
            elseCode number
         number := number + 1 + first.numbers
         body := second
         back := [.label (LabelFamily.ifEnd.label number)] }]
  | .loop condition body =>
      [{ front := startCode number ++ condition.code around ++ exitCode number
         number := number + 1
         body := body
         back := repeatCode number }]
  | .assign _ _ => []
  | .assignElement _ _ _ => []
  | .call _ => []
  | .returnNothing => []
  | .returnValue _ => []

theorem Statement.code_eq_of_mem_blocks {around : Surroundings} {number : Nat}
    {statement : Statement} {block : Block} (h : block ∈ statement.blocks around number) :
    statement.code around number =
      block.front ++ block.body.code around block.number ++ block.back := by
  cases statement with
  | conditional condition body =>
      rw [List.mem_singleton.mp h]
      simp [Statement.code, conditionalCode_eq]
  | alternative condition first second =>
      rcases List.mem_cons.mp h with rfl | hlast
      · simp [Statement.code, conditionalCode_eq]
      · rw [List.mem_singleton.mp hlast]
        simp [Statement.code, conditionalCode_eq]
  | loop condition body =>
      rw [List.mem_singleton.mp h]
      simp [Statement.code, loopCode_eq]
  | _ => cases h

/-- A statement occurs in statements whose first conditional or loop has the
number `start`: its own number, and the code in front of it and behind it. -/
inductive Occurs (around : Surroundings) (statement : Statement) (number : Nat) :
    List Instruction → List Instruction → Nat → Statements → Prop
  | head (rest : Statements) :
      Occurs around statement number [] (rest.code around (number + statement.numbers)) number
        (.cons statement rest)
  | tail {front back : List Instruction} {start : Nat} (first : Statement) {rest : Statements}
      (h : Occurs around statement number front back (start + first.numbers) rest) :
      Occurs around statement number (first.code around start ++ front) back start
        (.cons first rest)
  | inside {front back : List Instruction} {start : Nat} {first : Statement}
      (rest : Statements) {block : Block} (hblock : block ∈ first.blocks around start)
      (h : Occurs around statement number front back block.number block.body) :
      Occurs around statement number (block.front ++ front)
        (back ++ block.back ++ rest.code around (start + first.numbers)) start
        (.cons first rest)

theorem Occurs.code_eq {around : Surroundings} {statement : Statement} {number start : Nat}
    {front back : List Instruction} {statements : Statements}
    (h : Occurs around statement number front back start statements) :
    statements.code around start = front ++ statement.code around number ++ back := by
  induction h with
  | head rest => simp [Statements.code]
  | tail first h ih => simp [Statements.code, ih]
  | inside rest hblock h ih =>
      simp [Statements.code, Statement.code_eq_of_mem_blocks hblock, ih]

end JackLang
