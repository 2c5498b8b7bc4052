import JackLang.Proofs.Compilation.Courses
import JackLang.Proofs.Reading.Declarations

/-! # The program of a unit

Declarations fill the scope, subroutines give their code with the scope filled,
and a unit gives the code of its derivation just if it is permitted.
-/

set_option autoImplicit false

namespace JackLang

open Step (node takes symbol keyword identifier emit)

/-- The context with other variables in scope. -/
def Context.scoped (context : Context) (scope : Scope) : Context :=
  { context with scope := scope }

theorem runs_declare {context : Context} {before : List Declared} {one : Declared} (start : Nat)
    (hholds : context.scope.Holds one.kind.isClassLevel before) (hallowed : Allowed before) :
    Runs context start (declareCourse one.kind one.type one.name)
      (context.scoped (context.scope.insert one.name one.type one.kind)) []
      (declarationFaults before [(start, one)]) := by
  obtain ⟨kind, type, name⟩ := one
  have hnames : (context.scope.names kind)[name]? = variableOf? before name := hholds.names name
  have hcount : context.scope.count kind = countOf kind before := hholds.counts kind rfl
  have hle := hallowed.counts kind
  have hnumber : ∀ position : Position, position.taken = start →
      (Action.declare kind type (nameToken name)).number?
        (position.after (identifier name)) = some start := by
    intro position hposition
    simp [Action.number?, Position.after, identifier, takes, hposition]
  by_cases hnew : name ∈ namesOf before
  · obtain ⟨found, hfound⟩ := exists_variableOf? hnew
    have hcontains : (context.scope.names kind).contains name = true := by
      rw [Std.HashMap.contains_eq_isSome_getElem?, hnames, hfound]
      rfl
    have hfail : context.perform (.declare kind type (nameToken name)) =
        Effect.fail context (.redeclared (nameToken name)) := by
      simp [Context.perform, Context.declare, Scope.declare, nameToken, hcontains, Effect.fail]
    exact Runs.of_fail hfail hnumber (by simp [declarationFaults, hnew, StaticError.fault])
  · have hcontains : (context.scope.names kind).contains name = false := by
      rw [Std.HashMap.contains_eq_isSome_getElem?, hnames, variableOf?_eq_none_iff.mpr hnew]
      rfl
    by_cases hless : countOf kind before < maxConstant
    · have hfaults : declarationFaults before [(start, ⟨kind, type, name⟩)] = [] := by
        simp [declarationFaults, hnew, Nat.ne_of_lt hless]
      rw [hfaults]
      refine Runs.plain start ?_ bounded_nil
      simp [declareCourse, Context.carry?, Context.act?, Context.perform, Context.declare,
        Scope.declare, nameToken, hcontains, hcount, hless, Context.scoped, identifier, takes]
    · have heq : countOf kind before = maxConstant := by omega
      have hfail : context.perform (.declare kind type (nameToken name)) =
          Effect.fail context (.tooManyVariables kind (nameToken name)) := by
        simp [Context.perform, Context.declare, Scope.declare, nameToken, hcontains, hcount, heq,
          Effect.fail]
      exact Runs.of_fail hfail hnumber
        (by simp [declarationFaults, hnew, heq, StaticError.fault])

/-- Steps that take tokens and declare what is numbered, each variable as soon as its name
is taken. -/
inductive Declaring : Nat → List Step → List (Nat × Declared) → Prop
  | nil (start : Nat) : Declaring start [] []
  | opened {start : Nat} {steps : List Step} {numbered : List (Nat × Declared)} (rule : Rule)
      (h : Declaring start steps numbered) : Declaring start (.opened rule :: steps) numbered
  | closed {start : Nat} {steps : List Step} {numbered : List (Nat × Declared)} (rule : Rule)
      (h : Declaring start steps numbered) : Declaring start (.closed rule :: steps) numbered
  | took {start : Nat} {steps : List Step} {numbered : List (Nat × Declared)} (token : Token)
      (h : Declaring (start + 1) steps numbered) :
      Declaring start (.took token :: steps) numbered
  | declare {start : Nat} {steps : List Step} {numbered : List (Nat × Declared)}
      (one : Declared) (h : Declaring (start + 1) steps numbered) :
      Declaring start (declareCourse one.kind one.type one.name ++ steps)
        ((start, one) :: numbered)

namespace Declaring

variable {start : Nat} {steps more : List Step} {numbered others : List (Nat × Declared)}

theorem append (h : Declaring start steps numbered)
    (hmore : Declaring (start + (wordsTaken steps).length) more others) :
    Declaring start (steps ++ more) (numbered ++ others) := by
  induction h with
  | nil start => exact hmore
  | opened rule h ih => exact .opened rule (ih hmore)
  | closed rule h ih => exact .closed rule (ih hmore)
  | took token h ih =>
      refine .took token (ih ?_)
      rwa [wordsTaken_took, List.length_cons, Nat.add_comm _ 1, ← Nat.add_assoc] at hmore
  | declare one h ih =>
      rw [List.append_assoc]
      refine .declare one (ih ?_)
      rwa [wordsTaken_append, wordsTaken_declareCourse, List.length_append,
        List.length_singleton, ← Nat.add_assoc] at hmore

theorem flatMap {α : Type} {length : α → Nat} {visit : Nat → α → List (Nat × Declared)}
    {course : α → List Step} (h : ∀ start one, Declaring start (course one) (visit start one))
    (hlength : ∀ one, length one = (wordsTaken (course one)).length) (start : Nat)
    (things : List α) :
    Declaring start (things.flatMap course) (visitAll length visit start things) := by
  induction things generalizing start with
  | nil => exact .nil start
  | cons first rest ih =>
      rw [List.flatMap_cons, visitAll, hlength]
      exact (h start first).append (ih _)

theorem node (h : Declaring start steps numbered) (rule : Rule) :
    Declaring start (Step.node rule steps) numbered := by
  have hclosed := (Declaring.opened rule h).append (.closed rule (.nil _))
  rwa [List.append_nil] at hclosed

/-- Declarations fill the scope, behind those that are made already. -/
theorem runs (h : Declaring start steps numbered) {context : Context} {level : Bool}
    {before : List Declared} (hholds : context.scope.Holds level before)
    (hallowed : Allowed before)
    (hlevel : ∀ one ∈ numbered.map Prod.snd, one.kind.isClassLevel = level) :
    Runs context start steps (context.scoped (context.scope.insertAll (numbered.map Prod.snd)))
      [] (declarationFaults before numbered) := by
  induction h generalizing context before with
  | nil start => exact Runs.plain start rfl bounded_nil
  | @opened start steps numbered rule h ih =>
      exact (ih hholds hallowed hlevel).prepend start [.opened rule] [] rfl rfl bounded_nil
  | @closed start steps numbered rule h ih =>
      exact (ih hholds hallowed hlevel).prepend start [.closed rule] [] rfl rfl bounded_nil
  | @took start steps numbered token h ih =>
      exact (ih hholds hallowed hlevel).prepend start [.took token] [] rfl rfl bounded_nil
  | @declare start steps numbered one h ih =>
      have hone : one.kind.isClassLevel = level := hlevel one (.head _)
      subst hone
      have hrest : declarationFaults before [(start, one)] = [] →
          Runs (context.scoped (context.scope.insert one.name one.type one.kind)) (start + 1)
            steps (context.scoped (context.scope.insertAll
              (((start, one) :: numbered).map Prod.snd))) []
            (declarationFaults (before ++ [one]) numbered) := by
        intro hnone
        have hnext := (declarationFaults_eq_nil_iff hallowed _).mp hnone
        obtain ⟨_, hnew, _⟩ := allowed_append_singleton.mp hnext
        have hscoped : (context.scoped (context.scope.insert one.name one.type
            one.kind)).scope.Holds one.kind.isClassLevel (before ++ [one]) := hholds.insert hnew
        exact ih hscoped hnext fun other hmem => hlevel other (.tail one hmem)
      exact ((runs_declare start hholds hallowed).append rfl hrest).of_eq rfl rfl
        (by simp [declarationFaults])

end Declaring

def Subroutine.parameterDeclared (subroutine : Subroutine) : List Declared :=
  subroutine.parameters.map fun parameter =>
    ⟨.argument, parameter.type.text, parameter.name⟩

def Subroutine.localDeclared (subroutine : Subroutine) : List Declared :=
  subroutine.locals.flatMap fun group => group.declared .local

theorem Subroutine.declared_eq (subroutine : Subroutine) (className : String) :
    subroutine.declared className = subroutine.kind.receiver className ++
      (subroutine.parameterDeclared ++ subroutine.localDeclared) :=
  List.append_assoc ..

section Declared

theorem VariableGroup.declaring (group : VariableGroup) (kind : VariableKind) (start : Nat) :
    Declaring start (group.course kind) (group.numbered kind start) := by
  have hothers : Declaring (start + 2)
      (group.others.flatMap fun name =>
        symbol .comma :: declareCourse kind group.type.text name)
      (visitAll (fun _ => 2) (fun number name => [(number + 1, ⟨kind, group.type.text, name⟩)])
        (start + 2) group.others) :=
    Declaring.flatMap
      (fun _ name => .took _ (.declare ⟨kind, group.type.text, name⟩ (.nil _)))
      (fun _ => rfl) (start + 2) group.others
  have hlast : Declaring (start + 2 + (wordsTaken (group.others.flatMap fun name =>
      symbol .comma :: declareCourse kind group.type.text name)).length)
      [symbol .semicolon] [] := .took _ (.nil _)
  have hwhole := hothers.append hlast
  rw [List.append_nil] at hwhole
  exact .took _ (.declare ⟨kind, group.type.text, group.first⟩ hwhole)

theorem VariableGroup.map_numbered (group : VariableGroup) (kind : VariableKind)
    (start : Nat) : (group.numbered kind start).map Prod.snd = group.declared kind := by
  rw [numbered, List.map_cons, map_snd_visitAll (fun _ => 2) 1
    (fun name => (⟨kind, group.type.text, name⟩ : Declared))]
  rfl

theorem ClassUnit.declaring (unit : ClassUnit) :
    Declaring 3 (unit.declarations.flatMap ClassVariables.course) unit.numberedDeclarations := by
  refine Declaring.flatMap ?_ ?_ 3 unit.declarations
  · intro start declaration
    exact (Declaring.took _ (declaration.group.declaring _ (start + 1))).node .classVarDec
  · intro declaration
    rw [declaration.wordsTaken_course]

theorem ClassUnit.map_numbered (unit : ClassUnit) :
    unit.numberedDeclarations.map Prod.snd = unit.declared :=
  map_visitAll (fun _ declaration => declaration.group.map_numbered _ _) 3 unit.declarations

/-- The steps between the name of a subroutine and its statements. -/
def Subroutine.declarationCourse (subroutine : Subroutine) : List Step :=
  symbol .leftParen :: node .parameterList (parameterCourse subroutine.parameters) ++
    symbol .rightParen :: .opened .subroutineBody :: symbol .leftBrace ::
    localCourse subroutine.locals

theorem declaring_parameters (parameters : List Parameter) (start : Nat) :
    Declaring start (parameterCourse parameters) (numberedParameters start parameters) := by
  cases parameters with
  | nil => exact .nil start
  | cons first others =>
      have hothers : Declaring (start + 2)
          (others.flatMap fun parameter => symbol .comma :: parameter.course)
          (visitAll (fun _ => 3) (fun number parameter => [(number + 2, parameter.declared)])
            (start + 2) others) :=
        Declaring.flatMap
          (fun _ parameter => .took _ (.took _ (.declare parameter.declared (.nil _))))
          (fun _ => rfl) (start + 2) others
      exact .took _ (.declare first.declared hothers)

theorem declaring_locals (groups : List VariableGroup) (start : Nat) :
    Declaring start (localCourse groups)
      (visitAll (fun group => group.words.length + 1)
        (fun number group => group.numbered .local (number + 1)) start groups) := by
  refine Declaring.flatMap ?_ ?_ start groups
  · intro number group
    exact (Declaring.took _ (group.declaring .local (number + 1))).node .varDec
  · intro group
    simp

theorem Subroutine.declaring (subroutine : Subroutine) (start : Nat) :
    Declaring (start + 3) subroutine.declarationCourse
      (subroutine.numberedDeclarations start) := by
  have hparameters := (declaring_parameters subroutine.parameters (start + 4)).node
    .parameterList
  have hlocals : Declaring (start + 4 + (parameterWords subroutine.parameters).length)
      (symbol .rightParen :: .opened .subroutineBody :: symbol .leftBrace ::
        localCourse subroutine.locals) _ :=
    .took _ (.opened .subroutineBody (.took _ (declaring_locals subroutine.locals _)))
  refine .took _ (hparameters.append ?_)
  rw [wordsTaken_node, wordsTaken_parameterCourse]
  exact hlocals

theorem Subroutine.map_numbered (subroutine : Subroutine) (start : Nat) :
    (subroutine.numberedDeclarations start).map Prod.snd =
      subroutine.parameterDeclared ++ subroutine.localDeclared := by
  have hparameters : (numberedParameters (start + 4) subroutine.parameters).map Prod.snd =
      subroutine.parameterDeclared := by
    rw [parameterDeclared]
    cases subroutine.parameters with
    | nil => rfl
    | cons first others =>
        rw [numberedParameters, List.map_cons, map_snd_visitAll (fun _ => 3) 2
          Parameter.declared]
        rfl
  rw [numberedDeclarations, List.map_append, hparameters,
    map_visitAll (fun _ group => group.map_numbered .local _)]
  rfl

theorem Subroutine.names_declared (subroutine : Subroutine) :
    (subroutine.parameterDeclared ++ subroutine.localDeclared).map Declared.name =
      subroutine.ownNames := by
  simp [parameterDeclared, localDeclared, ownNames, VariableGroup.declared,
    List.map_flatMap, Function.comp_def]

theorem VariableGroup.countOf_declared (group : VariableGroup) (kind other : VariableKind) :
    countOf other (group.declared kind) =
      if kind = other then (group.first :: group.others).length else 0 := by
  by_cases h : kind = other <;>
    simp [countOf, declared, List.countP_map, Function.comp_def, h]

theorem countOf_locals (groups : List VariableGroup) (kind : VariableKind) :
    countOf kind (groups.flatMap fun group => group.declared .local) =
      if kind = .local then (groups.flatMap fun group => group.first :: group.others).length
      else 0 := by
  induction groups with
  | nil => simp [countOf]
  | cons first others ih =>
      rw [List.flatMap_cons, countOf_append, first.countOf_declared, ih]
      by_cases h : kind = .local
      · subst h
        simp only [if_true, List.flatMap_cons, List.length_append]
      · have hne : VariableKind.local ≠ kind := fun heq => h heq.symm
        simp [h, hne]

theorem countOf_parameters (parameters : List Parameter) (kind : VariableKind) :
    countOf kind (parameters.map fun parameter =>
        (⟨.argument, parameter.type.text, parameter.name⟩ : Declared)) =
      if kind = .argument then parameters.length else 0 := by
  by_cases h : kind = .argument
  · subst h
    simp [countOf, List.countP_map, Function.comp_def]
  · have hne : VariableKind.argument ≠ kind := fun heq => h heq.symm
    simp [countOf, List.countP_map, Function.comp_def, h, hne]

theorem Subroutine.countOf_declared (subroutine : Subroutine) (className : String) :
    countOf .argument (subroutine.declared className) = subroutine.argumentCount ∧
      countOf .local (subroutine.declared className) = subroutine.localCount := by
  rw [declared_eq, countOf_append, countOf_append, countOf_append, countOf_append,
    parameterDeclared, localDeclared, countOf_parameters, countOf_parameters, countOf_locals,
    countOf_locals]
  cases hkind : subroutine.kind <;>
    simp [SubroutineKind.receiver, countOf, argumentCount, localCount, hkind]

theorem countOf_eq_zero {kind : VariableKind} {declared : List Declared}
    (h : ∀ one ∈ declared, one.kind ≠ kind) : countOf kind declared = 0 := by
  rw [countOf, List.countP_eq_zero]
  intro one hmem hkind
  exact h one hmem (of_decide_eq_true hkind)

theorem Subroutine.isClassLevel_declared (subroutine : Subroutine) (className : String) :
    ∀ one ∈ subroutine.declared className, one.kind.isClassLevel = false := by
  intro one hmem
  rw [declared_eq] at hmem
  rcases List.mem_append.mp hmem with hmem | hmem
  · cases hkind : subroutine.kind <;> simp_all [SubroutineKind.receiver, VariableKind.isClassLevel]
  · rcases List.mem_append.mp hmem with hmem | hmem
    · obtain ⟨parameter, _, rfl⟩ := List.mem_map.mp hmem
      rfl
    · obtain ⟨group, _, hgroup⟩ := List.mem_flatMap.mp hmem
      obtain ⟨name, _, rfl⟩ := List.mem_map.mp hgroup
      rfl

/-- The declarations of a subroutine are allowed if its names are distinct and
there are not too many arguments and locals. -/
theorem Subroutine.allowed_iff (subroutine : Subroutine) (className : String)
    (hthis : "this" ∉ subroutine.ownNames) :
    Allowed (subroutine.declared className) ↔
      subroutine.ownNames.Nodup ∧ subroutine.argumentCount ≤ maxConstant ∧
        subroutine.localCount ≤ maxConstant := by
  obtain ⟨harguments, hlocals⟩ := subroutine.countOf_declared className
  have hnames : (namesOf (subroutine.declared className)).Nodup ↔
      subroutine.ownNames.Nodup := by
    rw [declared_eq, namesOf, List.map_append, subroutine.names_declared]
    cases subroutine.kind <;> simp [SubroutineKind.receiver, hthis]
  constructor
  · intro h
    exact ⟨hnames.mp h.distinct, harguments ▸ h.counts .argument, hlocals ▸ h.counts .local⟩
  · rintro ⟨hdistinct, hargument, hlocal⟩
    refine ⟨hnames.mpr hdistinct, ?_⟩
    intro kind
    cases kind with
    | argument => rwa [harguments]
    | «local» => rwa [hlocals]
    | static | field =>
        rw [countOf_eq_zero]
        · exact Nat.zero_le _
        · intro one hmem hkind
          have hfalse := subroutine.isClassLevel_declared className one hmem
          rw [hkind] at hfalse
          cases hfalse

end Declared

theorem insertAll_append (scope : Scope) (first second : List Declared) :
    scope.insertAll (first ++ second) = (scope.insertAll first).insertAll second := by
  induction first generalizing scope with
  | nil => rfl
  | cons one others ih => exact ih _

theorem allowed_receiver (kind : SubroutineKind) (className : String) :
    Allowed (kind.receiver className) := by
  constructor
  · cases kind <;> simp [SubroutineKind.receiver]
  · intro other
    have hlength : (kind.receiver className).length ≤ maxConstant := by
      cases kind <;> simp [SubroutineKind.receiver, maxConstant]
    exact Nat.le_trans List.countP_le_length hlength

theorem identifier_mem_parameterWords {parameters : List Parameter} {parameter : Parameter}
    (h : parameter ∈ parameters) :
    Word.identifier parameter.name ∈ parameterWords parameters := by
  cases parameters with
  | nil => cases h
  | cons first others =>
      rcases List.mem_cons.mp h with rfl | hmem
      · simp [parameterWords]
      · have hmore : Word.identifier parameter.name ∈ moreParameterWords others :=
          List.mem_flatMap.mpr ⟨parameter, hmem, by simp⟩
        simp [parameterWords, hmore]

theorem identifier_mem_localWords {groups : List VariableGroup} {group : VariableGroup}
    {name : String} (h : group ∈ groups) (hname : name ∈ group.first :: group.others) :
    Word.identifier name ∈ localWords groups := by
  refine List.mem_flatMap.mpr ⟨group, h, ?_⟩
  rcases List.mem_cons.mp hname with rfl | hmem
  · simp [VariableGroup.words]
  · have hmore : Word.identifier name ∈ moreNameWords group.others :=
      List.mem_flatMap.mpr ⟨name, hmem, by simp⟩
    simp [VariableGroup.words, hmore]

/-- The receiver of a method cannot be declared: its name is a reserved word. -/
theorem this_notMem_ownNames {subroutine : Subroutine} (hwords : AllRegular subroutine.words) :
    "this" ∉ subroutine.ownNames := by
  intro hmem
  have hword : Word.identifier "this" ∈ subroutine.words := by
    rcases List.mem_append.mp hmem with hmem | hmem
    · obtain ⟨parameter, hparameter, hname⟩ := List.mem_map.mp hmem
      have hidentifier := identifier_mem_parameterWords hparameter
      rw [hname] at hidentifier
      simp [Subroutine.words, hidentifier]
    · obtain ⟨group, hgroup, hname⟩ := List.mem_flatMap.mp hmem
      have hidentifier := identifier_mem_localWords hgroup hname
      simp [Subroutine.words, hidentifier]
  have hregular : Keyword.ofText? "this" = none := hwords _ hword
  exact absurd hregular (by decide)

/-- The variables in scope behind a subroutine. -/
def Subroutine.scopeAfter (subroutine : Subroutine) (className : String) (scope : Scope) :
    Scope :=
  scope.startSubroutine.insertAll (subroutine.declared className)

theorem Subroutine.holds_scopeAfter {scope : Scope} {ofClass : List Declared}
    (subroutine : Subroutine) (className : String) (h : scope.Holds true ofClass) :
    (subroutine.scopeAfter className scope).Holds true ofClass ∧
      (Allowed (subroutine.declared className) →
        (subroutine.scopeAfter className scope).Holds false (subroutine.declared className)) := by
  have hlevel := subroutine.isClassLevel_declared className
  constructor
  · refine h.startSubroutine.insertAll_other ?_
    intro one hmem htrue
    rw [hlevel one hmem] at htrue
    cases htrue
  · intro hallowed
    exact (Scope.holds_startSubroutine scope).insertAll hlevel hallowed

theorem act?_enterBody (context : Context) {ofClass ofSubroutine : List Declared}
    (h : context.scope.Holds true ofClass) (hown : context.scope.Holds false ofSubroutine)
    (kind : SubroutineKind) (name : String) :
    context.act? (.enterBody kind name) =
      some (context, .function (context.className ++ "." ++ name) (countOf .local ofSubroutine) ::
        kind.entryCode (countOf .field ofClass)) := by
  have hprologue : prologue context.scope kind = kind.entryCode context.scope.fields := by
    cases kind <;> rfl
  have hfields : context.scope.fields = countOf .field ofClass := h.counts .field rfl
  have hlocals : context.scope.locals = countOf .local ofSubroutine := hown.counts .local rfl
  apply Context.act?_of_give
  rw [Context.perform, hprologue, hfields, hlocals]

theorem bounded_entryCode (kind : SubroutineKind) {fields : Nat} (h : fields ≤ maxConstant) :
    Bounded (kind.entryCode fields) := by
  have hone : 1 ≤ maxConstant := by decide
  cases kind <;> simp [SubroutineKind.entryCode, Instruction.operand, h, hone]

def Subroutine.bodyCourse (subroutine : Subroutine) (number : Nat) : List Step :=
  .act (.enterBody subroutine.kind subroutine.name) ::
    (node .statements (subroutine.body.course number) ++
      [symbol .rightBrace, .closed .subroutineBody, .closed .subroutineDec])

theorem Subroutine.runs_body {context : Context} {ofClass : List Declared}
    (subroutine : Subroutine) (number start : Nat) (h : context.scope.Holds true ofClass)
    (hallowed : Allowed ofClass)
    (hown : context.scope.Holds false (subroutine.declared context.className))
    (hownAllowed : Allowed (subroutine.declared context.className))
    (hwords : AllRegular subroutine.body.words) :
    Runs (context.numbered number) start (subroutine.bodyCourse number)
      (context.numbered (number + subroutine.body.numbers))
      (subroutine.code context.className ofClass number)
      (subroutine.body.faults
        ⟨context.className, ofClass, subroutine.declared context.className⟩ start) := by
  have hsees : context.Sees
      ⟨context.className, ofClass, subroutine.declared context.className⟩ :=
    ⟨rfl, Scope.lookup?_of_holds h hown context.className⟩
  have hsmall : Surroundings.Small
      ⟨context.className, ofClass, subroutine.declared context.className⟩ :=
    ⟨hallowed.counts, hownAllowed.counts⟩
  have hbody := ((subroutine.body.runs hsees hsmall number start hwords).node
    .statements).postpend [symbol .rightBrace, .closed .subroutineBody, .closed .subroutineDec]
      [] rfl fun _ => bounded_nil
  have henter := act?_enterBody (context.numbered number) h hown subroutine.kind
    subroutine.name
  have hbounded := (bounded_cons (.function (context.className ++ "." ++ subroutine.name) _) _).mpr
    ⟨hownAllowed.counts .local, bounded_entryCode subroutine.kind (hallowed.counts .field)⟩
  exact (hbody.act henter hbounded).of_eq rfl (by simp [code, countOf, Context.numbered]) rfl

/-- The declarations of a subroutine fill its scope, in which a receiver is
already declared. -/
theorem Subroutine.runs_declared (context : Context) (subroutine : Subroutine) (start : Nat) :
    Runs
      (context.scoped (context.scope.startSubroutine.insertAll
        (subroutine.kind.receiver context.className)))
      (start + 3) subroutine.declarationCourse
      (context.scoped (subroutine.scopeAfter context.className context.scope)) []
      (declarationFaults (subroutine.kind.receiver context.className)
        (subroutine.numberedDeclarations start)) := by
  have hlevel := subroutine.isClassLevel_declared context.className
  rw [subroutine.declared_eq] at hlevel
  have hnamed : (context.scoped (context.scope.startSubroutine.insertAll
      (subroutine.kind.receiver context.className))).scope.Holds false
        (subroutine.kind.receiver context.className) :=
    (Scope.holds_startSubroutine context.scope).insertAll
      (fun one hmem => hlevel one (List.mem_append_left _ hmem))
      (allowed_receiver subroutine.kind context.className)
  have hsteps := (subroutine.declaring start).runs hnamed
    (allowed_receiver subroutine.kind context.className) (by
      rw [subroutine.map_numbered]
      exact fun one hmem => hlevel one (List.mem_append_right _ hmem))
  rw [subroutine.map_numbered] at hsteps
  rw [scopeAfter, subroutine.declared_eq, insertAll_append]
  exact hsteps

theorem Subroutine.runs_named (context : Context) (subroutine : Subroutine) (start : Nat) :
    Runs (context.scoped context.scope.startSubroutine) start
      [.act (.nameSubroutine subroutine.kind subroutine.name)]
      (context.scoped (context.scope.startSubroutine.insertAll
        (subroutine.kind.receiver context.className))) [] [] := by
  refine Runs.of_carry? start ?_ bounded_nil ?_
  · cases subroutine.kind <;> rfl
  · intro hsmall
    refine ⟨hsmall, trivial, ?_⟩
    change Scope.Small (if subroutine.kind = .method then _ else _)
    split
    · intro kind
      have hcount := hsmall kind
      have hone : 1 ≤ maxConstant := by decide
      rw [Scope.count_insert]
      cases kind with
      | argument => exact hone
      | static | field | «local» => exact hcount
    · exact hsmall

theorem Subroutine.course_eq (subroutine : Subroutine) (number : Nat) :
    subroutine.course number =
      [.opened .subroutineDec, keyword subroutine.kind.keyword] ++
        .act .startSubroutine :: ([takes (resultWord subroutine.result),
          identifier subroutine.name] ++
        .act (.nameSubroutine subroutine.kind subroutine.name) ::
        (subroutine.declarationCourse ++ subroutine.bodyCourse number)) := by
  simp [course, declarationCourse, bodyCourse, node]

theorem Subroutine.length_declarationCourse (subroutine : Subroutine) (start : Nat) :
    start + 3 + (wordsTaken subroutine.declarationCourse).length =
      subroutine.bodyStart start := by
  simp [declarationCourse, bodyStart, localStart]
  omega

/-- The declarations of a subroutine are allowed behind its receiver if they have no
faults. -/
theorem Subroutine.allowed_of_faults {subroutine : Subroutine} {className : String}
    {start : Nat} (h : declarationFaults (subroutine.kind.receiver className)
      (subroutine.numberedDeclarations start) = []) :
    Allowed (subroutine.declared className) := by
  rw [declared_eq, ← subroutine.map_numbered start]
  exact (declarationFaults_eq_nil_iff (allowed_receiver subroutine.kind className) _).mp h

theorem Subroutine.runs {context : Context} {ofClass : List Declared}
    (subroutine : Subroutine) (number start : Nat) (h : context.scope.Holds true ofClass)
    (hallowed : Allowed ofClass) (hwords : AllRegular subroutine.words) :
    Runs (context.numbered number) start (subroutine.course number)
      ((context.scoped (subroutine.scopeAfter context.className context.scope)).numbered
        (number + subroutine.body.numbers))
      (subroutine.code context.className ofClass number)
      (subroutine.faults context.className ofClass start) := by
  obtain ⟨hclass, hown⟩ := subroutine.holds_scopeAfter context.className h
  have hbodyWords : AllRegular subroutine.body.words := by
    simp only [words, List.cons_append, List.append_assoc, allRegular_cons,
      allRegular_append] at hwords
    exact hwords.2.2.2.2.2.2.2.2.1
  have hbody : declarationFaults (subroutine.kind.receiver context.className)
      (subroutine.numberedDeclarations start) = [] → Runs
      ((context.scoped (subroutine.scopeAfter context.className context.scope)).numbered number)
      (subroutine.bodyStart start) (subroutine.bodyCourse number) _ _ _ := fun hnone =>
    subroutine.runs_body number _
      (show (context.scoped (subroutine.scopeAfter context.className
        context.scope)).scope.Holds true ofClass from hclass) hallowed
      (hown (Subroutine.allowed_of_faults hnone)) (Subroutine.allowed_of_faults hnone) hbodyWords
  have hdeclared := (subroutine.runs_declared (context.numbered number) start).append
    (subroutine.length_declarationCourse start) hbody
  have hnamed := (subroutine.runs_named (context.numbered number) (start + 3)).append rfl
    fun _ => hdeclared
  have hstarted := (hnamed.prepend (start + 1) [takes (resultWord subroutine.result),
    identifier subroutine.name] [] rfl rfl bounded_nil).act (show (context.numbered number).act?
      .startSubroutine = some ((context.numbered number).scoped
        context.scope.startSubroutine, []) from rfl) bounded_nil
  exact (hstarted.prepend start [.opened .subroutineDec, keyword subroutine.kind.keyword] []
    rfl rfl bounded_nil).of_eq (subroutine.course_eq number) rfl rfl

/-- The variables in scope behind subroutines. -/
def scopeAfterAll (className : String) (scope : Scope) (subroutines : List Subroutine) : Scope :=
  subroutines.foldl (fun scope subroutine => subroutine.scopeAfter className scope) scope

theorem runs_subroutines {ofClass : List Declared} (subroutines : List Subroutine)
    (context : Context) (number start : Nat) (h : context.scope.Holds true ofClass)
    (hallowed : Allowed ofClass) (hwords : AllRegular (subroutines.flatMap Subroutine.words)) :
    Runs (context.numbered number) start (subroutinesCourse number subroutines)
      ((context.scoped (scopeAfterAll context.className context.scope subroutines)).numbered
        (number + subroutinesNumbers subroutines))
      (subroutinesCode context.className ofClass number subroutines)
      (visitAll (fun subroutine => subroutine.words.length)
        (Subroutine.faults context.className ofClass) start subroutines) := by
  induction subroutines generalizing context number start with
  | nil => exact Runs.plain start rfl bounded_nil
  | cons first others ih =>
      rw [List.flatMap_cons, allRegular_append] at hwords
      have hfirst := first.runs number start h hallowed hwords.1
      obtain ⟨hnext, _⟩ := first.holds_scopeAfter context.className h
      have hothers := ih
        (context.scoped (first.scopeAfter context.className context.scope))
        (number + first.body.numbers) (start + first.words.length) hnext hwords.2
      rw [subroutinesNumbers, ← Nat.add_assoc]
      exact hfirst.append (by simp) fun _ => hothers

theorem ClassUnit.isClassLevel_declared (unit : ClassUnit) :
    ∀ one ∈ unit.declared, one.kind.isClassLevel = true := by
  intro one hmem
  obtain ⟨declaration, _, hgroup⟩ := List.mem_flatMap.mp hmem
  obtain ⟨name, _, rfl⟩ := List.mem_map.mp hgroup
  cases declaration.kind <;> rfl

theorem allowed_nil : Allowed [] :=
  ⟨by simp, by simp [countOf]⟩

theorem ClassUnit.allowed_of_faults {unit : ClassUnit}
    (h : declarationFaults [] unit.numberedDeclarations = []) : Allowed unit.declared := by
  rw [← unit.map_numbered]
  exact (declarationFaults_eq_nil_iff allowed_nil _).mp h

/-- The steps of a unit give its program up to its first fault. -/
theorem ClassUnit.runs (unit : ClassUnit) (hwords : AllRegular unit.words) :
    ∃ last, Runs .initial 0 unit.course last unit.code unit.faults := by
  have hlevel := unit.isClassLevel_declared
  have hsubroutineWords : AllRegular (unit.subroutines.flatMap Subroutine.words) := by
    simp only [words_eq, List.cons_append, List.append_assoc, allRegular_cons,
      allRegular_append] at hwords
    exact hwords.2.2.2.2.1
  have hempty : (Context.mk unit.name .empty 0).scope.Holds true [] := Scope.holds_empty true
  have hsteps := unit.declaring.runs hempty allowed_nil (by rwa [unit.map_numbered])
  rw [unit.map_numbered] at hsteps
  have hsubroutines : declarationFaults [] unit.numberedDeclarations = [] → Runs
      ⟨unit.name, Scope.empty.insertAll unit.declared, 0⟩
      (3 + (unit.declarations.flatMap ClassVariables.words).length)
      (subroutinesCourse 0 unit.subroutines)
      ⟨unit.name, scopeAfterAll unit.name (Scope.empty.insertAll unit.declared) unit.subroutines,
        0 + subroutinesNumbers unit.subroutines⟩ unit.code
      (visitAll (fun subroutine => subroutine.words.length)
        (Subroutine.faults unit.name unit.declared)
        (3 + (unit.declarations.flatMap ClassVariables.words).length) unit.subroutines) := by
    intro hnone
    have hallowed := ClassUnit.allowed_of_faults hnone
    have hholds := (Scope.holds_empty true).insertAll hlevel hallowed
    exact runs_subroutines unit.subroutines
      ⟨unit.name, Scope.empty.insertAll unit.declared, 0⟩ 0 _ hholds hallowed hsubroutineWords
  have hwhole := (hsteps.append (by simp) hsubroutines).postpend
    [symbol .rightBrace, .closed .class] [] rfl fun _ => bounded_nil
  have hnamed := (hwhole.prepend 2 [symbol .leftBrace] [] rfl rfl bounded_nil).act
    (show Context.initial.act? (.nameClass unit.name) = some (⟨unit.name, .empty, 0⟩, []) from
      rfl) bounded_nil
  exact ⟨_, (hnamed.prepend 0 [.opened .class, keyword .class, identifier unit.name] []
    rfl rfl bounded_nil).of_eq (by simp [course, node]) (by simp) rfl⟩

theorem ClassUnit.allowed_iff (unit : ClassUnit) :
    Allowed unit.declared ↔
      (namesOf unit.declared).Nodup ∧ countOf .static unit.declared ≤ maxConstant ∧
        countOf .field unit.declared ≤ maxConstant := by
  constructor
  · intro h
    exact ⟨h.distinct, h.counts .static, h.counts .field⟩
  · rintro ⟨hdistinct, hstatics, hfields⟩
    refine ⟨hdistinct, ?_⟩
    intro kind
    cases kind with
    | static => exact hstatics
    | field => exact hfields
    | argument | «local» =>
        rw [countOf_eq_zero]
        · exact Nat.zero_le _
        · rintro one hmem hkind
          have htrue := unit.isClassLevel_declared one hmem
          rw [hkind] at htrue
          cases htrue

theorem Subroutine.faults_eq_nil_iff (subroutine : Subroutine) {className : String}
    {ofClass : List Declared} {start : Nat} (hthis : "this" ∉ subroutine.ownNames) :
    subroutine.faults className ofClass start = [] ↔
      subroutine.Permitted className ofClass := by
  rw [faults, List.append_eq_nil_iff,
    declarationFaults_eq_nil_iff (allowed_receiver subroutine.kind className),
    subroutine.map_numbered, ← subroutine.declared_eq, subroutine.allowed_iff className hthis,
    Statements.faults_eq_nil_iff]
  constructor
  · rintro ⟨⟨hdistinct, harguments, hlocals⟩, hbody⟩
    exact ⟨hdistinct, harguments, hlocals, hbody⟩
  · rintro ⟨hdistinct, harguments, hlocals, hbody⟩
    exact ⟨⟨hdistinct, harguments, hlocals⟩, hbody⟩

theorem ClassUnit.faults_eq_nil_iff {unit : ClassUnit} (hwords : AllRegular unit.words) :
    unit.faults = [] ↔ unit.Permitted := by
  have hthis : ∀ subroutine ∈ unit.subroutines, "this" ∉ subroutine.ownNames := by
    intro subroutine hmem
    apply this_notMem_ownNames
    intro word hword
    apply hwords
    rw [unit.words_eq]
    have hflat : word ∈ unit.subroutines.flatMap Subroutine.words :=
      List.mem_flatMap.mpr ⟨subroutine, hmem, hword⟩
    simp [hflat]
  have hsubroutines : visitAll (fun subroutine => subroutine.words.length)
      (Subroutine.faults unit.name unit.declared)
      (3 + (unit.declarations.flatMap ClassVariables.words).length) unit.subroutines = [] ↔
      ∀ subroutine ∈ unit.subroutines, subroutine.Permitted unit.name unit.declared :=
    visitAll_eq_nil_iff
      (fun subroutine hmem _ => subroutine.faults_eq_nil_iff (hthis subroutine hmem)) _
  rw [faults, List.append_eq_nil_iff, declarationFaults_eq_nil_iff allowed_nil,
    unit.map_numbered, List.nil_append, unit.allowed_iff, hsubroutines]
  constructor
  · rintro ⟨⟨hdistinct, hstatics, hfields⟩, hsubroutines⟩
    exact ⟨hdistinct, hstatics, hfields, hsubroutines⟩
  · rintro ⟨hdistinct, hstatics, hfields, hsubroutines⟩
    exact ⟨⟨hdistinct, hstatics, hfields⟩, hsubroutines⟩

end JackLang
