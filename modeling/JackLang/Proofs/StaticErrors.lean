import JackLang.Proofs.Compilation.FaultOrder
import JackLang.Proofs.PartialPrograms
import JackLang.Proofs.Reading.Pointing

/-! # Errors of names and limits

A source whose tokens derive from a unit fails if the unit has a fault, and the
fault that it reports is the first one: the error points at its token, and no other
fault of the unit comes in front of it.
-/

set_option autoImplicit false

namespace JackLang

def StaticError.token : StaticError → Token
  | .undeclared name => name
  | .redeclared name => name
  | .tooManyVariables _ name => name
  | .tooManyArguments first => first
  | .integerOutOfRange constant => constant
  | .stringTooLong constant => constant
  | .noCharacterCode _ constant => constant

theorem StaticError.error_fault (error : StaticError) : error.fault.error error.token = error := by
  cases error <;> rfl

namespace Context

variable {context : Context} {position : Position} {steps : List Step}

/-- The error of an action points at its token. -/
theorem token?_of_error {action : Action} {error : StaticError}
    (h : (context.perform action).error = some error) : action.token? = some error.token := by
  have hvariable : ∀ (name : Token) (code : Variable → List Instruction),
      (context.withVariable name code).error = some error → error.token = name := by
    intro name code hname
    rw [withVariable] at hname
    split at hname
    · cases hname
    · cases hname
      rfl
  cases action with
  | declare kind type name =>
      simp only [perform, declare] at h
      obtain ⟨found, _, rfl⟩ := Option.map_eq_some_iff.mp h
      cases found <;> rfl
  | require name | load name | store name =>
      rw [hvariable name _ h]
      rfl
  | integer constant =>
      simp only [perform] at h
      split at h
      · cases h
      · cases h
        rfl
  | string constant =>
      simp only [perform, string] at h
      split at h
      · cases h
        rfl
      · obtain ⟨c, _, rfl⟩ := Option.map_eq_some_iff.mp h
        rfl
  | argument callee count first =>
      simp only [perform] at h
      split at h
      · cases h
      · cases h
        rfl
  | _ => cases h

theorem blame?_bare (context : Context) (position : Position) (steps : List Step) :
    context.blame? position (steps.map Step.bare) = context.blame? position steps := by
  induction steps generalizing context position with
  | nil => rfl
  | cons step rest ih =>
      cases step with
      | opened rule | closed rule | took token => exact ih _ _
      | act action =>
          have hnumber : action.bare.number? position = action.number? position := by
            cases action <;> rfl
          simp only [List.map_cons, Step.moved, blame?, perform_moved, hnumber]
          rcases context.perform action with ⟨events, next, error⟩
          cases error with
          | none => exact ih next position
          | some error => cases error <;> rfl

/-- The failure of steps is the one that is blamed. -/
theorem failure_of_blame? {tokens : List Token} {number : Nat} {fault : Fault}
    (hpoint : AllPoint tokens position steps)
    (hblame : context.blame? position steps = some (some number, fault)) (events : List Event)
    (failure : Option Failure) :
    ∃ token, tokens[number]? = some token ∧
      (followAfter events context failure steps).failure = some (.static (fault.error token)) := by
  induction steps generalizing context position events with
  | nil => cases hblame
  | cons step rest ih =>
      cases step with
      | opened rule | closed rule | took token => exact ih hpoint hblame (_ :: events)
      | act action =>
          simp only [blame?] at hblame
          rcases heffect : context.perform action with ⟨added, next, error⟩
          rw [heffect] at hblame
          cases error with
          | none => simpa [followAfter, heffect] using ih hpoint.2 hblame (added.reverseAux events)
          | some error =>
              obtain ⟨hnumber, rfl⟩ := Prod.ext_iff.mp (Option.some.inj hblame)
              refine ⟨error.token, ?_, ?_⟩
              · exact hpoint.1 error.token number (token?_of_error (by rw [heffect])) hnumber
              · simp [followAfter, heffect, error.error_fault]

end Context

section Derives

variable {source : String} {unit : ClassUnit}

/-- A source that derives from a unit fails with the first fault of the unit. -/
theorem ClassUnit.Derives.exists_failure (h : unit.Derives source) {number : Nat}
    {fault : Fault} (hfirst : unit.faults.head? = some (number, fault)) :
    ∃ token, (TokenStream.ofSource source).toList[number]? = some token ∧
      (Transcript.ofSource source).failure = some (.static (fault.error token)) := by
  have hlast : (Token.endOfFile (TokenStream.ofSource source).length).kind = .endOfFile := rfl
  have hsteps := congrArg Reading.steps (readUnit_of_words h hlast)
  obtain ⟨_, hruns⟩ := unit.runs h.opens.regular
  have hcourse := hruns.blames ⟨0, 0⟩ rfl
  rw [hfirst] at hcourse
  -- the steps are those of the unit, apart from the places of tokens and the end of the file
  have hblame : Context.initial.blame? ⟨0, 0⟩
      (readUnit (TokenStream.ofSource source).toList).steps = some (some number, fault) := by
    rw [← Context.blame?_bare, TokenStream.toList]
    change Context.initial.blame? ⟨0, 0⟩ (Reading.bare _).steps = _
    rw [hsteps, Context.blame?_append]
    cases hcarry : Context.initial.carry? unit.course with
    | none => exact hcourse
    | some found =>
        rw [(Context.blame?_eq_none_iff _).mpr ⟨found, hcarry⟩] at hcourse
        cases hcourse
  exact Context.failure_of_blame? (allPoint_readUnit _) hblame [] _

theorem ClassUnit.Derives.getElem?_pending (h : unit.Derives source) {number : Nat}
    {token : Token} (hnumber : number < unit.words.length)
    (htoken : (TokenStream.ofSource source).toList[number]? = some token) :
    (TokenStream.ofSource source).pending[number]? = some token := by
  have hlength := congrArg List.length h
  rw [List.length_map] at hlength
  rwa [TokenStream.toList, List.getElem?_append_left (by omega)] at htoken

end Derives

theorem Fault.label_error (fault : Fault) {token : Token} (h : token.kind ≠ .endOfFile) :
    (fault.error token).label =
      ⟨token.span,
        if fault = .tooManyArguments then "found '" ++ token.lexeme ++ "'" else ""⟩ := by
  have hnote : token.foundNote = "found '" ++ token.lexeme ++ "'" := by
    rw [Token.foundNote, if_neg h]
    rfl
  cases fault with
  | tooManyArguments => rw [if_pos rfl, ← hnote, Fault.error, StaticError.label]
  | _ => rfl

theorem Precedes.refl (found : Nat × Fault) : Precedes found found :=
  .inr ⟨rfl, Nat.le_refl _⟩

section Compile

variable (source taken : String) (tree : Option String)

/-- A source whose tokens derive from a unit compiles just if the unit has no fault.
Otherwise it fails with the fault that comes first, at the token of that fault. -/
theorem compile_reports_first_fault {unit : ClassUnit} (h : unit.Derives source) :
    ((compile source (.working taken) (tree.map .working)).error = none ↔ unit.Permitted) ∧
      (unit.Permitted ↔ unit.faults = []) ∧
      ∀ error, (compile source (.working taken) (tree.map .working)).error = some error →
        ∃ number fault token,
          (number, fault) ∈ unit.faults ∧
          (∀ other ∈ unit.faults, Precedes (number, fault) other) ∧
          (TokenStream.ofSource source).pending[number]? = some token ∧
          error = .failure (.static (fault.error token)) ∧
          error.diagnostic.label = some ⟨token.span,
            if fault = .tooManyArguments then "found '" ++ token.lexeme ++ "'" else ""⟩ := by
  obtain ⟨herror, _⟩ := (Transcript.ofSource source).report_of_working taken tree
  have hpermitted := (ofSource_of_derives h).1
  have hfaults := unit.faults_eq_nil_iff h.opens.regular
  rw [compile, herror, Option.map_eq_none_iff]
  refine ⟨hpermitted, hfaults.symm, ?_⟩
  intro error hreported
  obtain ⟨failure, hfailure, rfl⟩ := Option.map_eq_some_iff.mp hreported
  have hne : unit.faults ≠ [] := by
    intro hnil
    rw [hpermitted.mpr (hfaults.mp hnil)] at hfailure
    cases hfailure
  obtain ⟨⟨number, fault⟩, others, hlist⟩ := List.exists_cons_of_ne_nil hne
  have horder := unit.inOrder
  rw [hlist] at horder
  obtain ⟨token, htoken, hfound⟩ := h.exists_failure (by rw [hlist]; rfl)
  rw [hfailure] at hfound
  cases hfound
  have hpending := h.getElem?_pending (horder.bounds _ (.head others)).2 htoken
  have hregular := TokenStream.regular_of_mem (List.mem_of_getElem? hpending)
  refine ⟨number, fault, token, ?_, ?_, hpending, rfl, ?_⟩
  · rw [hlist]
    exact .head others
  · rw [hlist]
    rintro other (_ | ⟨_, hmem⟩)
    · exact Precedes.refl _
    · exact (List.pairwise_cons.mp horder.sorted).1 other hmem
  · exact congrArg some (fault.label_error hregular.kind_ne)

end Compile

def twiceSource : String :=
  "class Main \x7b function void main() \x7b var int x, x; let y = 1; return; \x7d \x7d"

def twiceUnit : ClassUnit where
  name := "Main"
  declarations := []
  subroutines :=
    [{ kind := .function
       result := none
       name := "main"
       parameters := []
       locals := [⟨.int, "x", ["x"]⟩]
       body := .cons (.assign "y" (.single (.integer "1"))) (.cons .returnNothing .nil) }]

theorem derives_twice : twiceUnit.Derives twiceSource := by
  have hwords : twiceUnit.words =
      [.keyword .class, .identifier "Main", .symbol .leftBrace, .keyword .function,
        .keyword .void, .identifier "main", .symbol .leftParen, .symbol .rightParen,
        .symbol .leftBrace, .keyword .var, .keyword .int, .identifier "x", .symbol .comma,
        .identifier "x", .symbol .semicolon, .keyword .let, .identifier "y", .symbol .equal,
        ⟨.integerConstant, "1"⟩, .symbol .semicolon, .keyword .return, .symbol .semicolon,
        .symbol .rightBrace, .symbol .rightBrace] := by
    rw [ClassUnit.words_eq]
    simp [twiceUnit, Subroutine.words, localWords, VariableGroup.words, moreNameWords,
      parameterWords, resultWord, SubroutineKind.keyword, TypeName.word]
  rw [ClassUnit.Derives, hwords]
  decide +kernel

theorem faults_twice : twiceUnit.faults = [(13, .redeclared), (16, .undeclared)] := by
  simp [twiceUnit, ClassUnit.faults, ClassUnit.numberedDeclarations, visitAll,
    Subroutine.faults, Subroutine.numberedDeclarations, SubroutineKind.receiver,
    numberedParameters, VariableGroup.numbered, declarationFaults, Subroutine.localStart,
    Subroutine.bodyStart, parameterWords, localWords, VariableGroup.words, moreNameWords,
    Statements.faults, Statement.faults, Expression.faults, Term.faults,
    Surroundings.nameFaults, Surroundings.Declares, Subroutine.declared,
    VariableGroup.declared, ClassUnit.declared, countOf, maxConstant]

theorem compile_reports_first_fault_of_twice :
    twiceUnit.Derives twiceSource ∧ twiceUnit.faults = [(13, .redeclared), (16, .undeclared)] ∧
      ∃ error, (compile twiceSource (.working "") none).error = some error ∧
        ∃ number fault token,
          (number, fault) ∈ twiceUnit.faults ∧
          (∀ other ∈ twiceUnit.faults, Precedes (number, fault) other) ∧
          (TokenStream.ofSource twiceSource).pending[number]? = some token ∧
          error = .failure (.static (fault.error token)) ∧
          error.diagnostic.label = some ⟨token.span,
            if fault = .tooManyArguments then "found '" ++ token.lexeme ++ "'" else ""⟩ := by
  obtain ⟨hnone, hfaults, hreports⟩ :=
    compile_reports_first_fault twiceSource "" none derives_twice
  refine ⟨derives_twice, faults_twice, ?_⟩
  obtain ⟨error, herror⟩ := Option.ne_none_iff_exists'.mp fun h => by
    have hnil := hfaults.mp (hnone.mp h)
    rw [faults_twice] at hnil
    cases hnil
  exact ⟨error, herror, hreports error herror⟩

end JackLang
