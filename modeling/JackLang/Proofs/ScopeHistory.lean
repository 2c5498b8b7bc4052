import JackLang.Proofs.Scope
import Mathlib.Data.List.DropRight

/-! # Scopes and their history

A scope is changed by calls, which declare variables and start subroutines. Its answers
to all of them, and to every question in between, are those of the history of the calls so
far: of the declarations that were accepted, and for a subroutine of those since it started.
-/

set_option autoImplicit false

namespace JackLang

/-- A call that changes a scope. -/
inductive ScopeCall where
  | declare (one : Declared)
  | startSubroutine
deriving DecidableEq, Repr

/-- What is told of a declaration. It is accepted if there is nothing against it. -/
abbrev ScopeAnswer := Option DeclarationError

/-- Calls with their answers, in the order in which they were made. -/
abbrev ScopeHistory := List (ScopeCall × ScopeAnswer)

namespace ScopeCall

def isClassLevel : ScopeCall → Bool
  | .declare one => one.kind.isClassLevel
  | .startSubroutine => false

def run (scope : Scope) : ScopeCall → Scope × ScopeAnswer
  | .declare one => scope.declare one.name one.type one.kind
  | .startSubroutine => (scope.startSubroutine, none)

end ScopeCall

/-- Makes calls one after the other, and gives the scope behind them and their answers. -/
def Scope.runAll (scope : Scope) : List ScopeCall → Scope × ScopeHistory
  | [] => (scope, [])
  | call :: rest =>
      let (next, answer) := call.run scope
      let (last, history) := next.runAll rest
      (last, (call, answer) :: history)

namespace ScopeHistory

def accepted? : ScopeCall × ScopeAnswer → Option Declared
  | (.declare one, none) => some one
  | _ => none

/-- The calls that count on a level: on that of the class all of them, and on that of the
subroutine those since it was started. -/
def onLevel (history : ScopeHistory) (ofClass : Bool) : ScopeHistory :=
  if ofClass then history else history.rtakeWhile fun entry => entry.1 ≠ .startSubroutine

/-- The declarations that are in force on a level, in their order. -/
def declared (history : ScopeHistory) (ofClass : Bool) : List Declared :=
  ((history.onLevel ofClass).filterMap accepted?).filter fun one =>
    one.kind.isClassLevel = ofClass

end ScopeHistory

namespace Scope

/-- All that a scope tells of a name. -/
structure Tells (scope : Scope) (name : String) (found : Option Variable) : Prop where
  lookup : scope.lookup? name = found
  kind : scope.kindOf? name = found.map Variable.kind
  type : scope.typeOf? name = found.map Variable.type
  index : scope.indexOf? name = found.map Variable.index

/-- On the level of a kind, the name has the place among the variables of the kind. -/
def Places (scope : Scope) (kind : VariableKind) (index : Nat) (name : String) : Prop :=
  ∃ type, (scope.names kind)[name]? = some ⟨type, kind, index⟩

/-- The answers of a scope are those of a history. -/
structure Recounts (scope : Scope) (history : ScopeHistory) : Prop where
  /-- A name is declared once on its level, whatever its kind, and a kind can be full. -/
  answers : ∀ one : Declared, ((ScopeCall.declare one).run scope).2 =
    if one.name ∈ namesOf (history.declared one.kind.isClassLevel) then some .duplicate
    else if countOf one.kind (history.declared one.kind.isClassLevel) = maxConstant then
      some .tooMany
    else none
  /-- A call that is not accepted leaves no trace in the scope and later answers. -/
  refused : ∀ (call : ScopeCall) (later : List ScopeCall), (call.run scope).2 ≠ none →
    (call.run scope).1.runAll later = scope.runAll later
  /-- A variable of the subroutine has the place behind those of its kind. -/
  own : ∀ {before after : List Declared} {one : Declared},
    history.declared false = before ++ one :: after →
      scope.Tells one.name (some ⟨one.type, one.kind, countOf one.kind before⟩)
  /-- So has one of the class, unless a variable of the subroutine hides it. -/
  ofClass : ∀ {before after : List Declared} {one : Declared},
    history.declared true = before ++ one :: after →
      one.name ∉ namesOf (history.declared false) →
        scope.Tells one.name (some ⟨one.type, one.kind, countOf one.kind before⟩)
  unknown : ∀ name, name ∉ namesOf (history.declared false) →
    name ∉ namesOf (history.declared true) → scope.Tells name none
  counts : ∀ kind, scope.count kind = countOf kind (history.declared kind.isClassLevel)
  small : ∀ kind, scope.count kind ≤ maxConstant
  /-- The places of a kind are those below the number of its variables, each taken once. -/
  places : ∀ kind index, index < scope.count kind → ∃! name, scope.Places kind index name
  placed : ∀ kind index name, scope.Places kind index name → index < scope.count kind
  /-- Calls for the subroutine leave the variables of the class as they are. -/
  classKept : ∀ call : ScopeCall, call.isClassLevel = false →
    (∀ kind, kind.isClassLevel = true → (call.run scope).1.count kind = scope.count kind) ∧
      ∀ name : String, (call.run scope).1.ofClass[name]? = scope.ofClass[name]?

theorem tells_of_lookup? {scope : Scope} {name : String} {found : Option Variable}
    (h : scope.lookup? name = found) : scope.Tells name found := by
  constructor <;> simp [kindOf?, typeOf?, indexOf?, h]

end Scope

/-- A declaration among others with distinct names stands for the place behind those of
its kind in front of it. -/
theorem variableOf?_of_split {before after : List Declared} {one : Declared}
    (h : (namesOf (before ++ one :: after)).Nodup) :
    variableOf? (before ++ one :: after) one.name =
      some ⟨one.type, one.kind, countOf one.kind before⟩ := by
  induction before with
  | nil => simp [variableOf?, countOf]
  | cons first others ih =>
      rw [List.cons_append, namesOf, List.map_cons, List.nodup_cons] at h
      have hne : first.name ≠ one.name := fun hname => h.1 (by simp [hname])
      rw [List.cons_append, variableOf?, if_neg hne, ih h.2, Option.map_some]
      by_cases hkind : one.kind = first.kind
      · simp [countOf, hkind]
      · have hother : first.kind ≠ one.kind := fun hsame => hkind hsame.symm
        simp [countOf, hkind, hother]

/-- The places of a kind are taken one by one. -/
theorem exists_variableOf?_index {declared : List Declared} (h : Allowed declared)
    {kind : VariableKind} {index : Nat} (hindex : index < countOf kind declared) :
    ∃ name type, variableOf? declared name = some ⟨type, kind, index⟩ := by
  induction declared using List.reverseRecOn with
  | nil => cases hindex
  | append_singleton others last ih =>
      obtain ⟨hothers, hnew, _⟩ := allowed_append_singleton.mp h
      by_cases hless : index < countOf kind others
      · obtain ⟨name, type, hfound⟩ := ih hothers hless
        exact ⟨name, type, by rw [variableOf?_append, hfound, Option.some_or]⟩
      · -- the last place is that of the last declaration
        have hlast : last.kind = kind ∧ index = countOf kind others := by
          rw [countOf_append, countOf, countOf, List.countP_singleton] at hindex
          rw [countOf] at hless ⊢
          split at hindex
          · rename_i hkind
            exact ⟨of_decide_eq_true hkind, by omega⟩
          · omega
        obtain ⟨rfl, rfl⟩ := hlast
        refine ⟨last.name, last.type, ?_⟩
        rw [variableOf?_append, variableOf?_eq_none_iff.mpr hnew, Option.none_or, if_pos rfl]

namespace ScopeHistory

variable (history : ScopeHistory) (ofClass : Bool)

theorem declared_accepted (one : Declared) :
    declared (history ++ [(.declare one, none)]) ofClass =
      history.declared ofClass ++ if one.kind.isClassLevel = ofClass then [one] else [] := by
  have hlevel : onLevel (history ++ [(.declare one, none)]) ofClass =
      history.onLevel ofClass ++ [(.declare one, none)] := by
    cases ofClass with
    | true => rfl
    | false => exact List.rtakeWhile_concat_pos _ _ _ (by simp)
  rw [declared, hlevel, List.filterMap_append, List.filter_append, declared]
  by_cases hkind : one.kind.isClassLevel = ofClass <;> simp [accepted?, hkind]

theorem declared_refused (one : Declared) (error : DeclarationError) :
    declared (history ++ [(.declare one, some error)]) ofClass = history.declared ofClass := by
  have hlevel : onLevel (history ++ [(.declare one, some error)]) ofClass =
      history.onLevel ofClass ++ [(.declare one, some error)] := by
    cases ofClass with
    | true => rfl
    | false => exact List.rtakeWhile_concat_pos _ _ _ (by simp)
  rw [declared, hlevel, List.filterMap_append, List.filter_append, declared]
  simp [accepted?]

theorem declared_started (answer : ScopeAnswer) :
    declared (history ++ [(.startSubroutine, answer)]) ofClass =
      if ofClass then history.declared true else [] := by
  cases ofClass with
  | true => simp [declared, onLevel, accepted?]
  | false =>
      rw [declared, onLevel, if_neg Bool.false_ne_true,
        List.rtakeWhile_concat_neg _ _ _ (by simp)]
      rfl

end ScopeHistory

namespace Scope

variable {scope : Scope} {history : ScopeHistory}

theorem runAll_append (scope : Scope) (calls : List ScopeCall) (call : ScopeCall) :
    scope.runAll (calls ++ [call]) =
      ((call.run (scope.runAll calls).1).1,
        (scope.runAll calls).2 ++ [(call, (call.run (scope.runAll calls).1).2)]) := by
  induction calls generalizing scope with
  | nil => rfl
  | cons first rest ih => simp [runAll, ih]

/-- The scope holds the declarations that are in force, which the language allows. -/
structure Remembers (scope : Scope) (history : ScopeHistory) : Prop where
  holds : ∀ ofClass, scope.Holds ofClass (history.declared ofClass)
  allowed : ∀ ofClass, Allowed (history.declared ofClass)

theorem remembers_empty : Scope.empty.Remembers [] := by
  have hnone : ∀ ofClass, ScopeHistory.declared [] ofClass = [] := by
    intro ofClass
    cases ofClass <;> rfl
  constructor
  · intro ofClass
    rw [hnone]
    exact holds_empty ofClass
  · intro ofClass
    rw [hnone]
    exact ⟨List.nodup_nil, fun kind => Nat.zero_le _⟩

namespace Remembers

theorem getElem?_names (h : scope.Remembers history) (kind : VariableKind) (name : String) :
    (scope.names kind)[name]? = variableOf? (history.declared kind.isClassLevel) name :=
  (h.holds kind.isClassLevel).names name

theorem count_eq (h : scope.Remembers history) (kind : VariableKind) :
    scope.count kind = countOf kind (history.declared kind.isClassLevel) :=
  (h.holds kind.isClassLevel).counts kind rfl

/-- A declaration is refused for its name, or else because its kind is full. -/
theorem declare_eq (h : scope.Remembers history) (one : Declared) :
    (ScopeCall.declare one).run scope =
      if one.name ∈ namesOf (history.declared one.kind.isClassLevel) then
        (scope, some .duplicate)
      else if countOf one.kind (history.declared one.kind.isClassLevel) = maxConstant then
        (scope, some .tooMany)
      else (scope.insert one.name one.type one.kind, none) := by
  have hname : (scope.names one.kind).contains one.name = true ↔
      one.name ∈ namesOf (history.declared one.kind.isClassLevel) := by
    rw [Std.HashMap.contains_eq_isSome_getElem?, h.getElem?_names, Option.isSome_iff_ne_none,
      ne_eq, variableOf?_eq_none_iff, not_not]
  have hcount := (h.allowed one.kind.isClassLevel).counts one.kind
  rw [ScopeCall.run, declare, h.count_eq]
  simp only [hname]
  split
  · rfl
  · split
    · rename_i hless
      rw [if_neg (Nat.ne_of_lt hless)]
    · rename_i hless
      rw [if_pos (by omega)]

theorem refuse (h : scope.Remembers history) (one : Declared) (error : DeclarationError) :
    scope.Remembers (history ++ [(.declare one, some error)]) := by
  constructor <;> intro ofClass <;> rw [ScopeHistory.declared_refused]
  · exact h.holds ofClass
  · exact h.allowed ofClass

theorem accept (h : scope.Remembers history) {one : Declared}
    (hnew : one.name ∉ namesOf (history.declared one.kind.isClassLevel))
    (hroom : countOf one.kind (history.declared one.kind.isClassLevel) < maxConstant) :
    (scope.insert one.name one.type one.kind).Remembers (history ++ [(.declare one, none)]) := by
  constructor <;> intro ofClass <;> rw [ScopeHistory.declared_accepted] <;>
    by_cases hlevel : one.kind.isClassLevel = ofClass
  · subst hlevel
    rw [if_pos rfl]
    exact (h.holds _).insert hnew
  · rw [if_neg hlevel, List.append_nil]
    exact (h.holds ofClass).insert_other hlevel
  · subst hlevel
    rw [if_pos rfl]
    exact allowed_append_singleton.mpr ⟨h.allowed _, hnew, hroom⟩
  · rw [if_neg hlevel, List.append_nil]
    exact h.allowed ofClass

theorem startSubroutine (h : scope.Remembers history) :
    scope.startSubroutine.Remembers (history ++ [(.startSubroutine, none)]) := by
  constructor <;> intro ofClass <;> rw [ScopeHistory.declared_started] <;> cases ofClass
  · exact holds_startSubroutine scope
  · exact (h.holds true).startSubroutine
  · exact ⟨List.nodup_nil, fun kind => Nat.zero_le _⟩
  · exact h.allowed true

/-- Each call keeps the scope in step with the history. -/
theorem run (h : scope.Remembers history) (call : ScopeCall) :
    (call.run scope).1.Remembers (history ++ [(call, (call.run scope).2)]) := by
  cases call with
  | startSubroutine => exact h.startSubroutine
  | declare one =>
      rw [h.declare_eq]
      split
      · exact h.refuse one .duplicate
      · rename_i hnew
        split
        · exact h.refuse one .tooMany
        · rename_i hfull
          have hcount := (h.allowed one.kind.isClassLevel).counts one.kind
          exact h.accept hnew (Nat.lt_of_le_of_ne hcount hfull)

end Remembers

theorem remembers_runAll (calls : List ScopeCall) :
    (Scope.empty.runAll calls).1.Remembers (Scope.empty.runAll calls).2 := by
  induction calls using List.reverseRecOn with
  | nil => exact remembers_empty
  | append_singleton calls call ih =>
      rw [runAll_append]
      exact ih.run call

namespace Remembers

theorem eq_of_refused (h : scope.Remembers history) {call : ScopeCall}
    (hrefused : (call.run scope).2 ≠ none) : (call.run scope).1 = scope := by
  cases call with
  | startSubroutine => exact absurd rfl hrefused
  | declare one =>
      rw [h.declare_eq] at hrefused ⊢
      split
      · rfl
      · rename_i hnew
        rw [if_neg hnew] at hrefused
        split
        · rfl
        · rename_i hroom
          rw [if_neg hroom] at hrefused
          exact absurd rfl hrefused

theorem lookup?_eq (h : scope.Remembers history) (name : String) :
    scope.lookup? name = (variableOf? (history.declared false) name).or
      (variableOf? (history.declared true) name) := by
  rw [lookup?, ← (h.holds false).names, ← (h.holds true).names]
  rfl

theorem places_iff (h : scope.Remembers history) {kind : VariableKind} {index : Nat}
    {name : String} : scope.Places kind index name ↔
      ∃ type, variableOf? (history.declared kind.isClassLevel) name =
        some ⟨type, kind, index⟩ := by
  simp only [Places, h.getElem?_names]

end Remembers

end Scope

theorem ScopeCall.ofClass_run {call : ScopeCall} (h : call.isClassLevel = false)
    (scope : Scope) :
    (∀ kind, kind.isClassLevel = true → (call.run scope).1.count kind = scope.count kind) ∧
      (call.run scope).1.ofClass = scope.ofClass := by
  cases call with
  | startSubroutine =>
      refine ⟨fun kind hkind => ?_, rfl⟩
      cases kind with
      | static | field => rfl
      | argument | «local» => cases hkind
  | declare one =>
      obtain ⟨kind, type, name⟩ := one
      rw [run, Scope.declare]
      split
      · exact ⟨fun _ _ => rfl, rfl⟩
      · split
        · refine ⟨fun other hother => ?_, ?_⟩
          · have hne : kind ≠ other := by
              rintro rfl
              exact Bool.false_ne_true (h.symm.trans hother)
            simp [Scope.count_insert, hne]
          · cases kind with
            | static | field => cases h
            | argument | «local» => rfl
        · exact ⟨fun _ _ => rfl, rfl⟩

/-- Whatever calls have been made on a scope, it answers every further one, and every
question about a name or a number of variables, from the history of these calls. -/
theorem scope_recounts_history (calls : List ScopeCall) :
    (Scope.empty.runAll calls).1.Recounts (Scope.empty.runAll calls).2 := by
  have h := Scope.remembers_runAll calls
  generalize (Scope.empty.runAll calls).1 = scope at h ⊢
  generalize (Scope.empty.runAll calls).2 = history at h ⊢
  constructor
  case answers =>
    intro one
    rw [h.declare_eq]
    split
    · rfl
    · split <;> rfl
  case refused =>
    intro call later hrefused
    rw [h.eq_of_refused hrefused]
  case own =>
    intro before after one hsplit
    apply Scope.tells_of_lookup?
    have hdistinct := (h.allowed false).distinct
    rw [hsplit] at hdistinct
    rw [h.lookup?_eq, hsplit, variableOf?_of_split hdistinct, Option.some_or]
  case ofClass =>
    intro before after one hsplit hhidden
    apply Scope.tells_of_lookup?
    have hdistinct := (h.allowed true).distinct
    rw [hsplit] at hdistinct
    rw [h.lookup?_eq, variableOf?_eq_none_iff.mpr hhidden, Option.none_or, hsplit,
      variableOf?_of_split hdistinct]
  case unknown =>
    intro name hown hclass
    apply Scope.tells_of_lookup?
    rw [h.lookup?_eq, variableOf?_eq_none_iff.mpr hown, variableOf?_eq_none_iff.mpr hclass,
      Option.none_or]
  case counts => exact h.count_eq
  case small =>
    intro kind
    rw [h.count_eq]
    exact (h.allowed kind.isClassLevel).counts kind
  case places =>
    intro kind index hindex
    rw [h.count_eq] at hindex
    obtain ⟨name, type, hfound⟩ := exists_variableOf?_index (h.allowed _) hindex
    refine ⟨name, h.places_iff.mpr ⟨type, hfound⟩, ?_⟩
    intro other hother
    obtain ⟨otherType, hplace⟩ := h.places_iff.mp hother
    exact variableOf?_inj hplace hfound rfl rfl
  case placed =>
    intro kind index name hplace
    obtain ⟨type, hfound⟩ := h.places_iff.mp hplace
    rw [h.count_eq]
    exact index_lt_countOf hfound
  case classKept =>
    intro call hcall
    obtain ⟨hcounts, hnames⟩ := ScopeCall.ofClass_run hcall scope
    exact ⟨hcounts, fun name => by rw [hnames]⟩

end JackLang
