import JackLang.Compilation.Code

/-! # Scopes and declarations

A scope holds the declarations made so far: a name stands for the variable that
its declaration gives it, and the variables of each kind are counted. Declaring
a new name keeps it so.
-/

set_option autoImplicit false

namespace JackLang

abbrev namesOf (declared : List Declared) : List String := declared.map Declared.name

def countOf (kind : VariableKind) (declared : List Declared) : Nat :=
  declared.countP fun one => one.kind = kind

theorem countOf_append (kind : VariableKind) (first second : List Declared) :
    countOf kind (first ++ second) = countOf kind first + countOf kind second :=
  List.countP_append

theorem variableOf?_eq_none_iff {declared : List Declared} {name : String} :
    variableOf? declared name = none ↔ name ∉ namesOf declared := by
  induction declared with
  | nil => simp [variableOf?]
  | cons first others ih =>
      by_cases hname : first.name = name
      · simp [variableOf?, hname]
      · have hne : name ≠ first.name := fun h => hname h.symm
        simp [variableOf?, hname, hne, ih]

theorem exists_declared_of_variableOf? {declared : List Declared} {name : String}
    {found : Variable} (h : variableOf? declared name = some found) :
    ∃ one ∈ declared, one.kind = found.kind ∧ one.type = found.type := by
  induction declared generalizing found with
  | nil => cases h
  | cons first others ih =>
      rw [variableOf?] at h
      split at h
      · cases h
        exact ⟨first, .head others, rfl, rfl⟩
      · obtain ⟨other, hother, hfound⟩ := Option.map_eq_some_iff.mp h
        obtain ⟨one, hmem, hkind, htype⟩ := ih hother
        refine ⟨one, .tail first hmem, ?_⟩
        rw [hkind, htype, ← hfound]
        split <;> exact ⟨rfl, rfl⟩

theorem exists_kind_of_variableOf? {declared : List Declared} {name : String}
    {found : Variable} (h : variableOf? declared name = some found) :
    ∃ one ∈ declared, one.kind = found.kind := by
  obtain ⟨one, hmem, hkind, _⟩ := exists_declared_of_variableOf? h
  exact ⟨one, hmem, hkind⟩

theorem exists_variableOf? {declared : List Declared} {name : String}
    (h : name ∈ namesOf declared) : ∃ found, variableOf? declared name = some found := by
  cases hfound : variableOf? declared name with
  | some found => exact ⟨found, rfl⟩
  | none => exact absurd h (variableOf?_eq_none_iff.mp hfound)

/-- Behind a declaration of another name, a variable moves on by one place among
those of the kind of the declaration. -/
theorem variableOf?_cons_of_ne {first : Declared} {others : List Declared} {name : String}
    {found : Variable} (h : variableOf? (first :: others) name = some found)
    (hname : first.name ≠ name) :
    ∃ other, variableOf? others name = some other ∧ found.kind = other.kind ∧
      found.index = other.index + if other.kind = first.kind then 1 else 0 := by
  rw [variableOf?, if_neg hname] at h
  obtain ⟨other, hother, hfound⟩ := Option.map_eq_some_iff.mp h
  refine ⟨other, hother, ?_⟩
  by_cases hkind : other.kind = first.kind
  · rw [if_pos hkind] at hfound ⊢
    exact ⟨by rw [← hfound], by rw [← hfound]⟩
  · rw [if_neg hkind] at hfound ⊢
    exact ⟨by rw [hfound], by rw [hfound, Nat.add_zero]⟩

theorem variableOf?_cons_self {first : Declared} {others : List Declared} {found : Variable}
    (h : variableOf? (first :: others) first.name = some found) :
    found.kind = first.kind ∧ found.index = 0 := by
  rw [variableOf?, if_pos rfl] at h
  cases h
  exact ⟨rfl, rfl⟩

theorem index_lt_countOf {declared : List Declared} {name : String} {found : Variable}
    (h : variableOf? declared name = some found) : found.index < countOf found.kind declared := by
  induction declared generalizing found with
  | nil => cases h
  | cons first others ih =>
      by_cases hname : first.name = name
      · subst hname
        obtain ⟨hkind, hindex⟩ := variableOf?_cons_self h
        rw [hkind, hindex, countOf, List.countP_cons_of_pos (by simp)]
        exact Nat.succ_pos _
      · obtain ⟨other, hother, hkind, hindex⟩ := variableOf?_cons_of_ne h hname
        have hless := ih hother
        rw [hkind, hindex, countOf, List.countP_cons]
        rw [countOf] at hless
        by_cases hsame : other.kind = first.kind
        · simp only [hsame, decide_true, if_true] at hless ⊢
          omega
        · rw [if_neg hsame]
          omega

/-- Different names of declarations stand for different places. -/
theorem variableOf?_inj {declared : List Declared} {name other : String}
    {first second : Variable} (h : variableOf? declared name = some first)
    (hother : variableOf? declared other = some second) (hkind : first.kind = second.kind)
    (hindex : first.index = second.index) : name = other := by
  induction declared generalizing first second with
  | nil => cases h
  | cons declaration others ih =>
      by_cases hname : declaration.name = name
      · by_cases hnext : declaration.name = other
        · rw [← hname, ← hnext]
        · subst hname
          obtain ⟨hself, hzero⟩ := variableOf?_cons_self h
          obtain ⟨found, _, hfound, hplace⟩ := variableOf?_cons_of_ne hother hnext
          rw [if_pos (by rw [← hfound, ← hkind, hself])] at hplace
          omega
      · by_cases hnext : declaration.name = other
        · subst hnext
          obtain ⟨hself, hzero⟩ := variableOf?_cons_self hother
          obtain ⟨found, _, hfound, hplace⟩ := variableOf?_cons_of_ne h hname
          rw [if_pos (by rw [← hfound, hkind, hself])] at hplace
          omega
        · obtain ⟨one, hone, honeKind, honePlace⟩ := variableOf?_cons_of_ne h hname
          obtain ⟨two, htwo, htwoKind, htwoPlace⟩ := variableOf?_cons_of_ne hother hnext
          have hsame : one.kind = two.kind := by rw [← honeKind, hkind, htwoKind]
          rw [hsame] at honePlace
          exact ih hone htwo hsame (by omega)

/-- A declaration at the end of others stands behind those of its kind, unless
its name is already declared. -/
theorem variableOf?_append (declared : List Declared) (last : Declared) (name : String) :
    variableOf? (declared ++ [last]) name =
      (variableOf? declared name).or
        (if last.name = name then some ⟨last.type, last.kind, countOf last.kind declared⟩
          else none) := by
  induction declared with
  | nil => simp [variableOf?, countOf]
  | cons first others ih =>
      rw [List.cons_append, variableOf?, variableOf?, ih]
      by_cases hname : first.name = name
      · simp [hname]
      · cases hfound : variableOf? others name with
        | some found => simp [hname]
        | none =>
            by_cases hlast : last.name = name
            · by_cases hkind : last.kind = first.kind
              · simp [hname, hlast, hkind, countOf]
              · have hne : first.kind ≠ last.kind := fun h => hkind h.symm
                simp [hname, hlast, hkind, hne, countOf]
            · simp [hname, hlast]

namespace Scope

/-- The names of the class, or else those of the subroutine. -/
def level (scope : Scope) (ofClass : Bool) : Names :=
  if ofClass then scope.ofClass else scope.ofSubroutine

/-- On one of its levels, the scope holds just the given declarations. -/
structure Holds (scope : Scope) (ofClass : Bool) (declared : List Declared) : Prop where
  names : ∀ name, (scope.level ofClass)[name]? = variableOf? declared name
  counts : ∀ kind, kind.isClassLevel = ofClass → scope.count kind = countOf kind declared

theorem holds_empty (ofClass : Bool) : Scope.empty.Holds ofClass [] := by
  constructor
  · intro name
    cases ofClass <;> simp [level, Scope.empty, variableOf?]
  · intro kind hkind
    cases kind <;> rfl

variable {scope : Scope} {declared : List Declared} {last : Declared} {ofClass : Bool}

/-- A subroutine starts without declarations of its own. -/
theorem holds_startSubroutine (scope : Scope) : scope.startSubroutine.Holds false [] := by
  constructor
  · intro name
    simp [level, startSubroutine, variableOf?]
  · intro kind hkind
    cases kind with
    | static | field => cases hkind
    | argument | «local» => rfl

theorem Holds.startSubroutine (h : scope.Holds true declared) :
    scope.startSubroutine.Holds true declared := by
  refine ⟨h.names, ?_⟩
  intro kind hkind
  have hcount := h.counts kind hkind
  cases kind with
  | static | field => exact hcount
  | argument | «local» => cases hkind

/-- What a name in scope is looked up as once a new declaration is made. -/
theorem getElem?_insert {names : Names} (h : ∀ name, names[name]? = variableOf? declared name)
    (hnew : last.name ∉ namesOf declared) (name : String) :
    (names.insert last.name ⟨last.type, last.kind, countOf last.kind declared⟩)[name]? =
      variableOf? (declared ++ [last]) name := by
  rw [Std.HashMap.getElem?_insert, variableOf?_append, h]
  by_cases hname : last.name = name
  · rw [← hname, variableOf?_eq_none_iff.mpr hnew]
    simp
  · simp [hname]

theorem count_insert (scope : Scope) (name type : String) (kind other : VariableKind) :
    (scope.insert name type kind).count other =
      scope.count other + if kind = other then 1 else 0 := by
  cases kind <;> cases other <;> rfl

theorem level_insert (scope : Scope) (name type : String) (kind : VariableKind) :
    (scope.insert name type kind).level kind.isClassLevel =
      (scope.level kind.isClassLevel).insert name ⟨type, kind, scope.count kind⟩ := by
  cases kind <;> rfl

/-- A new variable joins the declarations of its level. -/
theorem Holds.insert (h : scope.Holds last.kind.isClassLevel declared)
    (hnew : last.name ∉ namesOf declared) :
    (scope.insert last.name last.type last.kind).Holds last.kind.isClassLevel
      (declared ++ [last]) := by
  constructor
  · intro name
    rw [level_insert, h.counts last.kind rfl]
    exact getElem?_insert h.names hnew name
  · intro kind hkind
    rw [count_insert, countOf_append, h.counts kind hkind]
    simp [countOf, List.countP_cons]

/-- A variable of one level does not change the other one. -/
theorem Holds.insert_other (h : scope.Holds ofClass declared)
    (hlevel : last.kind.isClassLevel ≠ ofClass) :
    (scope.insert last.name last.type last.kind).Holds ofClass declared := by
  obtain ⟨kind, type, name⟩ := last
  constructor
  · intro name
    rw [← h.names]
    cases kind <;> cases ofClass <;> first | rfl | exact absurd rfl hlevel
  · intro other hother
    have hne : kind ≠ other := by
      rintro rfl
      exact hlevel hother
    rw [count_insert, h.counts other hother]
    simp [hne]

/-- A name is looked up among the declarations of the subroutine and then among
those of the class. -/
theorem lookup?_of_holds {ofSubroutine : List Declared} (h : scope.Holds true declared)
    (hown : scope.Holds false ofSubroutine) (className name : String) :
    scope.lookup? name = Surroundings.resolve? ⟨className, declared, ofSubroutine⟩ name := by
  have hclass := h.names name
  have hsubroutine := hown.names name
  simp only [level, if_true, Bool.false_eq_true, if_false] at hclass hsubroutine
  rw [lookup?, hclass, hsubroutine, Surroundings.resolve?]
  cases variableOf? ofSubroutine name <;> rfl

/-- Declares variables one after the other, whatever is declared. -/
def insertAll (scope : Scope) : List Declared → Scope
  | [] => scope
  | first :: others => (scope.insert first.name first.type first.kind).insertAll others

end Scope

/-- Declarations of one level that the language allows: their names are
distinct, and there are not too many of a kind. -/
structure Allowed (declared : List Declared) : Prop where
  distinct : (namesOf declared).Nodup
  counts : ∀ kind, countOf kind declared ≤ maxConstant

theorem Allowed.of_append {first second : List Declared} (h : Allowed (first ++ second)) :
    Allowed first := by
  constructor
  · have hdistinct := h.distinct
    rw [namesOf, List.map_append] at hdistinct
    exact (List.nodup_append.mp hdistinct).1
  · intro kind
    have hcount := h.counts kind
    rw [countOf_append] at hcount
    omega

theorem allowed_append_singleton {declared : List Declared} {last : Declared} :
    Allowed (declared ++ [last]) ↔
      Allowed declared ∧ last.name ∉ namesOf declared ∧
        countOf last.kind declared < maxConstant := by
  constructor
  · intro h
    have hdistinct := h.distinct
    have hcount := h.counts last.kind
    rw [countOf_append] at hcount
    simp only [countOf, List.countP_singleton, decide_true, if_true] at hcount
    simp only [namesOf, List.map_append, List.nodup_append, List.map_cons, List.map_nil,
      List.mem_singleton] at hdistinct
    refine ⟨h.of_append, ?_, by simp only [countOf]; omega⟩
    intro hmem
    exact hdistinct.2.2 last.name hmem last.name rfl rfl
  · rintro ⟨h, hnew, hcount⟩
    constructor
    · simp only [namesOf, List.map_append, List.nodup_append, List.map_cons, List.map_nil,
        List.mem_singleton]
      refine ⟨h.distinct, by simp, ?_⟩
      rintro name hmem _ rfl rfl
      exact hnew hmem
    · intro kind
      have hkind := h.counts kind
      rw [countOf_append]
      by_cases hlast : last.kind = kind
      · subst hlast
        simp only [countOf, List.countP_singleton, decide_true, if_true] at hcount ⊢
        omega
      · simpa [countOf, List.countP_singleton, hlast] using hkind

namespace Scope

variable {scope : Scope} {declared new : List Declared} {ofClass : Bool}

theorem Holds.insertAll (h : scope.Holds ofClass declared)
    (hlevel : ∀ one ∈ new, one.kind.isClassLevel = ofClass)
    (hallowed : Allowed (declared ++ new)) :
    (scope.insertAll new).Holds ofClass (declared ++ new) := by
  induction new generalizing scope declared with
  | nil => simpa [Scope.insertAll] using h
  | cons first others ih =>
      have hfirst := hlevel first (.head others)
      have hothers := fun one hmem => hlevel one (.tail first hmem)
      subst hfirst
      have happend : declared ++ first :: others = declared ++ [first] ++ others := by simp
      rw [happend] at hallowed ⊢
      obtain ⟨_, hnew, _⟩ := allowed_append_singleton.mp hallowed.of_append
      exact ih (h.insert hnew) hothers hallowed

theorem Holds.insertAll_other (h : scope.Holds ofClass declared)
    (hlevel : ∀ one ∈ new, one.kind.isClassLevel ≠ ofClass) :
    (scope.insertAll new).Holds ofClass declared := by
  induction new generalizing scope with
  | nil => exact h
  | cons first others ih =>
      exact ih (h.insert_other (hlevel first (.head others)))
        fun one hmem => hlevel one (.tail first hmem)

end Scope

end JackLang
