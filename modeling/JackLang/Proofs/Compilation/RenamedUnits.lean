import JackLang.Proofs.Compilation.RenamedCode
import Mathlib.Data.List.Nodup

/-! # Units with a renamed variable

Renaming a variable keeps the order and the kinds of the declarations, so each name stands
for the place that the old one stood for. The unit has the same code then.
-/

set_option autoImplicit false

namespace JackLang

section Declarations

variable {old new name : String} {declared : List Declared}

theorem renameTo_of_ne (hname : name ≠ old) : renameTo old new name = name :=
  if_neg hname

theorem renameTo_eq_iff {other : String} (hname : name ≠ new) (hother : other ≠ new) :
    renameTo old new name = renameTo old new other ↔ name = other := by
  rw [renameTo, renameTo]
  split <;> split <;> grind

theorem ne_of_notMem_namesOf {one : Declared} (hnew : new ∉ namesOf declared)
    (hmem : one ∈ declared) : one.name ≠ new := by
  rintro rfl
  exact hnew (List.mem_map_of_mem hmem)

/-- A name stands for the same place among the renamed declarations. -/
theorem variableOf?_renamed (hnew : new ∉ namesOf declared) (hname : name ≠ new) :
    variableOf? (declared.map (Declared.renamed (renameTo old new))) (renameTo old new name) =
      variableOf? declared name := by
  induction declared with
  | nil => rfl
  | cons first others ih =>
      obtain ⟨hfirst, hothers⟩ := List.ne_and_not_mem_of_not_mem_cons hnew
      have hiff : (first.renamed (renameTo old new)).name = renameTo old new name ↔
          first.name = name := renameTo_eq_iff (Ne.symm hfirst) hname
      rw [List.map_cons, variableOf?, ih hothers, variableOf?]
      by_cases hsame : first.name = name
      · rw [if_pos (hiff.mpr hsame), if_pos hsame]
        rfl
      · rw [if_neg (mt hiff.mp hsame), if_neg hsame]
        rfl

theorem map_renamed_of_notMem (hold : old ∉ namesOf declared) :
    declared.map (Declared.renamed (renameTo old new)) = declared := by
  refine (List.map_congr_left fun one hmem => ?_).trans (List.map_id declared)
  rw [Declared.renamed, renameTo_of_ne (ne_of_notMem_namesOf hold hmem), id]

theorem nodup_map_renameTo {names : List String} (hnew : new ∉ names) (h : names.Nodup) :
    (names.map (renameTo old new)).Nodup := by
  refine List.Nodup.map_on ?_ h
  intro name hmem other hother heq
  have hname : name ≠ new := fun heq => hnew (heq ▸ hmem)
  have hnext : other ≠ new := fun heq => hnew (heq ▸ hother)
  exact (renameTo_eq_iff hname hnext).mp heq

theorem namesOf_renamed (rename : String → String) :
    namesOf (declared.map (Declared.renamed rename)) = (namesOf declared).map rename := by
  simp [namesOf, Declared.renamed, Function.comp_def]

theorem countOf_renamed (rename : String → String) (kind : VariableKind) :
    countOf kind (declared.map (Declared.renamed rename)) = countOf kind declared := by
  rw [countOf, List.countP_map]
  rfl

end Declarations

namespace Surroundings

variable {className old new : String} {ofClass ofSubroutine : List Declared}
  {words : List Word}

theorem resolve?_eq_or (name : String) :
    resolve? ⟨className, ofClass, ofSubroutine⟩ name =
      (variableOf? ofSubroutine name).or (variableOf? ofClass name) := by
  rw [resolve?]
  cases variableOf? ofSubroutine name <;> rfl

/-- A name that is declared on one of the levels is replaced on both of them. -/
theorem keepsAll_of_both (hnewClass : new ∉ namesOf ofClass)
    (hnewSubroutine : new ∉ namesOf ofSubroutine)
    (hold : Declares ⟨className, ofClass, ofSubroutine⟩ old)
    (hnew : Word.identifier new ∉ words) :
    KeepsAll ⟨className, ofClass, ofSubroutine⟩
      ⟨className, ofClass.map (Declared.renamed (renameTo old new)),
        ofSubroutine.map (Declared.renamed (renameTo old new))⟩ (renameTo old new) words := by
  intro name hmem
  have hname : name ≠ new := fun heq => hnew (heq ▸ hmem)
  constructor
  · rw [resolve?_eq_or, resolve?_eq_or, variableOf?_renamed hnewSubroutine hname,
      variableOf?_renamed hnewClass hname]
  · intro hnone
    apply renameTo_of_ne
    rintro rfl
    exact resolve?_eq_none_iff.mp hnone hold

/-- A variable of the subroutine is renamed there. -/
theorem keepsAll_of_subroutine (hnewSubroutine : new ∉ namesOf ofSubroutine)
    (hold : old ∈ namesOf ofSubroutine) (hnew : Word.identifier new ∉ words) :
    KeepsAll ⟨className, ofClass, ofSubroutine⟩
      ⟨className, ofClass, ofSubroutine.map (Declared.renamed (renameTo old new))⟩
      (renameTo old new) words := by
  intro name hmem
  have hname : name ≠ new := fun heq => hnew (heq ▸ hmem)
  have hself : variableOf? ofSubroutine name = none → renameTo old new name = name := by
    intro hnone
    apply renameTo_of_ne
    rintro rfl
    exact variableOf?_eq_none_iff.mp hnone hold
  constructor
  · rw [resolve?_eq_or, resolve?_eq_or, variableOf?_renamed hnewSubroutine hname]
    cases hfound : variableOf? ofSubroutine name with
    | some found => rfl
    | none => rw [hself hfound]
  · intro hnone
    rw [resolve?_eq_or, Option.or_eq_none_iff] at hnone
    exact hself hnone.1

/-- A variable of the class is renamed, but the subroutine hides it. -/
theorem keepsAll_of_hidden (hnewClass : new ∉ namesOf ofClass)
    (hold : old ∈ namesOf ofSubroutine) (hnew : Word.identifier new ∉ words) :
    KeepsAll ⟨className, ofClass, ofSubroutine⟩
      ⟨className, ofClass.map (Declared.renamed (renameTo old new)), ofSubroutine⟩ id words := by
  intro name hmem
  have hname : name ≠ new := fun heq => hnew (heq ▸ hmem)
  refine ⟨?_, fun _ => rfl⟩
  rw [id, resolve?_eq_or, resolve?_eq_or]
  cases hfound : variableOf? ofSubroutine name with
  | some found => rfl
  | none =>
      have hne : name ≠ old := by
        rintro rfl
        exact variableOf?_eq_none_iff.mp hfound hold
      rw [← variableOf?_renamed hnewClass hname, renameTo_of_ne hne]

end Surroundings

section Subroutines

variable {old new className : String}

theorem VariableGroup.declared_renamed (group : VariableGroup) (kind : VariableKind)
    (rename : String → String) :
    (group.renamed rename).declared kind =
      (group.declared kind).map (Declared.renamed rename) := by
  simp [VariableGroup.declared, VariableGroup.renamed, Declared.renamed, Function.comp_def]

/-- The receiver of a method keeps its name. -/
theorem Subroutine.declared_renamed (subroutine : Subroutine) (className : String)
    (rename : String → String) (hthis : rename "this" = "this") :
    (subroutine.renamed rename).declared className =
      (subroutine.declared className).map (Declared.renamed rename) := by
  have hlocals : (subroutine.locals.map (VariableGroup.renamed rename)).flatMap
      (fun group => group.declared .local) =
      (subroutine.locals.flatMap fun group => group.declared .local).map
        (Declared.renamed rename) := by
    rw [List.flatMap_map, List.map_flatMap]
    simp only [VariableGroup.declared_renamed]
  rw [Subroutine.declared, Subroutine.declared, Subroutine.renamed, hlocals]
  cases subroutine.kind <;>
    simp [Declared.renamed, Parameter.renamed, hthis, Function.comp_def]

theorem Subroutine.ownNames_renamed (subroutine : Subroutine) (rename : String → String) :
    (subroutine.renamed rename).ownNames = subroutine.ownNames.map rename := by
  simp [ownNames, Subroutine.renamed, Parameter.renamed, VariableGroup.renamed,
    List.flatMap_map, List.map_flatMap, Function.comp_def]

theorem Subroutine.mem_namesOf_declared {subroutine : Subroutine} {name : String} :
    name ∈ namesOf (subroutine.declared className) ↔
      subroutine.kind = .method ∧ name = "this" ∨ name ∈ subroutine.ownNames := by
  rw [declared_eq, namesOf, List.map_append, subroutine.names_declared, List.mem_append]
  cases subroutine.kind <;> simp [SubroutineKind.receiver]

theorem Subroutine.identifier_mem_words {subroutine : Subroutine} {name : String}
    (h : name ∈ subroutine.ownNames) : Word.identifier name ∈ subroutine.words := by
  rcases List.mem_append.mp h with hmem | hmem
  · obtain ⟨parameter, hparameter, rfl⟩ := List.mem_map.mp hmem
    have hidentifier := identifier_mem_parameterWords hparameter
    simp [Subroutine.words, hidentifier]
  · obtain ⟨group, hgroup, hname⟩ := List.mem_flatMap.mp hmem
    have hidentifier := identifier_mem_localWords hgroup hname
    simp [Subroutine.words, hidentifier]

/-- The one subroutine in its class is permitted just if the other one is in its own, and
they have the same code. -/
structure Subroutine.SameCode (className : String) (ofClass ofNext : List Declared)
    (subroutine next : Subroutine) : Prop where
  numbers : next.body.numbers = subroutine.body.numbers
  code : ∀ number,
    next.code className ofNext number = subroutine.code className ofClass number
  permitted : subroutine.Permitted className ofClass → next.Permitted className ofNext

theorem Subroutine.sameCode_withBodyRenamed {ofClass ofNext : List Declared}
    {rename : String → String} (subroutine : Subroutine)
    (hfields : countOf .field ofNext = countOf .field ofClass)
    (hkeeps : Surroundings.KeepsAll ⟨className, ofClass, subroutine.declared className⟩
      ⟨className, ofNext, subroutine.declared className⟩ rename subroutine.body.words) :
    subroutine.SameCode className ofClass ofNext (subroutine.withBodyRenamed rename) := by
  refine ⟨subroutine.body.numbers_renamed, ?_, ?_⟩
  · intro number
    have hbody := subroutine.body.code_renamed number (by rfl) hkeeps
    rw [countOf, countOf] at hfields
    rw [Subroutine.code, Subroutine.code, hfields, ← hbody]
    rfl
  · rintro ⟨hdistinct, harguments, hlocals, hbody⟩
    exact ⟨hdistinct, harguments, hlocals, (subroutine.body.permitted_renamed hkeeps).mpr hbody⟩

theorem Subroutine.sameCode_renamed {ofClass : List Declared} (subroutine : Subroutine)
    (hthis : renameTo old new "this" = "this") (hnew : new ∉ subroutine.ownNames)
    (hkeeps : Surroundings.KeepsAll ⟨className, ofClass, subroutine.declared className⟩
      ⟨className, ofClass,
        (subroutine.declared className).map (Declared.renamed (renameTo old new))⟩
      (renameTo old new) subroutine.body.words) :
    subroutine.SameCode className ofClass ofClass (subroutine.renamed (renameTo old new)) := by
  have hdeclared := subroutine.declared_renamed className _ hthis
  rw [← hdeclared] at hkeeps
  refine ⟨subroutine.body.numbers_renamed, ?_, ?_⟩
  · intro number
    have hbody := subroutine.body.code_renamed number (by rfl) hkeeps
    have hlocals : countOf .local ((subroutine.renamed (renameTo old new)).declared className) =
        countOf .local (subroutine.declared className) := by
      rw [hdeclared, countOf_renamed]
    rw [countOf, countOf] at hlocals
    rw [Subroutine.code, Subroutine.code, hlocals, ← hbody]
    rfl
  · rintro ⟨hdistinct, harguments, hlocals, hbody⟩
    refine ⟨?_, ?_, ?_, (subroutine.body.permitted_renamed hkeeps).mpr hbody⟩
    · rw [subroutine.ownNames_renamed]
      exact nodup_map_renameTo hnew hdistinct
    · rw [argumentCount, Subroutine.renamed, List.length_map]
      exact harguments
    · simpa [localCount, Subroutine.renamed, VariableGroup.renamed, List.flatMap_map,
        List.length_flatMap] using hlocals

theorem subroutinesCode_congr {ofClass ofNext : List Declared}
    {subroutines nexts : List Subroutine}
    (h : List.Forall₂ (Subroutine.SameCode className ofClass ofNext) subroutines nexts)
    (number : Nat) :
    subroutinesCode className ofNext number nexts =
      subroutinesCode className ofClass number subroutines := by
  induction h generalizing number with
  | nil => rfl
  | cons hfirst _ ih =>
      rw [subroutinesCode, hfirst.code, hfirst.numbers, ih, subroutinesCode]

theorem permitted_of_sameCode {ofClass ofNext : List Declared}
    {subroutines nexts : List Subroutine}
    (h : List.Forall₂ (Subroutine.SameCode className ofClass ofNext) subroutines nexts)
    (hpermitted : ∀ subroutine ∈ subroutines, subroutine.Permitted className ofClass) :
    ∀ next ∈ nexts, next.Permitted className ofNext := by
  induction h with
  | nil => simp
  | cons hfirst _ ih =>
      obtain ⟨hone, hothers⟩ := List.forall_mem_cons.mp hpermitted
      exact List.forall_mem_cons.mpr ⟨hfirst.permitted hone, ih hothers⟩

end Subroutines

namespace ClassUnit

variable {unit : ClassUnit} {new : String}

theorem identifier_mem_words_of_declared {name : String} (h : name ∈ namesOf unit.declared) :
    Word.identifier name ∈ unit.words := by
  obtain ⟨one, hone, rfl⟩ := List.mem_map.mp h
  obtain ⟨declaration, hdeclaration, hgroup⟩ := List.mem_flatMap.mp hone
  obtain ⟨name, hname, rfl⟩ := List.mem_map.mp hgroup
  have hlocal : Word.identifier name ∈ localWords [declaration.group] :=
    identifier_mem_localWords (.head []) hname
  have hgroup : Word.identifier name ∈ declaration.group.words := by
    simpa [localWords, Word.identifier, Word.keyword] using hlocal
  have hwords : Word.identifier name ∈ declaration.words := .tail _ hgroup
  rw [words_eq]
  have hflat := List.mem_flatMap.mpr ⟨declaration, hdeclaration, hwords⟩
  simp [hflat]

theorem words_subset_of_mem {subroutine : Subroutine} (hmem : subroutine ∈ unit.subroutines) :
    subroutine.words ⊆ unit.words := by
  intro word hword
  have hflat := List.mem_flatMap.mpr ⟨subroutine, hmem, hword⟩
  rw [words_eq]
  simp [hflat]

theorem DeclaresName.identifier_mem_words {declaration : DeclaredName}
    (h : unit.DeclaresName declaration) : Word.identifier declaration.name ∈ unit.words := by
  cases declaration with
  | ofClass name => exact identifier_mem_words_of_declared h
  | ofSubroutine place name =>
      obtain ⟨subroutine, hplace, hname⟩ := h
      exact words_subset_of_mem (List.mem_of_getElem? hplace)
        (Subroutine.identifier_mem_words hname)

theorem ne_this_of_mem {name : String} (hwords : AllRegular unit.words)
    (hmem : Word.identifier name ∈ unit.words) : name ≠ "this" := by
  rintro rfl
  have hregular : Keyword.ofText? "this" = none := hwords _ hmem
  exact absurd hregular (by decide)

theorem declared_renamed_ofClass (unit : ClassUnit) (new name : String) :
    (unit.renamed (.ofClass name) new).declared =
      unit.declared.map (Declared.renamed (renameTo name new)) := by
  simp only [ClassUnit.declared, renamed, List.flatMap_map, List.map_flatMap,
    ClassVariables.renamed, VariableGroup.declared_renamed]

section Fresh

variable (hwords : AllRegular unit.words) (hnew : Word.identifier new ∉ unit.words)
  (hthis : new ≠ "this")

include hnew

theorem notMem_namesOf_declared : new ∉ namesOf unit.declared :=
  fun hmem => hnew (identifier_mem_words_of_declared hmem)

theorem notMem_body {subroutine : Subroutine} (hmem : subroutine ∈ unit.subroutines) :
    Word.identifier new ∉ subroutine.body.words := by
  intro hbody
  apply hnew
  apply words_subset_of_mem hmem
  simp [Subroutine.words, hbody]

theorem notMem_ownNames {subroutine : Subroutine} (hmem : subroutine ∈ unit.subroutines) :
    new ∉ subroutine.ownNames :=
  fun hown => hnew (words_subset_of_mem hmem (Subroutine.identifier_mem_words hown))

include hthis

theorem notMem_namesOf_subroutine {subroutine : Subroutine}
    (hmem : subroutine ∈ unit.subroutines) :
    new ∉ namesOf (subroutine.declared unit.name) := by
  rw [Subroutine.mem_namesOf_declared]
  rintro (⟨_, hname⟩ | hown)
  · exact hthis hname
  · exact notMem_ownNames hnew hmem hown

include hwords

theorem sameCode_ofClass {name : String} (hdeclares : unit.DeclaresName (.ofClass name)) :
    List.Forall₂ (Subroutine.SameCode unit.name unit.declared
        (unit.renamed (.ofClass name) new).declared)
      unit.subroutines (unit.renamed (.ofClass name) new).subroutines := by
  rw [declared_renamed_ofClass]
  refine forall₂_map _ ?_
  intro subroutine hmem
  apply subroutine.sameCode_withBodyRenamed (countOf_renamed _ _)
  have hclass := notMem_namesOf_declared hnew
  have hbody := notMem_body hnew hmem
  by_cases hown : name ∈ subroutine.ownNames
  · rw [if_pos hown]
    exact Surroundings.keepsAll_of_hidden hclass
      (Subroutine.mem_namesOf_declared.mpr (.inr hown)) hbody
  · rw [if_neg hown]
    have hnot : name ∉ namesOf (subroutine.declared unit.name) := by
      rw [Subroutine.mem_namesOf_declared]
      rintro (⟨_, hname⟩ | hmem)
      · exact ne_this_of_mem hwords hdeclares.identifier_mem_words hname
      · exact hown hmem
    have hdeclared : Surroundings.Declares
        ⟨unit.name, unit.declared, subroutine.declared unit.name⟩ name := .inr hdeclares
    have hkeeps := Surroundings.keepsAll_of_both hclass
      (notMem_namesOf_subroutine hnew hthis hmem) hdeclared hbody
    rwa [map_renamed_of_notMem hnot] at hkeeps

theorem sameCode_ofSubroutine {place : Nat} {name : String}
    (hdeclares : unit.DeclaresName (.ofSubroutine place name)) :
    List.Forall₂ (Subroutine.SameCode unit.name unit.declared unit.declared)
      unit.subroutines (unit.renamed (.ofSubroutine place name) new).subroutines := by
  refine forall₂_modify _ place (fun _ => ⟨rfl, fun _ => rfl, id⟩) ?_
  intro subroutine hplace
  have hmem := List.mem_of_getElem? hplace
  have hown : name ∈ subroutine.ownNames := by
    obtain ⟨other, hother, hname⟩ := hdeclares
    rw [hplace] at hother
    cases hother
    exact hname
  have hreceiver : renameTo name new "this" = "this" :=
    renameTo_of_ne (Ne.symm (ne_this_of_mem hwords hdeclares.identifier_mem_words))
  apply subroutine.sameCode_renamed hreceiver (notMem_ownNames hnew hmem)
  exact Surroundings.keepsAll_of_subroutine (notMem_namesOf_subroutine hnew hthis hmem)
    (Subroutine.mem_namesOf_declared.mpr (.inr hown)) (notMem_body hnew hmem)

/-- A variable by a name that is new to the unit leaves its code as it is, and the unit is
still permitted. -/
theorem code_renamed {declaration : DeclaredName} (hdeclares : unit.DeclaresName declaration) :
    (unit.renamed declaration new).code = unit.code ∧
      (unit.Permitted → (unit.renamed declaration new).Permitted) := by
  cases declaration with
  | ofClass name =>
      have hsame := sameCode_ofClass hwords hnew hthis hdeclares
      refine ⟨subroutinesCode_congr hsame 0, ?_⟩
      rintro ⟨hdistinct, hstatics, hfields, hsubroutines⟩
      have hdeclared := unit.declared_renamed_ofClass new name
      refine ⟨?_, ?_, ?_, permitted_of_sameCode hsame hsubroutines⟩
      · rw [hdeclared, namesOf_renamed]
        exact nodup_map_renameTo (notMem_namesOf_declared hnew) hdistinct
      · rwa [hdeclared, countOf_renamed]
      · rwa [hdeclared, countOf_renamed]
  | ofSubroutine place name =>
      have hsame := sameCode_ofSubroutine hwords hnew hthis hdeclares
      refine ⟨subroutinesCode_congr hsame 0, ?_⟩
      rintro ⟨hdistinct, hstatics, hfields, hsubroutines⟩
      exact ⟨hdistinct, hstatics, hfields, permitted_of_sameCode hsame hsubroutines⟩

end Fresh

end ClassUnit

end JackLang
