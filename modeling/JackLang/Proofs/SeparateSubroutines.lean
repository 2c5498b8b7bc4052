import JackLang.Proofs.Acceptance
import JackLang.Proofs.Compilation.Raised
import JackLang.Proofs.Printing
import Mathlib.Data.List.Forall2

/-! # Subroutines on their own

A class is accepted just if it is with each of its subroutines alone, and its program is
that of these classes one behind the other. Only the numbers of labels go on from one
subroutine to the next.
-/

set_option autoImplicit false

namespace JackLang

namespace ClassUnit

/-- The class with its declarations and no subroutine but the given one. -/
def alone (unit : ClassUnit) (subroutine : Subroutine) : ClassUnit :=
  { unit with subroutines := [subroutine] }

/-- How many conditionals and loops there are in the subroutines in front of the one with
the given place. -/
def numbersBefore (unit : ClassUnit) (place : Nat) : Nat :=
  subroutinesNumbers (unit.subroutines.take place)

variable (unit : ClassUnit)

/-- The conditions on the class are checked with each of the subroutines, of which there
has to be one for that. -/
theorem permitted_iff_alone (hne : unit.subroutines ≠ []) :
    unit.Permitted ↔ ∀ subroutine ∈ unit.subroutines, (unit.alone subroutine).Permitted := by
  constructor
  · rintro ⟨hdistinct, hstatics, hfields, hsubroutines⟩ subroutine hmem
    refine ⟨hdistinct, hstatics, hfields, ?_⟩
    intro other hother
    rw [List.mem_singleton.mp hother]
    exact hsubroutines subroutine hmem
  · intro h
    obtain ⟨first, hfirst⟩ := List.exists_mem_of_ne_nil _ hne
    refine ⟨(h first hfirst).distinct, (h first hfirst).statics, (h first hfirst).fields, ?_⟩
    intro subroutine hmem
    exact (h subroutine hmem).subroutines subroutine (.head [])

theorem code_alone (subroutine : Subroutine) :
    (unit.alone subroutine).code = subroutine.code unit.name unit.declared 0 :=
  List.append_nil _

end ClassUnit

theorem subroutinesCode_eq_mapIdx (className : String) (ofClass : List Declared) (number : Nat)
    (subroutines : List Subroutine) :
    subroutinesCode className ofClass number subroutines =
      (subroutines.mapIdx fun place subroutine =>
        (subroutine.code className ofClass 0).map (Instruction.raised
          (number + subroutinesNumbers (subroutines.take place)))).flatten := by
  induction subroutines generalizing number with
  | nil => rfl
  | cons first others ih =>
      rw [subroutinesCode, ih, List.mapIdx_cons, List.flatten_cons, Subroutine.code_raised]
      simp [subroutinesNumbers, Nat.add_assoc]

/-- The program of a class goes through its subroutines, each with numbers that go on from
those in front of it. -/
theorem ClassUnit.code_eq_mapIdx (unit : ClassUnit) :
    unit.code = (unit.subroutines.mapIdx fun place subroutine =>
      (unit.alone subroutine).code.map
        (Instruction.raised (unit.numbersBefore place))).flatten := by
  rw [ClassUnit.code, subroutinesCode_eq_mapIdx]
  simp only [Nat.zero_add, code_alone, numbersBefore]

/-- Each of the sources is the class with one of the subroutines, in their order. -/
def ClassUnit.SplitInto (unit : ClassUnit) (pieces : List String) : Prop :=
  List.Forall₂ (fun subroutine piece => (unit.alone subroutine).Derives piece)
    unit.subroutines pieces

section Sources

variable {unit : ClassUnit} {source : String}

theorem ClassUnit.Derives.printable (h : unit.Derives source) :
    ∀ word ∈ unit.words, word.Printable := by
  intro word hmem
  have hvalid := unit.inner_words.ne_invalid word hmem
  rw [← h] at hmem
  obtain ⟨token, htoken, rfl⟩ := List.mem_map.mp hmem
  have hlaidOut := (TokenStream.laidOut_iff source _).mpr rfl
  obtain ⟨_, _, _, _, _, hword⟩ := hlaidOut.exists_word token htoken
  exact hword.printable hvalid

theorem ClassUnit.words_alone_subset {subroutine : Subroutine}
    (hmem : subroutine ∈ unit.subroutines) : (unit.alone subroutine).words ⊆ unit.words := by
  intro word hword
  rw [ClassUnit.words_eq] at hword ⊢
  simp only [alone, List.flatMap_singleton, List.mem_append] at hword ⊢
  rcases hword with (hfront | hinside) | hlast
  · exact .inl (.inl hfront)
  · exact .inl (.inr (List.mem_flatMap.mpr ⟨subroutine, hmem, hinside⟩))
  · exact .inr hlast

/-- The words of one subroutine with those of the declarations are valid, so there are
sources for all of the smaller classes. -/
theorem ClassUnit.Derives.exists_splitInto (h : unit.Derives source) :
    ∃ pieces, unit.SplitInto pieces := by
  have hpieces : ∀ subroutine ∈ unit.subroutines,
      ∃ piece, (unit.alone subroutine).Derives piece := by
    intro subroutine hmem
    exact exists_source_of_words fun word hword =>
      h.printable word (ClassUnit.words_alone_subset hmem hword)
  choose! piece hpiece using hpieces
  refine ⟨unit.subroutines.map piece, ?_⟩
  exact List.forall₂_map_right_iff.mpr (List.forall₂_same.mpr hpiece)

end Sources

section Pieces

variable {α β γ : Type} {related : α → β → Prop} {firsts : List α} {seconds : List β}

theorem forall_mem_iff_of_forall₂ {ofFirst : α → Prop} {ofSecond : β → Prop}
    (h : List.Forall₂ related firsts seconds)
    (hiff : ∀ first second, related first second → (ofFirst first ↔ ofSecond second)) :
    (∀ first ∈ firsts, ofFirst first) ↔ ∀ second ∈ seconds, ofSecond second := by
  induction h with
  | nil => simp
  | cons hrelated _ ih => rw [List.forall_mem_cons, List.forall_mem_cons, hiff _ _ hrelated, ih]

theorem mapIdx_eq_of_forall₂ {ofFirst : Nat → α → γ} {ofSecond : Nat → β → γ}
    (h : List.Forall₂ related firsts seconds)
    (heq : ∀ place, ∀ first ∈ firsts, ∀ second, related first second →
      ofFirst place first = ofSecond place second) :
    firsts.mapIdx ofFirst = seconds.mapIdx ofSecond := by
  induction h generalizing ofFirst ofSecond with
  | nil => rfl
  | cons hrelated _ ih =>
      rw [List.mapIdx_cons, List.mapIdx_cons, heq 0 _ (.head _) _ hrelated]
      exact congrArg _ (ih fun place first hmem => heq (place + 1) first (.tail _ hmem))

end Pieces

theorem listing_flatten_mapIdx {α : Type} (items : List α)
    (program : Nat → α → List Instruction) :
    listing (items.mapIdx program).flatten =
      String.join (items.mapIdx fun place item => listing (program place item)) := by
  induction items generalizing program with
  | nil => rfl
  | cons item items ih =>
      rw [List.mapIdx_cons, List.flatten_cons, listing_append, ih, List.mapIdx_cons,
        String.join_cons]

section Compile

variable {unit : ClassUnit} {pieces : List String} {source : String}

/-- A class is permitted just if the sources of the smaller classes compile. -/
theorem ClassUnit.SplitInto.permitted_iff (h : unit.SplitInto pieces)
    (hne : unit.subroutines ≠ []) :
    unit.Permitted ↔ ∀ piece ∈ pieces, (Transcript.ofSource piece).failure = none := by
  rw [permitted_iff_alone unit hne]
  exact forall_mem_iff_of_forall₂ h fun _ _ hderives => (ofSource_of_derives hderives).1.symm

theorem ClassUnit.SplitInto.listing_code (h : unit.SplitInto pieces)
    (hpermitted : unit.Permitted) :
    listing unit.code = String.join (pieces.mapIdx fun place piece =>
      listing ((Transcript.ofSource piece).program.map
        (Instruction.raised (unit.numbersBefore place)))) := by
  rw [ClassUnit.code_eq_mapIdx, listing_flatten_mapIdx]
  refine congrArg String.join (mapIdx_eq_of_forall₂ h ?_)
  intro place subroutine hmem piece hderives
  have halone : (unit.alone subroutine).Permitted :=
    (permitted_iff_alone unit (List.ne_nil_of_mem hmem)).mp hpermitted subroutine hmem
  rw [(ofSource_of_derives hderives).2 halone]

/-- A class with subroutines is accepted just if it is with each of them alone. What is
then written for it is what is written for these smaller classes, one behind the other and
with label numbers that are larger by the conditionals and loops further in front. -/
theorem compile_subroutines_separately (taken : String) (tree : Option String)
    (hderives : unit.Derives source) (hne : unit.subroutines ≠ []) :
    (∃ pieces, unit.SplitInto pieces) ∧
    ∀ pieces, unit.SplitInto pieces →
      ((compile source (.working taken) (tree.map .working)).error = none ↔
        ∀ piece ∈ pieces, (compile piece (.working taken) (tree.map .working)).error = none) ∧
      (∀ piece ∈ pieces,
        (compile piece (.working taken) (tree.map .working)).writers.program.outlet.taken =
          taken ++ listing (Transcript.ofSource piece).program) ∧
      ((compile source (.working taken) (tree.map .working)).error = none →
        (compile source (.working taken) (tree.map .working)).writers.program.outlet.taken =
          taken ++ String.join (pieces.mapIdx fun place piece =>
            listing ((Transcript.ofSource piece).program.map
              (Instruction.raised (unit.numbersBefore place))))) := by
  have herror : ∀ text : String,
      (compile text (.working taken) (tree.map .working)).error = none ↔
        (Transcript.ofSource text).failure = none := by
    intro text
    rw [compile, ((Transcript.ofSource text).report_of_working taken tree).1,
      Option.map_eq_none_iff]
  have hwritten := fun text : String =>
    ((Transcript.ofSource text).report_of_working taken tree).2
  obtain ⟨haccepted, hprogram⟩ := ofSource_of_derives hderives
  refine ⟨hderives.exists_splitInto, ?_⟩
  intro pieces hpieces
  simp only [herror]
  refine ⟨haccepted.trans (hpieces.permitted_iff hne), fun piece _ => hwritten piece, ?_⟩
  intro hnone
  have hpermitted := haccepted.mp hnone
  rw [← hpieces.listing_code hpermitted, ← hprogram hpermitted]
  exact hwritten source

end Compile

def pairSource : String :=
  "class Main \x7b static int n; " ++
    "function void main() \x7b while (n) \x7b if (n) \x7b \x7d \x7d return; \x7d " ++
    "method void next() \x7b while (true) \x7b let n = 1; \x7d return; \x7d \x7d"

def pairUnit : ClassUnit where
  name := "Main"
  declarations := [⟨.static, ⟨.int, "n", []⟩⟩]
  subroutines :=
    [{ kind := .function
       result := none
       name := "main"
       parameters := []
       locals := []
       body := .cons
        (.loop (.single (.name "n")) (.cons (.conditional (.single (.name "n")) .nil) .nil))
        (.cons .returnNothing .nil) },
     { kind := .method
       result := none
       name := "next"
       parameters := []
       locals := []
       body := .cons
        (.loop (.single .trueConstant) (.cons (.assign "n" (.single (.integer "1"))) .nil))
        (.cons .returnNothing .nil) }]

theorem derives_pair : pairUnit.Derives pairSource := by
  have hwords : pairUnit.words =
      [.keyword .class, .identifier "Main", .symbol .leftBrace, .keyword .static, .keyword .int,
        .identifier "n", .symbol .semicolon, .keyword .function, .keyword .void,
        .identifier "main", .symbol .leftParen, .symbol .rightParen, .symbol .leftBrace,
        .keyword .while, .symbol .leftParen, .identifier "n", .symbol .rightParen,
        .symbol .leftBrace, .keyword .if, .symbol .leftParen, .identifier "n",
        .symbol .rightParen, .symbol .leftBrace, .symbol .rightBrace, .symbol .rightBrace,
        .keyword .return, .symbol .semicolon, .symbol .rightBrace, .keyword .method,
        .keyword .void, .identifier "next", .symbol .leftParen, .symbol .rightParen,
        .symbol .leftBrace, .keyword .while, .symbol .leftParen, .keyword .trueConstant,
        .symbol .rightParen, .symbol .leftBrace, .keyword .let, .identifier "n",
        .symbol .equal, ⟨.integerConstant, "1"⟩, .symbol .semicolon, .symbol .rightBrace,
        .keyword .return, .symbol .semicolon, .symbol .rightBrace, .symbol .rightBrace] := by
    rw [ClassUnit.words_eq]
    simp [pairUnit, ClassVariables.words, ClassVariableKind.word, Subroutine.words, localWords,
      VariableGroup.words, moreNameWords, parameterWords, resultWord, SubroutineKind.keyword,
      TypeName.word]
  rw [ClassUnit.Derives, hwords]
  decide +kernel

theorem permitted_pair : pairUnit.Permitted := by
  have hmem : "n" ∈ namesOf pairUnit.declared := by decide
  have hdeclares : ∀ ofSubroutine,
      Surroundings.Declares ⟨"Main", pairUnit.declared, ofSubroutine⟩ "n" := fun _ => .inr hmem
  refine ⟨by decide, by decide, by decide, ?_⟩
  rintro subroutine (_ | ⟨_, _ | ⟨_, hnone⟩⟩)
  · refine ⟨by decide, by decide, by decide, ?_⟩
    exact ⟨⟨hdeclares _, ⟨hdeclares _, trivial⟩, trivial⟩, trivial, trivial⟩
  · refine ⟨by decide, by decide, by decide, ?_⟩
    exact ⟨⟨trivial, ⟨hdeclares _, trivial⟩, trivial⟩, trivial, trivial⟩
  · cases hnone

/-- The second subroutine's numbers go on from the loop and the conditional of the first. -/
theorem compile_subroutines_separately_of_pair :
    pairUnit.Derives pairSource ∧ pairUnit.subroutines ≠ [] ∧
      ∃ first second : String, pairUnit.SplitInto [first, second] ∧
        (compile pairSource (.working "") none).writers.program.outlet.taken =
          "" ++ String.join
            [listing ((Transcript.ofSource first).program.map (Instruction.raised 0)),
              listing ((Transcript.ofSource second).program.map (Instruction.raised 2))] := by
  have hne : pairUnit.subroutines ≠ [] := List.cons_ne_nil _ _
  obtain ⟨⟨pieces, hsplit⟩, hseparately⟩ :=
    compile_subroutines_separately "" none derives_pair hne
  obtain ⟨first, others, _, hothers, rfl⟩ := List.forall₂_cons_left_iff.mp hsplit
  obtain ⟨second, rest, _, hrest, rfl⟩ := List.forall₂_cons_left_iff.mp hothers
  obtain rfl := List.forall₂_nil_left_iff.mp hrest
  have hcompiles : (compile pairSource (.working "") none).error = none := by
    have herror := ((Transcript.ofSource pairSource).report_of_working "" none).1
    rw [(ofSource_of_derives derives_pair).1.mpr permitted_pair] at herror
    exact herror
  refine ⟨derives_pair, hne, first, second, hsplit, ?_⟩
  exact (hseparately _ hsplit).2.2 hcompiles

end JackLang
