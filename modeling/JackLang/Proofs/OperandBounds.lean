import JackLang.Proofs.Compilation.Extents
import JackLang.Proofs.PartialPrograms

/-! # Operands of programs

Whatever is written for a source stays within the segments that the subroutines
have: their locals and arguments, and the fields and statics of the class. It makes
no difference whether the source compiles. What is counted on the way stays below
the largest constant, and different variables have different places.
-/

set_option autoImplicit false

namespace JackLang

/-- Different names stand for different places. -/
def Surroundings.Apart (around : Surroundings) : Prop :=
  ∀ {name other : String} {first second : Variable}, around.resolve? name = some first →
    around.resolve? other = some second → first.segment = second.segment →
      first.index = second.index → name = other

theorem Variable.segment_inj {first second : Variable} (h : first.segment = second.segment) :
    first.kind = second.kind := by
  rw [segment, segment] at h
  cases hfirst : first.kind <;> cases hsecond : second.kind <;>
    simp_all [VariableKind.segment]

/-- A variable is one of the subroutine if it is found on its level. -/
theorem Surroundings.Levelled.variableOf?_of_resolve? {around : Surroundings}
    (haround : around.Levelled) {name : String} {found : Variable}
    (h : around.resolve? name = some found) :
    variableOf? (if found.kind.isClassLevel then around.ofClass else around.ofSubroutine) name =
      some found := by
  rw [resolve?] at h
  split at h
  · rename_i own hown
    cases h
    obtain ⟨one, hmem, hkind⟩ := exists_kind_of_variableOf? hown
    rw [← hkind, haround.ofSubroutine one hmem]
    exact hown
  · obtain ⟨one, hmem, hkind⟩ := exists_kind_of_variableOf? h
    rw [← hkind, haround.ofClass one hmem]
    exact h

theorem Surroundings.Levelled.apart {around : Surroundings} (haround : around.Levelled) :
    around.Apart := by
  intro name other first second hfirst hsecond hsegment hindex
  have hkind := Variable.segment_inj hsegment
  have hown := haround.variableOf?_of_resolve? hfirst
  have hother := haround.variableOf?_of_resolve? hsecond
  rw [← hkind] at hother
  exact variableOf?_inj hown hother hkind hindex

/-- Code that belongs to a subroutine, perhaps cut short: it asks for the locals of the
subroutine, starts with what its kind does first, given the fields of the class, and stays
within the segments. -/
def ClassUnit.Frames (unit : ClassUnit) (part : List Instruction)
    (numbered : Subroutine × Nat) : Prop :=
  ∃ rest,
    part = .function (unit.name ++ "." ++ numbered.1.name) (unit.extent numbered.1).locals ::
      rest ∧
    rest <+: numbered.1.kind.entryCode (unit.extent numbered.1).fields ++
      numbered.1.body.code (unit.around numbered.1) numbered.2 ∧
    AllWithin (unit.extent numbered.1) rest

theorem ClassUnit.frames_of_prefix (unit : ClassUnit) {part : List Instruction}
    {numbered : Subroutine × Nat} (hpart : IsSection part)
    (hstarts : part <+: unit.section numbered) : unit.Frames part numbered := by
  obtain ⟨first, rest, rfl, _, _⟩ := hpart
  rw [unit.section_eq_cons] at hstarts
  obtain ⟨rfl, hrest⟩ := List.cons_prefix_cons.mp hstarts
  exact ⟨rest, rfl, hrest, (unit.within_inner numbered).of_isPrefix hrest⟩

theorem ClassUnit.frames_sections (unit : ClassUnit) {program : List Instruction}
    (h : program <+: unit.code) :
    (sections program).flatten = program ∧
      ∃ begun, begun <+: unit.numbered ∧ List.Forall₂ unit.Frames (sections program) begun := by
  rw [unit.code_eq_flatMap, List.flatMap_def] at h
  have hparts : ∀ part ∈ unit.numbered.map unit.section, IsSection part := by
    intro part hmem
    obtain ⟨numbered, _, rfl⟩ := List.mem_map.mp hmem
    exact unit.isSection numbered
  obtain ⟨hflatten, hcuts, begun, hbegun, hall⟩ := sections_of_prefix hparts h
  obtain ⟨first, hfirst, rfl⟩ := (List.prefix_map_iff).mp hbegun
  refine ⟨hflatten, first, hfirst, ?_⟩
  have hstarts := List.forall₂_map_right_iff.mp hall
  exact ((List.forall₂_and_left _ _).mpr ⟨hcuts, hstarts⟩).imp
    fun part numbered hpart => unit.frames_of_prefix hpart.1 hpart.2

section Compile

variable (source taken : String) (tree : Option String)

/-- What is written for a source, whether it compiles or not, stays within the segments
that its subroutines have. The subroutines are those of any unit that the source starts
like, which is its derivation if there is one. -/
theorem compile_operands_within_segments :
    ∃ program,
      (compile source (.working taken) (tree.map .working)).writers.program.outlet.taken =
        taken ++ listing program ∧
      Bounded program ∧
      Context.initial.Counted (readUnit (TokenStream.ofSource source).toList).steps ∧
      (∃ unit : ClassUnit, unit.Opens source) ∧
      (∀ unit : ClassUnit, unit.Derives source → unit.Opens source) ∧
      ∀ unit : ClassUnit, unit.Opens source →
        (sections program).flatten = program ∧
        (∃ begun, begun <+: unit.numbered ∧
          List.Forall₂ unit.Frames (sections program) begun) ∧
        ∀ subroutine, (unit.around subroutine).Apart := by
  obtain ⟨unit, hunit⟩ := exists_opens source
  obtain ⟨_, htaken⟩ := (Transcript.ofSource source).report_of_working taken tree
  refine ⟨(Transcript.ofSource source).program, htaken, hunit.program_prefix.2, hunit.counted,
    ⟨unit, hunit⟩, fun _ hderives => hderives.opens, ?_⟩
  intro other hother
  obtain ⟨hflatten, hframes⟩ := other.frames_sections hother.program_prefix.1
  exact ⟨hflatten, hframes, fun subroutine => (other.levelled subroutine).apart⟩

end Compile

end JackLang
