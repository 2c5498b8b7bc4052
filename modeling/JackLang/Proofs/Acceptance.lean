import JackLang.Proofs.Compilation.Units
import JackLang.Proofs.Output.Unlimited
import JackLang.Proofs.Reading.Soundness

/-! # What is compiled

A source is compiled just if its tokens are the words of a unit that is
permitted, and what is written then is the program of its derivation.
-/

set_option autoImplicit false

namespace JackLang

/-- The tokens of the source, up to the end of its file, are the words of the
unit. -/
def ClassUnit.Derives (unit : ClassUnit) (source : String) : Prop :=
  (TokenStream.ofSource source).pending.map Token.word = unit.words

theorem readUnit_of_words {tokens : List Token} {last : Token} {unit : ClassUnit}
    (hwords : tokens.map Token.word = unit.words) (hlast : last.kind = .endOfFile) :
    (readUnit (tokens ++ [last])).bare = ⟨unit.course ++ [.took last.bare], .accepted⟩ := by
  rw [← readUnit_bare, List.map_append]
  rw [map_bare_of_words, hwords]
  exact unit.readUnit_words hlast

theorem followAfter_of_failure (steps : List Step) (events : List Event) (context : Context)
    (failure : Failure) :
    (followAfter events context (some failure) steps).failure ≠ none := by
  induction steps generalizing events context with
  | nil => simp [followAfter]
  | cons step rest ih =>
      cases step with
      | opened rule | closed rule | took token => exact ih (_ :: events) context
      | act action =>
          rcases heffect : context.perform action with ⟨added, next, error⟩
          cases error with
          | none => simpa [followAfter, heffect] using ih (added.reverseAux events) next
          | some error => simp [followAfter, heffect]

/-- Tokens that leave the grammar do not compile. -/
theorem verdict_of_failure_eq_none {tokens : List Token}
    (h : (Transcript.ofTokens tokens).failure = none) :
    (readUnit tokens).verdict = .accepted := by
  cases hverdict : (readUnit tokens).verdict with
  | accepted => rfl
  | unexpected expected found =>
      rw [Transcript.ofTokens, hverdict] at h
      exact absurd h (followAfter_of_failure _ _ _ _)
  | lexical error found =>
      rw [Transcript.ofTokens, hverdict] at h
      exact absurd h (followAfter_of_failure _ _ _ _)

section Transcripts

variable {tokens : List Token} {last : Token} {unit : ClassUnit}

/-- Compiling the words of a unit carries out its course. -/
theorem ofTokens_bare_of_words (hwords : tokens.map Token.word = unit.words)
    (hlast : last.kind = .endOfFile) :
    (Transcript.ofTokens (tokens ++ [last])).bare =
      followAfter [] .initial none (unit.course ++ [.took last.bare]) := by
  have hread := readUnit_of_words hwords hlast
  rw [← Transcript.ofTokens_bare, Transcript.ofTokens, readUnit_bare, hread]
  rfl

/-- The words of a unit that is permitted give its program, and otherwise they
do not compile. -/
theorem transcript_of_words (hregular : ∀ token ∈ tokens, token.word.Regular)
    (hwords : tokens.map Token.word = unit.words) (hlast : last.kind = .endOfFile) :
    ((Transcript.ofTokens (tokens ++ [last])).failure = none ↔ unit.Permitted) ∧
      (unit.Permitted → (Transcript.ofTokens (tokens ++ [last])).program = unit.code) := by
  have hall : AllRegular unit.words := by
    rw [← hwords]
    intro word hmem
    obtain ⟨token, htoken, rfl⟩ := List.mem_map.mp hmem
    exact hregular token htoken
  obtain ⟨next, hruns⟩ := unit.runs hall
  have hcourse := hruns.postpend [.took last.bare] [] rfl fun _ => bounded_nil
  rw [List.append_nil] at hcourse
  have hfaults := ClassUnit.faults_eq_nil_iff hall
  have hbare := ofTokens_bare_of_words hwords hlast
  have hfailure : (Transcript.ofTokens (tokens ++ [last])).failure = none ↔
      (Transcript.ofTokens (tokens ++ [last])).bare.failure = none :=
    Option.map_eq_none_iff.symm
  rw [hfailure, ← Transcript.program_bare, hbare]
  have hpermitted : unit.Permitted →
      (followAfter [] .initial none (unit.course ++ [.took last.bare])).failure = none ∧
        (followAfter [] .initial none (unit.course ++ [.took last.bare])).program =
          unit.code := by
    intro h
    simpa using followAfter_of_carry? [] none (hcourse.passes (hfaults.mpr h))
  refine ⟨⟨?_, fun h => (hpermitted h).1⟩, fun h => (hpermitted h).2⟩
  intro hnone
  by_contra hnot
  exact followAfter_of_carry?_none [] none
    (hcourse.carry?_eq_none fun hnil => hnot (hfaults.mp hnil)) hnone

end Transcripts

/-- A source that derives from a unit compiles just if the unit is permitted, and
then to its program. -/
theorem ofSource_of_derives {source : String} {unit : ClassUnit}
    (hderives : unit.Derives source) :
    ((Transcript.ofSource source).failure = none ↔ unit.Permitted) ∧
      (unit.Permitted → (Transcript.ofSource source).program = unit.code) := by
  rw [Transcript.ofSource, TokenStream.toList]
  exact transcript_of_words (fun token hmem => TokenStream.regular_of_mem hmem) hderives rfl

/-- A source that compiles derives from a unit. -/
theorem exists_derives_of_failure_eq_none {source : String}
    (h : (Transcript.ofSource source).failure = none) :
    ∃ unit : ClassUnit, unit.Derives source := by
  rw [Transcript.ofSource, TokenStream.toList] at h
  exact exists_unit_of_accepted (fun token hmem => TokenStream.regular_of_mem hmem) rfl
    (verdict_of_failure_eq_none h)

theorem Inner.ne_invalid {words : List Word} (h : Inner words) :
    ∀ word ∈ words, ∀ error, word.kind ≠ .invalid error := by
  intro word hmem error hkind
  have hclass := h word hmem
  rw [hkind] at hclass
  exact hclass rfl

def loopSource : String :=
  "class Main \x7b function void main() \x7b while (true) \x7b do f(1 + 2); \x7d return; \x7d \x7d"

theorem loopSource_compiles : (compile loopSource (.working "") none).error = none := by
  decide +kernel

section Compile

variable (source taken : String) (tree : Option String)

theorem failure_of_compiles
    (h : (compile source (.working taken) (tree.map .working)).error = none) :
    (Transcript.ofSource source).failure = none := by
  obtain ⟨herror, _⟩ := (Transcript.ofSource source).report_of_working taken tree
  rwa [compile, herror, Option.map_eq_none_iff] at h

/-- What is written for a source that compiles is the program of each of its
derivations, which are permitted. -/
theorem taken_of_compiles
    (h : (compile source (.working taken) (tree.map .working)).error = none)
    {unit : ClassUnit} (hderives : unit.Derives source) :
    unit.Permitted ∧
      (compile source (.working taken) (tree.map .working)).writers.program.outlet.taken =
        taken ++ listing unit.code := by
  obtain ⟨hfailure, hprogram⟩ := ofSource_of_derives hderives
  have hpermitted := hfailure.mp (failure_of_compiles source taken tree h)
  obtain ⟨_, htaken⟩ := (Transcript.ofSource source).report_of_working taken tree
  refine ⟨hpermitted, ?_⟩
  rw [compile, htaken, hprogram hpermitted]

/-- A source is compiled to a sink that works just if there is no text in it
that is no token, its tokens derive from a unit of the grammar, and the static
conditions hold of the unit. -/
theorem compile_error_eq_none_iff :
    (compile source (.working taken) (tree.map .working)).error = none ↔
      (∀ token ∈ (TokenStream.ofSource source).pending, ∀ error,
        token.kind ≠ .invalid error) ∧
      ∃ unit : ClassUnit, unit.Derives source ∧ unit.Permitted := by
  constructor
  · intro h
    obtain ⟨unit, hderives⟩ :=
      exists_derives_of_failure_eq_none (failure_of_compiles source taken tree h)
    refine ⟨?_, unit, hderives, (taken_of_compiles source taken tree h hderives).1⟩
    intro token hmem
    apply unit.inner_words.ne_invalid token.word
    rw [← hderives]
    exact List.mem_map_of_mem hmem
  · rintro ⟨_, unit, hderives, hpermitted⟩
    obtain ⟨herror, _⟩ := (Transcript.ofSource source).report_of_working taken tree
    rw [compile, herror, Option.map_eq_none_iff]
    exact (ofSource_of_derives hderives).1.mpr hpermitted

end Compile

end JackLang
