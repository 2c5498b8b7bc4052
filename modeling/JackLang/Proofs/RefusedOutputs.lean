import JackLang.Proofs.Jobs
import JackLang.Proofs.Output.Limited
import JackLang.Proofs.Output.Refusing
import JackLang.Proofs.TreeOutput

/-! # Outputs that are refused

If the sinks of some outputs refuse everything, a job tells so, unless it would fail anyway
before it has more to write than the buffers take, or nothing is written to these outputs.
-/

set_option autoImplicit false

namespace JackLang

namespace Job

def outputs : Job → List OutputKind
  | .compile _ none => [.program]
  | .compile _ (some _) => [.program, .tree]
  | .list _ => [.tokens]

/-- The job with sinks that refuse everything for some of its outputs, and take everything
for the others. -/
def refusing (fails : OutputKind → Bool) : Job → Job
  | .compile _ tree =>
      .compile (.refusing (fails .program)) (tree.map fun _ => .refusing (fails .tree))
  | .list _ => .list (.refusing (fails .tokens))

def working (job : Job) : Job := job.refusing fun _ => false

/-- What the sink of an output has taken in the end. -/
def text (source : String) : Job → OutputKind → String
  | .compile program tree, .program =>
      (JackLang.compile source program tree).writers.program.outlet.taken
  | .compile program tree, .tree =>
      ((JackLang.compile source program tree).writers.tree.map (·.outlet.taken)).getD ""
  | .list sink, .tokens => (writeTokens source sink).text
  | _, _ => ""

/-- The output that fails while the job is done, before the outputs are closed. -/
def refused (source : String) : Job → Option OutputKind
  | .compile program tree =>
      ((Writers.toSinks program tree).recordAll (Transcript.ofSource source).events).2
  | .list sink =>
      match (listTokens (.ofSource source) (.toSink sink)).2 with
      | .unwritten => some .tokens
      | _ => none

/-- The first of the outputs whose sink refuses what is left for it in the end. -/
def unclosed? (fails : OutputKind → Bool) (source : String) (job : Job) : Option OutputKind :=
  (job.outputs.filter fails).find? fun kind => decide (job.working.text source kind ≠ "")

/-- With sinks that refuse everything, a job is done as with sinks that work, up to the
closing of the outputs, or else it fails at one of them that gets more text than its buffer
takes. -/
inductive Refused (fails : OutputKind → Bool) (source : String) (job : Job) : Prop
  | closing (hrefused : (job.refusing fails).refused source = none)
      (herror : (job.refusing fails).error source =
        (job.working.error source).or ((job.unclosed? fails source).map .unwritable))
      (hsize : ∀ kind ∈ job.outputs.filter fails,
        (job.working.text source kind).utf8ByteSize ≤ bufferSize)
  | during {kind : OutputKind} (hfails : kind ∈ job.outputs.filter fails)
      (hrefused : (job.refusing fails).refused source = some kind)
      (herror : (job.refusing fails).error source = some (.unwritable kind))
      (hsize : bufferSize ≤ (job.working.text source kind).utf8ByteSize)

end Job

section List

variable (fails : OutputKind → Bool) (source : String) (sink : Sink)

theorem Job.list_working :
    (Job.list sink).working.error source =
        ((TokenStream.ofSource source).pending.findSome? Token.failure?).map .failure ∧
      (Job.list sink).working.text source .tokens =
        tokenListText (TokenStream.ofSource source).pending := by
  obtain ⟨herror, htext⟩ := writeTokens_of_working source ""
  exact ⟨herror, htext.trans String.empty_append⟩

theorem Job.unclosed?_list :
    (Job.list sink).unclosed? fails source =
      if fails .tokens && decide ((Job.list sink).working.text source .tokens ≠ "") then
        some .tokens
      else none := by
  rw [unclosed?, List.find?_filter, outputs, List.find?_singleton]
  simp only [Bool.decide_and, Bool.decide_eq_true]

theorem Job.list_refused : (Job.list sink).Refused fails source := by
  obtain ⟨herror, htext⟩ := Job.list_working source sink
  rcases listTokens_cases source (fails .tokens) with
    ⟨next, hlist, hholds⟩ | ⟨next, hlist, hrefuses, hsize⟩
  · have hsize : ∀ kind ∈ (Job.list sink).outputs.filter fails,
        ((Job.list sink).working.text source kind).utf8ByteSize ≤ bufferSize := by
      intro kind hmem
      obtain ⟨houtput, hfails⟩ := List.mem_filter.mp hmem
      cases List.mem_singleton.mp houtput
      rw [hfails] at hholds
      rw [htext]
      exact hholds.size_le
    have hflush := hholds.flush
    rw [← htext] at hflush
    rcases listingEnd_cases 0 (TokenStream.ofSource source).pending with
      ⟨hfailure, hend⟩ | ⟨lexical, found, hfailure, hend⟩
    · refine .closing ?_ ?_ hsize
      · simp only [refusing, refused, hlist, hend]
      · rw [herror, hfailure, unclosed?_list, Option.map_none, Option.none_or]
        simp only [refusing, error, writeTokens, hlist, hend, hflush]
        cases fails .tokens && decide ((Job.list sink).working.text source .tokens ≠ "") <;> rfl
    · refine .closing ?_ ?_ hsize
      · simp only [refusing, refused, hlist, hend]
      · rw [herror, hfailure, Option.map_some, Option.some_or]
        simp only [refusing, error, writeTokens, hlist, hend]
  · have hfails : OutputKind.tokens ∈ (Job.list sink).outputs.filter fails :=
      List.mem_filter.mpr ⟨.head _, hrefuses⟩
    refine .during hfails ?_ ?_ (htext ▸ hsize)
    · simp only [refusing, refused, hlist]
    · simp only [refusing, error, writeTokens, hlist]

end List

section Compile

variable (fails : OutputKind → Bool) (source : String) (program : Sink) (tree : Option Sink)

theorem Job.compile_working :
    (Job.compile program tree).working.error source =
        (Transcript.ofSource source).failure.map .failure ∧
      ∀ kind ∈ (Job.compile program tree).outputs,
        (Job.compile program tree).working.text source kind =
          kind.shown (Transcript.ofSource source).events := by
  have hprogram : OutputKind.shown .program (Transcript.ofSource source).events =
      listing (Transcript.ofSource source).program := by
    rw [Transcript.program_eq]
    rfl
  cases tree with
  | none =>
      obtain ⟨herror, htaken⟩ := (Transcript.ofSource source).report_of_working "" none
      refine ⟨herror, fun kind hkind => ?_⟩
      cases List.mem_singleton.mp hkind
      exact htaken.trans (by rw [String.empty_append, hprogram])
  | some sink =>
      obtain ⟨herror, htaken⟩ := (Transcript.ofSource source).report_of_working "" (some "")
      have htree := (Transcript.ofSource source).report_tree_of_working "" (some "")
      refine ⟨herror, fun kind hkind => ?_⟩
      rcases List.mem_cons.mp hkind with rfl | hkind
      · exact htaken.trans (by rw [String.empty_append, hprogram])
      · cases List.mem_singleton.mp hkind
        exact (congrArg (·.getD "") htree).trans String.empty_append

/-- The outputs of a compilation whose sinks refuse everything. -/
def Job.refuses (fails : OutputKind → Bool) (job : Job) (kind : OutputKind) : Bool :=
  decide (kind ∈ job.outputs) && fails kind

theorem Job.holds_toSinks :
    Writers.Holds ((Job.compile program tree).refuses fails) []
      (.toSinks (.refusing (fails .program)) (tree.map fun _ => .refusing (fails .tree))) := by
  cases tree with
  | none => exact ⟨Outlet.holds_toSink _, nofun, fun _ => rfl⟩
  | some sink =>
      refine ⟨Outlet.holds_toSink _, ?_, nofun⟩
      rintro tree ⟨⟩
      exact ⟨Outlet.holds_toSink _, rfl⟩

theorem Job.unclosed?_compile :
    (Job.compile program tree).unclosed? fails source =
      [OutputKind.program, .tree].find? fun kind =>
        (Job.compile program tree).refuses fails kind &&
          decide (kind.shown (Transcript.ofSource source).events ≠ "") := by
  obtain ⟨_, htext⟩ := compile_working source program tree
  rw [unclosed?, List.find?_filter]
  cases tree with
  | none =>
      have hprogram := htext .program (.head _)
      simp [outputs, refuses, List.find?_cons, hprogram]
  | some sink =>
      have hprogram := htext .program (.head _)
      have htree := htext .tree (.tail _ (.head _))
      simp [outputs, refuses, List.find?_cons, hprogram, htree]

theorem Job.compile_refused : (Job.compile program tree).Refused fails source := by
  obtain ⟨herror, htext⟩ := compile_working source program tree
  have hfailing : ∀ kind, (Job.compile program tree).refuses fails kind = true ↔
      kind ∈ (Job.compile program tree).outputs.filter fails := by
    intro kind
    rw [List.mem_filter, refuses, Bool.and_eq_true, decide_eq_true_eq]
  rcases (holds_toSinks fails program tree).recordAll (Transcript.ofSource source).events with
    ⟨next, hrecord, hholds⟩ | ⟨next, kind, hrecord, hrefuses, hsize⟩
  · rcases hclose : next.close with ⟨closed, unclosed⟩
    obtain ⟨_, hreport⟩ := Transcript.report_of_recordAll _ _ hrecord hclose
    have hunclosed : unclosed = (Job.compile program tree).unclosed? fails source := by
      rw [unclosed?_compile]
      exact (congrArg Prod.snd hclose).symm.trans hholds.close
    refine .closing (congrArg Prod.snd hrecord) ?_ ?_
    · rw [herror, ← hunclosed]
      exact hreport.trans (by rw [Option.map_none, Option.none_or])
    · intro kind hmem
      rw [htext kind (List.mem_filter.mp hmem).1]
      exact hholds.size_le ((hfailing kind).mpr hmem)
  · rcases hclose : next.close with ⟨closed, unclosed⟩
    obtain ⟨_, hreport⟩ := Transcript.report_of_recordAll _ _ hrecord hclose
    have hmem := (hfailing kind).mp hrefuses
    refine .during hmem (congrArg Prod.snd hrecord) ?_ ?_
    · exact hreport.trans (by rw [Option.map_some, Option.some_or, Option.some_or])
    · rw [htext kind (List.mem_filter.mp hmem).1]
      exact hsize

end Compile

theorem Job.refused_of_refusing (job : Job) (fails : OutputKind → Bool) (source : String) :
    job.Refused fails source := by
  cases job with
  | compile program tree => exact compile_refused fails source program tree
  | list sink => exact list_refused fails source sink

section Empty

theorem append_ne_empty {first : String} (h : first ≠ "") (second : String) :
    first ++ second ≠ "" := by
  intro hempty
  exact h (String.append_eq_empty_iff.mp hempty).1

theorem line_ne_empty (line : String) : line ++ "\n" ≠ "" := by
  intro hempty
  exact absurd (String.append_eq_empty_iff.mp hempty).2 (by decide)

theorem listing_eq_empty_iff (program : List Instruction) :
    listing program = "" ↔ program = [] := by
  refine ⟨fun hempty => ?_, fun hnil => by rw [hnil, listing_nil]⟩
  cases program with
  | nil => rfl
  | cons instruction rest =>
      rw [listing, List.map_cons, String.join_cons] at hempty
      exact absurd hempty (append_ne_empty (line_ne_empty _) _)

theorem ClassUnit.code_eq_nil_iff (unit : ClassUnit) : unit.code = [] ↔ unit.subroutines = [] := by
  rw [code]
  cases unit.subroutines with
  | nil => exact iff_of_true rfl rfl
  | cons first others => simp [subroutinesCode, Subroutine.code]

theorem ClassUnit.text_tree_ne_empty (unit : ClassUnit) : unit.tree.text ≠ "" := by
  rw [ClassUnit.tree, ParseTree.text_eq, ParseTree.textAt_node]
  exact append_ne_empty (append_ne_empty (line_ne_empty _) _) _

end Empty

section Success

variable {source : String}

theorem listing_program_eq_empty_iff (h : (Transcript.ofSource source).failure = none) :
    listing (Transcript.ofSource source).program = "" ↔
      ∃ unit : ClassUnit, unit.Derives source ∧ unit.subroutines = [] := by
  have hcode : ∀ unit : ClassUnit, unit.Derives source →
      (listing (Transcript.ofSource source).program = "" ↔ unit.subroutines = []) := by
    intro unit hderives
    obtain ⟨hfailure, hprogram⟩ := ofSource_of_derives hderives
    rw [hprogram (hfailure.mp h), listing_eq_empty_iff, unit.code_eq_nil_iff]
  constructor
  · intro hempty
    obtain ⟨unit, hderives⟩ := exists_derives_of_failure_eq_none h
    exact ⟨unit, hderives, (hcode unit hderives).mp hempty⟩
  · rintro ⟨unit, hderives, hnone⟩
    exact (hcode unit hderives).mpr hnone

theorem treeText_ne_empty (h : (Transcript.ofSource source).failure = none) :
    treeText 0 ((Transcript.ofSource source).events.filterMap Event.step?) ≠ "" := by
  obtain ⟨unit, hderives⟩ := exists_derives_of_failure_eq_none h
  rw [Transcript.ofSource, TokenStream.toList] at h ⊢
  rw [treeText_of_words hderives rfl h]
  exact unit.text_tree_ne_empty

/-- With sinks that work a job that succeeds writes something to each of its outputs, but
for the program of a class without subroutines. -/
theorem Job.text_eq_empty_iff {job : Job} (h : job.working.error source = none)
    {kind : OutputKind} (hkind : kind ∈ job.outputs) :
    job.working.text source kind = "" ↔
      kind = .program ∧ ∃ unit : ClassUnit, unit.Derives source ∧ unit.subroutines = [] := by
  cases job with
  | list sink =>
      obtain ⟨_, htext⟩ := list_working source sink
      cases List.mem_singleton.mp hkind
      refine iff_of_false ?_ fun hprogram => absurd hprogram.1 (by decide)
      rw [htext, tokenListText, List.map_cons, String.join_cons]
      exact append_ne_empty (line_ne_empty _) _
  | compile program tree =>
      obtain ⟨herror, htext⟩ := compile_working source program tree
      rw [herror, Option.map_eq_none_iff] at h
      rw [htext kind hkind]
      cases kind with
      | program =>
          rw [OutputKind.shown, ← Transcript.program_eq, listing_program_eq_empty_iff h]
          exact (and_iff_right rfl).symm
      | tree =>
          exact iff_of_false (treeText_ne_empty h) fun hprogram => absurd hprogram.1 (by decide)
      | tokens => cases tree <;> simp [outputs] at hkind

end Success

namespace Job.Refused

variable {fails : OutputKind → Bool} {source : String} {job : Job}

theorem error_eq_none_iff (h : job.Refused fails source) :
    (job.refusing fails).error source = none ↔ job.working.error source = none ∧
      ∀ kind ∈ job.outputs.filter fails, job.working.text source kind = "" := by
  cases h with
  | closing hrefused herror hsize =>
      rw [herror, Option.or_eq_none_iff, Option.map_eq_none_iff, unclosed?, List.find?_eq_none]
      simp only [decide_eq_true_eq, not_not]
  | @during kind hfails hrefused herror hsize =>
      refine iff_of_false (by simp [herror]) ?_
      rintro ⟨_, hempty⟩
      rw [hempty kind hfails] at hsize
      exact absurd hsize (by decide)

theorem error_eq_some (h : job.Refused fails source) {error : CompileError}
    (hwhole : job.working.error source = some error)
    (hsize : ∀ kind ∈ job.outputs.filter fails,
      (job.working.text source kind).utf8ByteSize < bufferSize) :
    (job.refusing fails).error source = some error := by
  cases h with
  | closing hrefused herror _ => rw [herror, hwhole, Option.some_or]
  | during hfails hrefused herror hlarge =>
      exact absurd hlarge (Nat.not_le_of_lt (hsize _ hfails))

/-- An output that gets something, but not more than fits in the buffer, fails when it is
closed, unless one that is closed before it does. -/
theorem of_small (h : job.Refused fails source) (hwhole : job.working.error source = none)
    {kind : OutputKind} {others : List OutputKind}
    (hfailing : job.outputs.filter fails = kind :: others)
    (hne : 0 < (job.working.text source kind).utf8ByteSize)
    (hsize : ∀ other ∈ kind :: others,
      (job.working.text source other).utf8ByteSize < bufferSize) :
    (job.refusing fails).refused source = none ∧
      (job.refusing fails).error source = some (.unwritable kind) := by
  cases h with
  | closing hrefused herror _ =>
      have htext : job.working.text source kind ≠ "" := by
        intro hempty
        rw [hempty] at hne
        exact absurd hne (by decide)
      have hfirst : job.unclosed? fails source = some kind := by
        rw [unclosed?, hfailing]
        exact List.find?_cons_of_pos (decide_eq_true htext)
      refine ⟨hrefused, ?_⟩
      rw [herror, hwhole, Option.none_or, hfirst, Option.map_some]
  | during hfails hrefused herror hlarge =>
      rw [hfailing] at hfails
      exact absurd hlarge (Nat.not_le_of_lt (hsize _ hfails))

/-- An output that gets more than fits in the buffer fails before it is closed. -/
theorem of_large (h : job.Refused fails source) {kind : OutputKind}
    (hfailing : job.outputs.filter fails = [kind])
    (hsize : bufferSize < (job.working.text source kind).utf8ByteSize) :
    (job.refusing fails).refused source = some kind ∧
      (job.refusing fails).error source = some (.unwritable kind) := by
  cases h with
  | closing hrefused herror hsmall =>
      rw [hfailing] at hsmall
      exact absurd hsize (Nat.not_lt_of_le (hsmall kind (.head _)))
  | during hfails hrefused herror hlarge =>
      rw [hfailing] at hfails
      cases List.mem_singleton.mp hfails
      exact ⟨hrefused, herror⟩

end Job.Refused

/-- A job that has sinks refusing everything for some of its outputs succeeds only if it
would with sinks that work, and would write nothing to these outputs. If it would fail
before a buffer is full, it fails so. If a single sink refuses, the job fails with the error
of its output, which has no label, when the output is closed or, with more text than the
buffer takes, before. If the sinks of the program and the tree refuse, the error of the
program is the one that is told. The line offsets are the same. -/
theorem refused_outputs_reported (source : String) (job : Job) (fails : OutputKind → Bool) :
    let whole := job.working
    let cut := job.refusing fails
    let failing := job.outputs.filter fails
    let size := fun kind => (whole.text source kind).utf8ByteSize
    (cut.error source = none ↔
      whole.error source = none ∧ ∀ kind ∈ failing, whole.text source kind = "") ∧
    (whole.error source = none → ∀ kind ∈ job.outputs,
      (whole.text source kind = "" ↔
        kind = .program ∧ ∃ unit : ClassUnit, unit.Derives source ∧ unit.subroutines = [])) ∧
    (∀ error, whole.error source = some error → (∀ kind ∈ failing, size kind < bufferSize) →
      cut.error source = some error) ∧
    (∀ kind, failing = [kind] →
      (whole.error source = none → 0 < size kind → size kind < bufferSize →
        cut.refused source = none ∧ cut.error source = some (.unwritable kind)) ∧
      (bufferSize < size kind →
        cut.refused source = some kind ∧ cut.error source = some (.unwritable kind))) ∧
    (∀ kind, (CompileError.unwritable kind).diagnostic.label = none) ∧
    (failing = [.program, .tree] → whole.error source = none →
      (∀ kind ∈ failing, 0 < size kind ∧ size kind < bufferSize) →
      cut.error source = some (.unwritable .program)) ∧
    cut.offsets source = whole.offsets source := by
  intro whole cut failing size
  have hcases := job.refused_of_refusing fails source
  refine ⟨hcases.error_eq_none_iff, fun hwhole kind hkind => Job.text_eq_empty_iff hwhole hkind,
    fun error hwhole hsize => hcases.error_eq_some hwhole hsize, fun kind hfailing => ⟨?_, ?_⟩,
    fun kind => by cases kind <;> rfl, ?_, ?_⟩
  · intro hwhole hne hsize
    refine hcases.of_small hwhole hfailing hne fun other hother => ?_
    rwa [List.mem_singleton.mp hother]
  · exact hcases.of_large hfailing
  · intro hfailing hwhole hsize
    rw [hfailing] at hsize
    exact (hcases.of_small hwhole hfailing (hsize .program (.head _)).1
      fun other hother => (hsize other hother).2).2
  · exact (Job.offsets_eq source cut).trans (Job.offsets_eq source whole).symm

/-- The program of a class without subroutines is empty, so that only the tree is missed. -/
example : ((Job.compile .unlimited (some .unlimited)).refusing fun _ => true).error
    "class Main \x7b \x7d" = some (.unwritable .tree) := by decide +kernel

end JackLang
