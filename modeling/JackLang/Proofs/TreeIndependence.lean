import JackLang.Proofs.Output.Limited
import JackLang.Proofs.Token.LineStarts
import JackLang.Proofs.TreeOutput

/-! # Programs with and without a tree

Asking for the tree of a source makes no difference to its program, to the error or to the
lines. If the sink of the tree gives out, the program is cut short, and that is an error.
-/

set_option autoImplicit false

namespace JackLang

/-- The program of the first events comes first in that of all. -/
theorem listing_of_prefix {front events : List Event} (h : front <+: events) :
    ∃ rest, listing (events.filterMap Event.instruction?) =
      listing (front.filterMap Event.instruction?) ++ rest := by
  obtain ⟨behind, rfl⟩ := h
  exact ⟨_, by rw [List.filterMap_append, listing_append]⟩

/-- With a sink for the tree that works, compiling gives the program and the error that it
gives without, and the tree that is written on its own. The lines of the source are found
wherever scanning is left off. With any sink for the tree the program is the listing of
the events up to some point, so that it begins the one without a tree. The sink fails just
if the whole tree goes beyond its limit, which is an error, and otherwise the tree makes no
difference. -/
theorem compile_undisturbed_by_tree (source taken written : String) :
    let transcript := Transcript.ofSource source
    let alone := compile source (.working taken) none
    let both := compile source (.working taken) (some (.working written))
    let tree := OutputKind.tree.write source (.working written)
    both.error = alone.error ∧ tree.error = alone.error ∧
    both.writers.program.outlet.taken = alone.writers.program.outlet.taken ∧
    both.writers.tree.map (·.outlet.taken) = some tree.text ∧
    (∀ scanned, ((LineScan.ofSource source).advanced scanned).lineOffsets =
      .ok (.ofSource source)) ∧
    ∀ sink : Sink,
      let broken := compile source (.working taken) (some sink)
      let whole := sink.taken ++ treeText 0 (transcript.events.filterMap Event.step?)
      let fails := (Writers.toSinks (.working taken) (some sink)).TreeFails transcript.events
      (∃ front, front <+: transcript.events ∧
        broken.writers.program.outlet.taken =
          taken ++ listing (front.filterMap Event.instruction?)) ∧
      (∃ rest, alone.writers.program.outlet.taken =
        broken.writers.program.outlet.taken ++ rest) ∧
      (fails ↔ sink.Exceeded whole) ∧ (fails → broken.error ≠ none) ∧
      (¬fails →
        broken.error = alone.error ∧
        broken.writers.program.outlet.taken = alone.writers.program.outlet.taken ∧
        broken.writers.tree.map (·.outlet.taken) = some whole) := by
  intro transcript alone both tree
  obtain ⟨haloneError, haloneTaken⟩ := transcript.report_of_working taken none
  obtain ⟨hbothError, hbothTaken⟩ := transcript.report_of_working taken (some written)
  have hbothTree := transcript.report_tree_of_working taken (some written)
  have halone : alone.error = transcript.failure.map .failure := haloneError
  have hprogram : alone.writers.program.outlet.taken =
      taken ++ listing (transcript.events.filterMap Event.instruction?) := by
    rw [← transcript.program_eq]
    exact haloneTaken
  refine ⟨hbothError.trans haloneError.symm, (write_tree_error source written).trans halone.symm,
    hbothTaken.trans haloneTaken.symm, ?_, LineScan.lineOffsets_advanced source, ?_⟩
  · rw [show tree.text = _ from write_tree_text source written]
    exact hbothTree
  · intro sink broken whole fails
    have hbegins : ∀ front, front <+: transcript.events →
        broken.writers.program.outlet.taken =
          taken ++ listing (front.filterMap Event.instruction?) →
        ∃ rest, alone.writers.program.outlet.taken =
          broken.writers.program.outlet.taken ++ rest := by
      intro front hfront hbroken
      obtain ⟨rest, hrest⟩ := listing_of_prefix hfront
      exact ⟨rest, by rw [hprogram, hbroken, hrest, String.append_assoc]⟩
    rcases transcript.report_tree_cases taken sink with
      ⟨hfits, hworks, herror, htaken, htree⟩ | ⟨hexceeded, hfails, herror, front, hfront, htaken⟩
    · have hbroken : broken.writers.program.outlet.taken =
          taken ++ listing (transcript.events.filterMap Event.instruction?) := by
        rw [← transcript.program_eq]
        exact htaken
      exact ⟨⟨transcript.events, List.prefix_rfl, hbroken⟩,
        hbegins _ List.prefix_rfl hbroken, iff_of_false hworks hfits, fun h => absurd h hworks,
        fun _ => ⟨herror.trans halone.symm, hbroken.trans hprogram.symm, htree⟩⟩
    · exact ⟨⟨front, hfront, htaken⟩, hbegins front hfront htaken,
        iff_of_true hfails hexceeded, fun _ => herror, fun h => absurd hfails h⟩

end JackLang
