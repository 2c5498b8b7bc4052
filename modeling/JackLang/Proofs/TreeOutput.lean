import JackLang.Proofs.Acceptance

/-! # The tree that is written

The events of a compilation that goes through show the steps of the reading, and so
the tree that is written is the parse tree of the derivation.
-/

set_option autoImplicit false

namespace JackLang

section Words

variable {tokens : List Token} {last : Token} {unit : ClassUnit}

/-- Compiling the words of a unit goes through its parse tree. -/
theorem shown_of_words (hwords : tokens.map Token.word = unit.words)
    (hlast : last.kind = .endOfFile)
    (h : (Transcript.ofTokens (tokens ++ [last])).failure = none) :
    ((Transcript.ofTokens (tokens ++ [last])).events.filterMap Event.step?).map
        (Step.moved Span.forget) =
      unit.tree.course ++ [.took last.bare] := by
  have hbare := ofTokens_bare_of_words hwords hlast
  have hfailure : (followAfter [] .initial none (unit.course ++ [.took last.bare])).failure =
      none := by
    rw [← hbare]
    exact Option.map_eq_none_iff.mpr h
  have hevents := filterMap_step?_followAfter [] hfailure
  rw [← hbare] at hevents
  rw [← filterMap_step?_moved]
  refine hevents.trans ?_
  rw [List.reverse_nil, List.filterMap_nil, List.nil_append, shape_append,
    ClassUnit.shape_course]
  rfl

/-- Compiling the words of a unit shows its parse tree. -/
theorem treeText_of_words (hwords : tokens.map Token.word = unit.words)
    (hlast : last.kind = .endOfFile)
    (h : (Transcript.ofTokens (tokens ++ [last])).failure = none) :
    treeText 0 ((Transcript.ofTokens (tokens ++ [last])).events.filterMap Event.step?) =
      unit.tree.text := by
  have hauxiliary : last.kind.tokenClass = .auxiliary := by
    rw [hlast]
    rfl
  rw [← treeText_moved Span.forget, shown_of_words hwords hlast h,
    unit.tree.treeText_course unit.inner_words, ParseTree.text_eq]
  simp [treeText, Step.lineAt, hauxiliary]

end Words

theorem write_tree_error (source taken : String) :
    (OutputKind.tree.write source (.working taken)).error =
      (Transcript.ofSource source).failure.map .failure :=
  ((Transcript.ofSource source).report_of_working "" (some taken)).1

theorem write_tree_text (source taken : String) :
    (OutputKind.tree.write source (.working taken)).text =
      taken ++ treeText 0 ((Transcript.ofSource source).events.filterMap Event.step?) := by
  have htree : (compile source .unlimited (some (.working taken))).writers.tree.map
      (·.outlet.taken) = some (taken ++ treeText 0 _) :=
    (Transcript.ofSource source).report_tree_of_working "" (some taken)
  rw [OutputKind.write, htree, Option.getD_some]

end JackLang
