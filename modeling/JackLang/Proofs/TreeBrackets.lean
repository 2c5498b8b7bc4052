import JackLang.Proofs.Compilation.Stops
import JackLang.Proofs.Output.Lines
import JackLang.Proofs.Output.Listing
import JackLang.Proofs.TreeOutput

/-! # The brackets and the leaves of a tree

Whether a compilation goes through or not, what it writes of the tree is bracketed, and
the nodes that stay open are those under way where it stops. The leaves are the lines
that begin the list of the tokens of the source, one for each token that is taken.
-/

set_option autoImplicit false

namespace JackLang

section Depth

variable {nodes behind : List Rule} {steps : List Step}

/-- Where only open nodes are closed, the depth is their number. -/
theorem depthBehind_eq_length (h : openBehind? nodes steps = some behind) :
    depthBehind nodes.length steps = behind.length := by
  induction steps generalizing nodes with
  | nil => exact congrArg List.length (Option.some.inj h)
  | cons step rest ih =>
      obtain ⟨between, hstep, hrest⟩ := Option.bind_eq_some_iff.mp h
      have hlength : step.depthBehind nodes.length = between.length := by
        cases step with
        | closed rule =>
            cases nodes with
            | nil => cases hstep
            | cons innermost outer =>
                obtain ⟨_, houter⟩ := Option.ite_none_right_eq_some.mp hstep
                cases houter
                rfl
        | _ =>
            cases hstep
            rfl
      rw [← ih hrest, ← hlength]
      rfl

theorem openBehind?_of_prefix {front : List Step} (hfront : front <+: steps)
    (h : openBehind? nodes steps = some behind) :
    ∃ opened, openBehind? nodes front = some opened := by
  obtain ⟨rest, rfl⟩ := hfront
  rw [openBehind?_append] at h
  obtain ⟨opened, hopened, _⟩ := Option.bind_eq_some_iff.mp h
  exact ⟨opened, hopened⟩

theorem head?_of_closed {rule : Rule} {opened : List Rule}
    (hsteps : openBehind? nodes steps = some opened)
    (h : openBehind? nodes (steps ++ [.closed rule]) = some behind) :
    opened.head? = some rule := by
  rw [openBehind?_append, hsteps, Option.bind_some] at h
  cases opened with
  | nil => cases h
  | cons innermost outer =>
      obtain ⟨_, hstep, _⟩ := Option.bind_eq_some_iff.mp h
      exact congrArg some (Option.ite_none_right_eq_some.mp hstep).1

end Depth

/-- The writer of a tree is as deep as there are nodes open. -/
theorem Writers.depth_of_openBehind? (program taken : String) {events : List Event}
    {opened : List Rule} (h : openBehind? [] (events.filterMap Event.step?) = some opened) :
    ∃ writers, (toSinks (.working program) (some (.working taken))).recordAll events =
        (writers, none) ∧
      writers.tree.map (·.depth) = some opened.length := by
  obtain ⟨⟨next, tree⟩, hwritten, hshows⟩ :=
    recordAll_of_unlimited (unlimited_toSinks program (some taken)) events
  refine ⟨_, hwritten, ?_⟩
  cases hshows.grows with
  | some hgrows => exact congrArg some (hgrows.depth_eq.trans (depthBehind_eq_length h))

section Leaves

variable {tokens : List Token} {number : Nat}

theorem take_leadingTokens (h : ∀ token ∈ tokens.take number, token.kind.isInvalid = false) :
    (leadingTokens tokens).take number = tokens.take number := by
  induction tokens generalizing number with
  | nil => rfl
  | cons token rest ih =>
      cases number with
      | zero => rfl
      | succ number =>
          have hvalid := h token (.head _)
          rw [leadingTokens, List.takeWhile_cons_of_pos (by rw [hvalid]; rfl), List.take_succ_cons,
            List.take_succ_cons]
          exact congrArg (token :: ·) (ih fun other hmem => h other (.tail token hmem))

theorem Token.isListed_of_regular {token : Token} (hregular : token.word.Regular)
    (hvalid : token.kind.isInvalid = false) : token.isListed = true := by
  obtain ⟨kind, lexeme, span⟩ := token
  cases kind with
  | endOfFile => cases hregular
  | invalid error => cases hvalid
  | _ => rfl

/-- Of the tokens that are taken, the end of the file has no line. -/
theorem TokenStream.listed_of_valid (stream : TokenStream)
    (hregular : ∀ token ∈ stream.pending, token.word.Regular)
    (hvalid : ∀ token ∈ stream.toList.take number, token.kind.isInvalid = false) :
    (stream.toList.take number).filter Token.isListed =
      (leadingTokens stream.pending).take number := by
  have htake : stream.toList.take number = stream.pending.take number ++
      [Token.endOfFile stream.length].take (number - stream.pending.length) :=
    List.take_append
  rw [htake] at hvalid ⊢
  have hpending : ∀ token ∈ stream.pending.take number, token.kind.isInvalid = false :=
    fun token hmem => hvalid token (List.mem_append_left _ hmem)
  have hlisted : ∀ token ∈ stream.pending.take number, token.isListed = true :=
    fun token hmem => Token.isListed_of_regular
      (hregular token (List.mem_of_mem_take hmem)) (hpending token hmem)
  have hlast : ∀ token ∈ [Token.endOfFile stream.length].take (number - stream.pending.length),
      ¬token.isListed = true := by
    intro token hmem
    rw [List.mem_singleton.mp (List.mem_of_mem_take hmem)]
    exact Bool.false_ne_true
  rw [List.filter_append, List.filter_eq_self.mpr hlisted, List.filter_eq_nil_iff.mpr hlast,
    List.append_nil, take_leadingTokens hpending]

end Leaves

/-- The lines of tokens in a list are those of the tokens in front of text that is none. -/
theorem tokenLines_write_tokens (source : String) :
    tokenLines (OutputKind.tokens.write source .unlimited).text =
      (leadingTokens (TokenStream.ofSource source).pending).map fun token =>
        ParseTree.wordLine token.word := by
  generalize htokens : (TokenStream.ofSource source).pending = tokens
  have htext : (OutputKind.tokens.write source .unlimited).text =
      String.join (("<tokens>" :: tokenListLines tokens).map (· ++ "\n")) := by
    rw [← String.empty_append (s := String.join _), ← htokens]
    exact (writeTokens_of_working source "").2
  have htags : ∀ line ∈ ["<tokens>", "</tokens>"],
      Unbroken line ∧ tokenLine? line = none := by decide
  have hopen := htags "<tokens>" (.head _)
  have hclose : ∀ line ∈ if tokens.findSome? Token.failure? = none then ["</tokens>"] else [],
      Unbroken line ∧ tokenLine? line = none := by
    intro line hmem
    split at hmem
    · exact htags line (.tail _ hmem)
    · cases hmem
  have hword : ∀ token ∈ leadingTokens tokens, Unbroken (ParseTree.wordLine token.word) := by
    intro token hmem
    have hpending : token ∈ (TokenStream.ofSource source).pending :=
      htokens ▸ (List.takeWhile_prefix _).subset hmem
    exact unbroken_wordLine (TokenStream.unbroken (List.mem_append_left _ hpending))
  have hunbroken : ∀ line ∈ "<tokens>" :: tokenListLines tokens, Unbroken line := by
    rintro line (_ | ⟨_, hmem⟩)
    · exact hopen.1
    · rcases List.mem_append.mp hmem with hmem | hmem
      · obtain ⟨token, htoken, rfl⟩ := List.mem_map.mp hmem
        exact hword token htoken
      · exact (hclose line hmem).1
  rw [htext, tokenLines_join hunbroken, List.filterMap_cons_none hopen.2, tokenListLines,
    List.filterMap_append, List.filterMap_map,
    List.filterMap_eq_nil_iff.mpr fun line hmem => (hclose line hmem).2, List.append_nil]
  have hsome : ∀ token : Token, tokenLine? (ParseTree.wordLine token.word) =
      some (ParseTree.wordLine token.word) := by
    intro token
    have hindented := tokenLine?_of_word 0 token.word
    rwa [ParseTree.lines.indented, Nat.mul_zero, List.replicate_zero, String.ofList_nil,
      String.empty_append] at hindented
  simp [hsome]

section Source

variable (source taken : String)

/-- What the events show is written line by line. -/
theorem write_tree_eq_join :
    (OutputKind.tree.write source (.working taken)).text =
      taken ++ String.join ((nodeLines []
        ((Transcript.ofSource source).events.filterMap Event.step?)).map (· ++ "\n")) := by
  rw [write_tree_text, ← treeText_eq_join]
  rfl

/-- The lines of tokens in a tree are those of the tokens that are taken. -/
theorem tokenLines_write_tree :
    tokenLines (OutputKind.tree.write source .unlimited).text =
      ((leadingTokens (TokenStream.ofSource source).pending).take
        (Transcript.ofSource source).lookAhead).map fun token =>
          ParseTree.wordLine token.word := by
  generalize hshown : (Transcript.ofSource source).events.filterMap Event.step? = shown
  have htext : (OutputKind.tree.write source .unlimited).text =
      String.join ((nodeLines [] shown).map (· ++ "\n")) := by
    rw [← String.empty_append (s := String.join _), ← hshown]
    exact write_tree_eq_join source ""
  have hcarriedOut : tokensTaken (stepsCarriedOut (TokenStream.ofSource source).toList) =
      (TokenStream.ofSource source).toList.take (Transcript.ofSource source).lookAhead :=
    Transcript.tokensTaken_ofTokens _
  have htaken : tokensTaken shown = (TokenStream.ofSource source).toList.take
      (Transcript.ofSource source).lookAhead := by
    rw [← hshown, Transcript.ofSource, Transcript.shown_ofTokens, tokensTaken_shape]
    exact hcarriedOut
  have hunbroken : ∀ line ∈ nodeLines [] shown, Unbroken line := by
    apply unbroken_nodeLines
    intro token hmem
    rw [htaken] at hmem
    exact TokenStream.unbroken (List.mem_of_mem_take hmem)
  obtain ⟨_, hreaches, _⟩ := Standing.reaches_end (TokenStream.ofSource source).toList
  have hvalid := hreaches.valid
  rw [hcarriedOut] at hvalid
  rw [htext, tokenLines_join hunbroken, filterMap_nodeLines, htaken,
    TokenStream.listed_of_valid _ (fun token hmem => TokenStream.regular_of_mem hmem) hvalid]

/-- Up to where a compilation stops, whether it goes through or not, only the innermost
open node is closed, and the writer of the tree is as deep as there are nodes open. The
nodes that stay open are those under way at the standing where it stops. If nothing
fails, all tokens have been taken and one class is written as a whole. Every line is
indented for the nodes around it, and the lines of tokens are, for as many tokens as
have been taken, those of the list of the tokens of the source. -/
theorem write_tree_bracketed (program : String) :
    let tokens := (TokenStream.ofSource source).toList
    let transcript := Transcript.ofSource source
    let shown := transcript.events.filterMap Event.step?
    (∀ front, front <+: transcript.events → ∃ opened writers,
      openBehind? [] (front.filterMap Event.step?) = some opened ∧
      (Writers.toSinks (.working program) (some (.working taken))).recordAll front =
        (writers, none) ∧
      writers.tree.map (·.depth) = some opened.length ∧
      ∀ rule, front ++ [.closed rule] <+: transcript.events → opened.head? = some rule) ∧
    (∃ nodes standing,
      openBehind? [] shown = some nodes ∧
      (Standing.start tokens).Reaches (stepsCarriedOut tokens) standing ∧
      standing.Ends transcript.failure ∧
      standing.tokens = tokens.drop transcript.lookAhead ∧
      underWay? [] standing.goals = some nodes ∧
      (OutputKind.tree.write source (.working taken)).error = transcript.failure.map .failure ∧
      (transcript.failure = none →
        nodes = [] ∧ transcript.lookAhead = tokens.length ∧
        ∃ children, (OutputKind.tree.write source (.working taken)).text =
          taken ++ (ParseTree.node .class children).text)) ∧
    (OutputKind.tree.write source (.working taken)).text =
      taken ++ String.join ((nodeLines [] shown).map (· ++ "\n")) ∧
    tokenLines (OutputKind.tree.write source .unlimited).text =
      (tokenLines (OutputKind.tokens.write source .unlimited).text).take
        transcript.lookAhead := by
  intro tokens transcript shown
  obtain ⟨standing, hreaches, hends⟩ := Standing.reaches_end tokens
  obtain ⟨nodes, hnodes, hunderWay⟩ :=
    hreaches.openBehind? (Standing.underWay?_start tokens)
  have hshown : openBehind? [] shown = some nodes := by
    rw [← hnodes, ← openBehind?_shape [] (stepsCarriedOut tokens), ← Transcript.shown_ofTokens]
    rfl
  refine ⟨?_, ⟨nodes, standing, hshown, hreaches, hends, Standing.tokens_eq_drop hreaches,
    hunderWay, write_tree_error _ _, ?_⟩, write_tree_eq_join source taken, ?_⟩
  · intro front hfront
    obtain ⟨opened, hopened⟩ := openBehind?_of_prefix (hfront.filterMap Event.step?) hshown
    obtain ⟨writers, hwriters, hdepth⟩ := Writers.depth_of_openBehind? program taken hopened
    refine ⟨opened, writers, hopened, hwriters, hdepth, ?_⟩
    intro rule hclosed
    obtain ⟨behind, hbehind⟩ := openBehind?_of_prefix (hclosed.filterMap Event.step?) hshown
    rw [List.filterMap_append] at hbehind
    exact head?_of_closed hopened hbehind
  · intro hfailure
    obtain ⟨unit, hderives⟩ := exists_derives_of_failure_eq_none hfailure
    obtain ⟨children, htree⟩ : ∃ children, unit.tree = .node .class children := ⟨_, rfl⟩
    refine ⟨?_, Transcript.lookAhead_of_failure_eq_none hfailure, children, ?_⟩
    · have hcourse : shown.map (Step.moved Span.forget) = unit.tree.course ++ _ :=
        shown_of_words hderives rfl hfailure
      rw [← openBehind?_moved Span.forget, hcourse, openBehind?_append,
        unit.tree.openBehind?_course] at hshown
      exact (Option.some.inj hshown).symm
    · rw [write_tree_text, ← htree]
      exact congrArg (taken ++ ·) (treeText_of_words hderives rfl hfailure)
  · rw [tokenLines_write_tree, tokenLines_write_tokens, List.map_take]

end Source

end JackLang
