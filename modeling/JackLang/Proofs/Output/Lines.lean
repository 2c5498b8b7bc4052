import JackLang.Proofs.Output.Unlimited
import JackLang.Proofs.Reading.Nodes
import JackLang.Proofs.SourceLayout

/-! # Lines of tokens

No lexeme has a line break in it, so what is written for a token is a line of its own,
and a text falls back into the lines it is made of. A tag that opens or closes a node
stands alone on its line, without a blank, which tells it from the line of a token.
-/

set_option autoImplicit false

namespace JackLang

/-- The lines that a text completes, behind the characters of its first line so far,
which come last first. -/
def linesAfter (line : List Char) : List Char → List (List Char)
  | [] => []
  | c :: rest =>
      if c = '\n' then line.reverse :: linesAfter [] rest else linesAfter (c :: line) rest

/-- The lines that a text is made of, without what is left behind its last line break. -/
def completeLines (text : String) : List String :=
  (linesAfter [] text.toList).map String.ofList

/-- The line without its indentation, if it is that of a token. -/
def tokenLine? (line : String) : Option String :=
  let text := line.toList.dropWhile (· = ' ')
  if ' ' ∈ text then some (String.ofList text) else none

/-- The lines of tokens in a text, without their indentation. -/
def tokenLines (text : String) : List String :=
  ((linesAfter [] text.toList).map String.ofList).filterMap tokenLine?

/-- There is no line break in the text. -/
def Unbroken (text : String) : Prop := '\n' ∉ text.toList

instance (text : String) : Decidable (Unbroken text) :=
  inferInstanceAs (Decidable ¬_)

@[simp] theorem unbroken_append {first second : String} :
    Unbroken (first ++ second) ↔ Unbroken first ∧ Unbroken second := by
  simp [Unbroken]

theorem linesAfter_append {first : List Char} (h : '\n' ∉ first) (line rest : List Char) :
    linesAfter line (first ++ '\n' :: rest) = (line.reverse ++ first) :: linesAfter [] rest := by
  induction first generalizing line with
  | nil => simp [linesAfter]
  | cons c others ih =>
      rw [List.mem_cons, not_or] at h
      rw [List.cons_append, linesAfter, if_neg (Ne.symm h.1), ih h.2]
      simp

/-- A text falls into the lines it is joined from. -/
theorem linesAfter_join {lines : List String} (h : ∀ line ∈ lines, Unbroken line) :
    linesAfter [] (String.join (lines.map (· ++ "\n"))).toList = lines.map String.toList := by
  induction lines with
  | nil => simp [linesAfter]
  | cons line others ih =>
      have hbreak : (line ++ "\n" ++ String.join (others.map (· ++ "\n"))).toList =
          line.toList ++ '\n' :: (String.join (others.map (· ++ "\n"))).toList := by
        simp
      rw [List.map_cons, String.join_cons, hbreak, linesAfter_append (h line (.head others)),
        ih fun other hmem => h other (.tail line hmem)]
      rfl

theorem completeLines_join {lines : List String} (h : ∀ line ∈ lines, Unbroken line) :
    completeLines (String.join (lines.map (· ++ "\n"))) = lines := by
  rw [completeLines, linesAfter_join h, List.map_map]
  simp [Function.comp_def]

theorem tokenLines_join {lines : List String} (h : ∀ line ∈ lines, Unbroken line) :
    tokenLines (String.join (lines.map (· ++ "\n"))) = lines.filterMap tokenLine? := by
  rw [tokenLines, linesAfter_join h, List.map_map]
  simp [Function.comp_def]

section Indented

variable (depth : Nat)

theorem unbroken_indented {line : String} (h : Unbroken line) :
    Unbroken (ParseTree.lines.indented depth line) := by
  have hblanks : Unbroken (String.ofList (List.replicate (2 * depth) ' ')) := by
    simp [Unbroken, List.mem_replicate]
  exact unbroken_append.mpr ⟨hblanks, h⟩

theorem dropWhile_indented (line : String) :
    (ParseTree.lines.indented depth line).toList.dropWhile (· = ' ') =
      line.toList.dropWhile (· = ' ') := by
  rw [ParseTree.lines.indented, String.toList_append, String.toList_ofList]
  exact List.dropWhile_append_of_pos (by simp [List.mem_replicate])

theorem tokenLine?_of_tag {tag : String} (h : ' ' ∉ tag.toList) :
    tokenLine? (ParseTree.lines.indented depth tag) = none := by
  rw [tokenLine?, dropWhile_indented]
  exact if_neg fun hmem => h ((List.dropWhile_suffix _).subset hmem)

theorem tokenLine?_of_word (word : Word) :
    tokenLine? (ParseTree.lines.indented depth (ParseTree.wordLine word)) =
      some (ParseTree.wordLine word) := by
  have hstart : (ParseTree.wordLine word).toList.dropWhile (· = ' ') =
      (ParseTree.wordLine word).toList := by
    simp [ParseTree.wordLine]
  have hblank : ' ' ∈ (ParseTree.wordLine word).toList := by
    simp [ParseTree.wordLine]
  rw [tokenLine?, dropWhile_indented, hstart]
  simp [hblank]

end Indented

section Lexemes

theorem unbroken_escape {text : String} (h : Unbroken text) : Unbroken (escape text) := by
  have hchar : ∀ c, c ≠ '\n' → '\n' ∉ escapeChar c := by
    intro c hc
    unfold escapeChar
    repeat' split
    all_goals simp [Ne.symm hc]
  simp only [Unbroken, escape, String.toList_ofList, List.mem_flatMap, not_exists, not_and]
  intro c hmem
  exact hchar c fun hc => h (hc ▸ hmem)

theorem unbroken_wordLine {word : Word} (h : Unbroken word.lexeme) :
    Unbroken (ParseTree.wordLine word) := by
  have htag : Unbroken word.kind.tokenClass.tag := by
    cases word.kind.tokenClass <;> decide
  have hescaped := unbroken_escape h
  simp only [ParseTree.wordLine, unbroken_append]
  exact ⟨⟨⟨⟨⟨⟨by decide, htag⟩, by decide⟩, hescaped⟩, by decide⟩, htag⟩, by decide⟩

/-- There is no line break in what a token stands for. -/
theorem IsToken.unbroken {behind text : List Char} {kind : TokenKind} {lexeme : String}
    (h : IsToken behind kind lexeme text) : Unbroken lexeme := by
  have hpart : isWordPart '\n' = false := by decide
  cases h with
  | keyword reserved hend => cases reserved <;> decide
  | identifier hfirst hrest hname hend =>
      rw [Unbroken, String.toList_ofList, List.mem_cons, not_or]
      refine ⟨?_, fun hmem => ?_⟩
      · rintro rfl
        cases hfirst
      · rw [hrest _ hmem] at hpart
        cases hpart
  | integer hne hdigits hvalue hend =>
      rw [Unbroken, String.toList_ofList]
      intro hmem
      cases hdigits _ hmem
  | string hcontent =>
      rw [Unbroken, String.toList_ofList]
      exact fun hmem => (hcontent _ hmem).2 rfl
  | symbol mark hslash => cases mark <;> decide
  | _ => decide

theorem TokenStream.unbroken {source : String} {token : Token}
    (h : token ∈ (TokenStream.ofSource source).toList) : Unbroken token.lexeme := by
  rw [TokenStream.toList, List.mem_append] at h
  rcases h with h | h
  · have hlaidOut := (TokenStream.laidOut_iff source _).mpr rfl
    obtain ⟨_, _, _, _, _, hword⟩ := hlaidOut.exists_word token h
    exact hword.unbroken
  · rw [List.mem_singleton.mp h]
    exact List.not_mem_nil

end Lexemes

/-- Whether a token has a line of its own. -/
def Token.isListed (token : Token) : Bool :=
  token.kind.tokenClass ≠ .auxiliary

/-- The lines of steps, each indented by two blanks for every node that is open around
it. The tags of a node lie in the nodes around it. -/
def nodeLines (nodes : List Rule) : List Step → List String
  | [] => []
  | .opened rule :: rest =>
      ParseTree.lines.indented nodes.length ("<" ++ rule.tag ++ ">") ::
        nodeLines (rule :: nodes) rest
  | .closed rule :: rest =>
      ParseTree.lines.indented nodes.tail.length ("</" ++ rule.tag ++ ">") ::
        nodeLines nodes.tail rest
  | .took token :: rest =>
      if token.isListed then
        ParseTree.lines.indented nodes.length (ParseTree.wordLine token.word) ::
          nodeLines nodes rest
      else nodeLines nodes rest
  | .act _ :: rest => nodeLines nodes rest

section Steps

variable (nodes : List Rule) (steps : List Step)

theorem treeText_eq_join :
    treeText nodes.length steps = String.join ((nodeLines nodes steps).map (· ++ "\n")) := by
  induction steps generalizing nodes with
  | nil => rfl
  | cons step rest ih =>
      cases step with
      | opened rule =>
          rw [treeText, nodeLines, List.map_cons, String.join_cons, ← ih]
          rfl
      | closed rule =>
          rw [treeText, nodeLines, List.map_cons, String.join_cons, ← ih, List.length_tail]
          rfl
      | act action =>
          rw [treeText, nodeLines, ← ih]
          exact String.empty_append
      | took token =>
          have hdepth : (Step.took token).depthBehind nodes.length = nodes.length := rfl
          rw [treeText, nodeLines, hdepth, ih]
          by_cases hlisted : token.kind.tokenClass = .auxiliary
          · simp [Step.lineAt, Token.isListed, hlisted]
          · simp [Step.lineAt, Token.isListed, hlisted, String.join_cons]

theorem unbroken_nodeLines (h : ∀ token ∈ tokensTaken steps, Unbroken token.lexeme) :
    ∀ line ∈ nodeLines nodes steps, Unbroken line := by
  have htag : ∀ rule : Rule, Unbroken rule.tag := by
    intro rule
    cases rule <;> decide
  induction steps generalizing nodes with
  | nil => simp [nodeLines]
  | cons step rest ih =>
      cases step with
      | opened rule =>
          rintro line (_ | ⟨_, hmem⟩)
          · exact unbroken_indented _ (by simp [htag]; decide)
          · exact ih _ h line hmem
      | closed rule =>
          rintro line (_ | ⟨_, hmem⟩)
          · exact unbroken_indented _ (by simp [htag]; decide)
          · exact ih _ h line hmem
      | act action => exact ih nodes h
      | took token =>
          have hrest := ih nodes fun other hmem => h other (.tail token hmem)
          rw [nodeLines]
          split
          · rintro line (_ | ⟨_, hmem⟩)
            · exact unbroken_indented _ (unbroken_wordLine (h token (.head _)))
            · exact hrest line hmem
          · exact hrest

/-- The lines of tokens in a tree are those of the tokens that are taken. -/
theorem filterMap_nodeLines :
    (nodeLines nodes steps).filterMap tokenLine? =
      ((tokensTaken steps).filter Token.isListed).map fun token =>
        ParseTree.wordLine token.word := by
  have htag : ∀ rule : Rule, ' ' ∉ rule.tag.toList := by
    intro rule
    cases rule <;> decide
  induction steps generalizing nodes with
  | nil => rfl
  | cons step rest ih =>
      cases step with
      | opened rule =>
          rw [nodeLines, List.filterMap_cons_none (tokenLine?_of_tag _ (by simp [htag])), ih,
            tokensTaken_opened]
      | closed rule =>
          rw [nodeLines, List.filterMap_cons_none (tokenLine?_of_tag _ (by simp [htag])), ih,
            tokensTaken_closed]
      | act action => exact ih nodes
      | took token =>
          rw [nodeLines, tokensTaken_took, List.filter_cons]
          split
          · rw [List.filterMap_cons_some (tokenLine?_of_word _ _), ih, List.map_cons]
          · exact ih nodes

end Steps

end JackLang
