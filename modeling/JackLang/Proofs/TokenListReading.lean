import JackLang.Proofs.Output.Lines
import JackLang.Proofs.Output.Listing
import Mathlib.Data.List.Count
import Mathlib.Data.List.TakeWhile

/-! # Token lists, read back

A list of tokens can be read back line by line: a line gives the tag and the lexeme that
it was written for, once the entities in it are characters again. Each entity is replaced
where it stands, so an ampersand that comes out of one never joins the text behind it to
another. Lexemes have no line break, which keeps each of them on its line.
-/

set_option autoImplicit false

namespace JackLang

/-- The texts that stand for reserved characters. -/
def entities : List String :=
  ["&lt;", "&gt;", "&amp;", "&quot;"]

/-- Puts the reserved characters back in the place of their entities. -/
def unescape : List Char → List Char
  | '&' :: 'l' :: 't' :: ';' :: rest => '<' :: unescape rest
  | '&' :: 'g' :: 't' :: ';' :: rest => '>' :: unescape rest
  | '&' :: 'a' :: 'm' :: 'p' :: ';' :: rest => '&' :: unescape rest
  | '&' :: 'q' :: 'u' :: 'o' :: 't' :: ';' :: rest => '"' :: unescape rest
  | c :: rest => c :: unescape rest
  | [] => []

/-- The tag and the lexeme of an element that is a line of its own. -/
def readElement? (line : String) : Option (String × String) := do
  let inside ← line.toList.dropPrefix? "<".toList
  let tag := inside.takeWhile (· ≠ '>')
  let content ← inside.dropPrefix? (tag ++ "> ".toList)
  let lexeme ← content.dropSuffix? (" </".toList ++ tag ++ ">".toList)
  pure (String.ofList tag, String.ofList (unescape lexeme))

/-- Nothing reserved stands in a text but ampersands, which start entities. -/
structure Escaped (text : List Char) : Prop where
  no_open : '<' ∉ text
  no_close : '>' ∉ text
  no_quote : '"' ∉ text
  entity : ∀ rest, '&' :: rest <:+ text → ∃ entity ∈ entities, entity.toList <+: '&' :: rest

namespace Escaped

theorem nil : Escaped [] := by
  refine ⟨List.not_mem_nil, List.not_mem_nil, List.not_mem_nil, ?_⟩
  intro rest hsuffix
  cases List.suffix_nil.mp hsuffix

theorem cons {c : Char} {text : List Char} (hreserved : c ∉ ['<', '>', '"'])
    (hentity : c = '&' → ∃ entity ∈ entities, entity.toList <+: c :: text)
    (h : Escaped text) : Escaped (c :: text) := by
  simp only [List.mem_cons, List.not_mem_nil, or_false, not_or] at hreserved
  obtain ⟨hopen, hclose, hquote⟩ := hreserved
  constructor
  · simp [Ne.symm hopen, h.no_open]
  · simp [Ne.symm hclose, h.no_close]
  · simp [Ne.symm hquote, h.no_quote]
  · intro rest hsuffix
    rcases List.suffix_cons_iff.mp hsuffix with heq | hsuffix
    · obtain ⟨rfl, rfl⟩ := List.cons.inj heq
      exact hentity rfl
    · exact h.entity rest hsuffix

theorem plain {c : Char} {text : List Char} (hreserved : c ∉ ['<', '>', '"', '&'])
    (h : Escaped text) : Escaped (c :: text) := by
  apply h.cons
  · exact fun hmem => hreserved (List.mem_append_left ['&'] hmem)
  · rintro rfl
    exact absurd (by decide) hreserved

theorem append_of_plain {front text : List Char}
    (hfront : ∀ c ∈ front, c ∉ ['<', '>', '"', '&']) (h : Escaped text) :
    Escaped (front ++ text) := by
  induction front with
  | nil => exact h
  | cons c front ih =>
      exact (ih fun other hmem => hfront other (.tail c hmem)).plain (hfront c (.head front))

theorem append_entity {entity : String} {text : List Char} (hentity : entity ∈ entities)
    (h : Escaped text) : Escaped (entity.toList ++ text) := by
  have hshape : ∀ entity ∈ entities, entity.toList = '&' :: entity.toList.tail ∧
      entity.toList.tail.all (· ∉ ['<', '>', '"', '&']) = true := by decide
  obtain ⟨hstart, hall⟩ := hshape entity hentity
  have hplain : ∀ c ∈ entity.toList.tail, c ∉ ['<', '>', '"', '&'] := fun c hmem =>
    of_decide_eq_true (List.all_eq_true.mp hall c hmem)
  rw [hstart]
  apply (h.append_of_plain hplain).cons (by decide)
  intro _
  exact ⟨entity, hentity, hstart ▸ List.prefix_append _ text⟩

end Escaped

/-- A character is written as itself, or as the entity that is read as it. -/
theorem escapeChar_cases (c : Char) :
    (c ∉ ['<', '>', '"', '&'] ∧ escapeChar c = [c]) ∨
      ∃ entity ∈ entities, escapeChar c = entity.toList ∧
        ∀ rest, unescape (entity.toList ++ rest) = c :: unescape rest := by
  unfold escapeChar
  split
  · subst c
    exact .inr ⟨"&lt;", by decide, rfl, fun _ => rfl⟩
  split
  · subst c
    exact .inr ⟨"&gt;", by decide, rfl, fun _ => rfl⟩
  split
  · subst c
    exact .inr ⟨"&amp;", by decide, rfl, fun _ => rfl⟩
  split
  · subst c
    exact .inr ⟨"&quot;", by decide, rfl, fun _ => rfl⟩
  · refine .inl ⟨?_, rfl⟩
    simp_all

theorem unescape_cons {c : Char} (h : c ≠ '&') (rest : List Char) :
    unescape (c :: rest) = c :: unescape rest := by
  simp [unescape, h]

theorem unescape_escapeChar (c : Char) (rest : List Char) :
    unescape (escapeChar c ++ rest) = c :: unescape rest := by
  rcases escapeChar_cases c with ⟨hplain, hchar⟩ | ⟨entity, _, hchar, hread⟩
  · rw [hchar]
    apply unescape_cons
    rintro rfl
    exact hplain (by decide)
  · rw [hchar]
    exact hread rest

theorem unescape_escape (text : String) : unescape (escape text).toList = text.toList := by
  rw [escape, String.toList_ofList]
  induction text.toList with
  | nil => rfl
  | cons c rest ih => rw [List.flatMap_cons, unescape_escapeChar, ih]

theorem escape_injective : Function.Injective escape := by
  intro first second heq
  apply String.toList_injective
  rw [← unescape_escape first, ← unescape_escape second, heq]

theorem escaped_escape (text : String) : Escaped (escape text).toList := by
  rw [escape, String.toList_ofList]
  induction text.toList with
  | nil => exact .nil
  | cons c rest ih =>
      rw [List.flatMap_cons]
      rcases escapeChar_cases c with ⟨hplain, hchar⟩ | ⟨entity, hentity, hchar, _⟩
      · rw [hchar]
        exact ih.plain hplain
      · rw [hchar]
        exact ih.append_entity hentity

theorem readElement?_wordLine (word : Word) :
    readElement? (ParseTree.wordLine word) = some (word.kind.tokenClass.tag, word.lexeme) := by
  generalize htag : word.kind.tokenClass.tag = tag
  have hclose : ∀ c ∈ tag.toList, decide (c ≠ '>') = true := by
    rw [← htag, ← List.all_eq_true]
    cases word.kind.tokenClass <;> decide
  have hline : (ParseTree.wordLine word).toList =
      "<".toList ++ (tag.toList ++ "> ".toList ++
        ((escape word.lexeme).toList ++ (" </".toList ++ tag.toList ++ ">".toList))) := by
    simp [ParseTree.wordLine, htag]
  have hinside : (tag.toList ++ "> ".toList ++
      ((escape word.lexeme).toList ++ (" </".toList ++ tag.toList ++ ">".toList))).takeWhile
        (· ≠ '>') = tag.toList := by
    rw [List.append_assoc, List.takeWhile_append_of_pos hclose]
    simp
  have hlexeme : ((escape word.lexeme).toList ++
      (" </".toList ++ tag.toList ++ ">".toList)).dropSuffix?
        (" </".toList ++ tag.toList ++ ">".toList) = some (escape word.lexeme).toList :=
    List.dropSuffix?_eq_some_iff.mpr ⟨_, rfl, beq_self_eq_true _⟩
  rw [readElement?, hline, List.dropPrefix?_append_of_beq _ (beq_self_eq_true _)]
  simp only [Option.bind_eq_bind, Option.bind_some, hinside,
    List.dropPrefix?_append_of_beq _ (beq_self_eq_true _), hlexeme, unescape_escape,
    String.ofList_toList]
  rfl

/-- The list of a source in which all text is tokens goes through, and is made of complete
lines. Read back one by one, these are the classes and the lexemes of the tokens, in their
order. What stands for a lexeme in them is read back whatever its characters are: no two
texts are escaped alike, and nothing in an escaped text is taken for a tag or a quote. -/
theorem token_list_reads_back {source : String}
    (h : ∀ token ∈ (TokenStream.ofSource source).pending, token.kind.isInvalid = false) :
    (∃ lines,
      (writeTokens source .unlimited).error = none ∧
      (writeTokens source .unlimited).text =
        String.join (("<tokens>" :: lines ++ ["</tokens>"]).map (· ++ "\n")) ∧
      completeLines (writeTokens source .unlimited).text =
        "<tokens>" :: lines ++ ["</tokens>"] ∧
      lines.map readElement? = (TokenStream.ofSource source).pending.map fun token =>
        some (token.kind.tokenClass.tag, token.lexeme)) ∧
    Function.Injective escape ∧
    ∀ text, Escaped (escape text).toList := by
  obtain ⟨herror, htext⟩ := writeTokens_of_working source ""
  rw [String.empty_append] at htext
  generalize hlines : (TokenStream.ofSource source).pending.map
    (fun token => ParseTree.wordLine token.word) = lines
  have hfailure : (TokenStream.ofSource source).pending.findSome? Token.failure? = none :=
    List.findSome?_eq_none_iff.mpr fun token hmem =>
      Token.failure?_eq_none_iff.mpr (h token hmem)
  have hleading : leadingTokens (TokenStream.ofSource source).pending =
      (TokenStream.ofSource source).pending :=
    List.takeWhile_eq_self_iff.mpr fun token hmem => by rw [h token hmem]; rfl
  have hjoin : (writeTokens source .unlimited).text =
      String.join (("<tokens>" :: lines ++ ["</tokens>"]).map (· ++ "\n")) := by
    rw [List.cons_append, ← hlines, ← hleading]
    rw [tokenListText, tokenListLines, if_pos hfailure] at htext
    exact htext
  have hunbroken : ∀ line ∈ "<tokens>" :: lines ++ ["</tokens>"], Unbroken line := by
    intro line hmem
    rw [List.mem_append, List.mem_cons, List.mem_singleton, ← hlines, List.mem_map] at hmem
    rcases hmem with (rfl | ⟨token, hmem, rfl⟩) | rfl
    · decide
    · exact unbroken_wordLine (TokenStream.unbroken (List.mem_append_left _ hmem))
    · decide
  refine ⟨⟨lines, ?_, hjoin, ?_, ?_⟩, escape_injective, escaped_escape⟩
  · rw [hfailure] at herror
    exact herror
  · rw [hjoin, completeLines_join hunbroken]
  · rw [← hlines, List.map_map]
    apply List.map_congr_left
    intro token _
    exact readElement?_wordLine token.word

/-- String constants that look like a closing tag and like entities. -/
def disguisedSource : String := "\"</stringConstant>\" \" &amp;lt; \" <"

theorem disguised_tokens_read_back :
    (∀ token ∈ (TokenStream.ofSource disguisedSource).pending, token.kind.isInvalid = false) ∧
    ∃ lines,
      completeLines (writeTokens disguisedSource .unlimited).text =
        "<tokens>" :: lines ++ ["</tokens>"] ∧
      lines.map readElement? =
        [some ("stringConstant", "</stringConstant>"), some ("stringConstant", " &amp;lt; "),
          some ("symbol", "<")] := by
  have hvalid : ∀ token ∈ (TokenStream.ofSource disguisedSource).pending,
      token.kind.isInvalid = false := by decide +kernel
  obtain ⟨⟨lines, _, _, hlines, hread⟩, _⟩ := token_list_reads_back hvalid
  refine ⟨hvalid, lines, hlines, ?_⟩
  rw [hread]
  decide +kernel

end JackLang
