import JackLang.Proofs.Compilation.LookAhead
import JackLang.Proofs.Output.Unlimited
import JackLang.Proofs.SourceLayout

/-! # What decides a compilation

A compilation sees of each token its kind and its lexeme, and no token behind the one
that is the look-ahead when it fails. Two sources whose tokens agree so far give the
same output and the same error, which points at the token of the same number in each.
-/

set_option autoImplicit false

namespace JackLang

/-- The words as tokens whose places are their numbers. -/
def numbered (words : List Word) : List Token :=
  words.mapIdx fun number word => ⟨word.kind, word.lexeme, ⟨number, number⟩⟩

theorem numbered_append (first second : List Word) :
    ∃ tokens, numbered (first ++ second) = numbered first ++ tokens := by
  rw [numbered, List.mapIdx_append]
  exact ⟨_, rfl⟩

theorem length_numbered (words : List Word) : (numbered words).length = words.length :=
  List.length_mapIdx

namespace TokenStream

def words (stream : TokenStream) : List Word :=
  stream.toList.map Token.word

/-- Where the token of a number is placed. -/
def placeOf (stream : TokenStream) (span : Span) : Span :=
  (stream.token span.start).span

theorem toList_eq_map_moved (stream : TokenStream) :
    stream.toList = (numbered stream.words).map (Token.moved stream.placeOf) := by
  apply List.ext_getElem?
  intro number
  rw [List.getElem?_map, numbered, List.getElem?_mapIdx, words, List.getElem?_map]
  cases htoken : stream.toList[number]? with
  | none => rfl
  | some token =>
      -- the place of a numbered token is its number, under which the token is found again
      have hspan : stream.placeOf ⟨number, number⟩ = token.span :=
        congrArg Token.span (token_of_getElem? htoken)
      simp only [Option.map_some, Token.moved, hspan]
      rfl

theorem word_token (stream : TokenStream) (number : Nat) :
    (stream.token number).word =
      (stream.pending.map Token.word)[number]?.getD ⟨.endOfFile, ""⟩ := by
  rw [token_eq, List.getElem?_map]
  cases stream.pending[number]? <;> rfl

theorem words_eq (stream : TokenStream) :
    stream.words = stream.pending.map Token.word ++ [⟨.endOfFile, ""⟩] := by
  rw [words, toList, List.map_append]
  rfl

end TokenStream

/-- Lists that are continued by one and the same word agree as a whole, or they have as
many words in common as they are known to agree on. -/
theorem eq_or_common {first second : List Word} {final : Word} {last : Nat}
    (hfirst : final ∉ first) (hsecond : final ∉ second)
    (h : ∀ number ≤ last, first[number]?.getD final = second[number]?.getD final) :
    first = second ∨ ∃ front rest others, front.length = last + 1 ∧
      first ++ [final] = front ++ rest ∧ second ++ [final] = front ++ others := by
  induction first generalizing second last with
  -- one list does not end inside the other, where the final word does not occur
  | nil =>
      cases second with
      | nil => exact .inl rfl
      | cons other others =>
          have hhead : final = other := h 0 (Nat.zero_le last)
          exact absurd (.head others) (hhead ▸ hsecond)
  | cons word words ih =>
      cases second with
      | nil =>
          have hhead : word = final := h 0 (Nat.zero_le last)
          exact absurd (.head words) (hhead ▸ hfirst)
      | cons other others =>
          have hhead : word = other := h 0 (Nat.zero_le last)
          subst hhead
          cases last with
          | zero => exact .inr ⟨[word], words ++ [final], others ++ [final], rfl, rfl, rfl⟩
          | succ last =>
              have hrest := ih (fun hmem => hfirst (.tail word hmem))
                (fun hmem => hsecond (.tail word hmem))
                fun number hnumber => h (number + 1) (Nat.succ_le_succ hnumber)
              rcases hrest with rfl | ⟨front, rest, more, hlength, hwords, hothers⟩
              · exact .inl rfl
              · exact .inr ⟨word :: front, rest, more, congrArg Nat.succ hlength,
                  congrArg (word :: ·) hwords, congrArg (word :: ·) hothers⟩

section Moved

variable (move : Span → Span)

theorem Transcript.lookAhead_moved (transcript : Transcript) :
    (transcript.moved move).lookAhead = transcript.lookAhead := by
  have hleaf : ∀ event : Event, (event.moved move).isLeaf = event.isLeaf := by
    intro event
    cases event <;> rfl
  simp only [lookAhead, moved, List.countP_map, Function.comp_def, hleaf]

theorem Failure.message_moved (failure : Failure) :
    (failure.moved move).diagnostic.message = failure.diagnostic.message := by
  cases failure with
  | static error => cases error <;> rfl
  | _ => rfl

/-- A failure points at the place of a token, with a note that is not tied to places. -/
theorem Failure.exists_label (failure : Failure) :
    ∃ span note, ∀ move, (failure.moved move).diagnostic.label = some ⟨move span, note⟩ := by
  cases failure with
  | lexical error found => exact ⟨found.span, "", fun _ => rfl⟩
  | unexpected expected found => exact ⟨found.span, found.foundNote, fun _ => rfl⟩
  | static error =>
      cases error with
      | tooManyArguments first => exact ⟨first.span, first.foundNote, fun _ => rfl⟩
      | undeclared name | redeclared name | tooManyVariables kind name =>
          exact ⟨name.span, "", fun _ => rfl⟩
      | integerOutOfRange constant | stringTooLong constant | noCharacterCode c constant =>
          exact ⟨constant.span, "", fun _ => rfl⟩

end Moved

/-- The errors have the same message, and point with the same note at the tokens of one
number. -/
def CompileError.Matches (first second : TokenStream) (error other : CompileError) : Prop :=
  error.diagnostic.message = other.diagnostic.message ∧
    ∃ number note,
      error.diagnostic.label = some ⟨(first.token number).span, note⟩ ∧
      other.diagnostic.label = some ⟨(second.token number).span, note⟩

def Report.WritesLike (first second : Report) : Prop :=
  first.writers.program.outlet.taken = second.writers.program.outlet.taken ∧
    first.writers.tree.map (·.outlet.taken) = second.writers.tree.map (·.outlet.taken)

/-- The transcript of the words of a source, with their numbers as places. -/
def Transcript.ofWords (source : String) : Transcript :=
  .ofTokens (numbered (TokenStream.ofSource source).words)

theorem Transcript.ofSource_eq_moved (source : String) :
    ofSource source = (ofWords source).moved (TokenStream.ofSource source).placeOf := by
  rw [ofSource, TokenStream.toList_eq_map_moved, ofTokens_moved, ofWords]

theorem TokenStream.final_not_mem (source : String) :
    Word.mk .endOfFile "" ∉ (ofSource source).pending.map Token.word := by
  intro hmem
  obtain ⟨token, htoken, hword⟩ := List.mem_map.mp hmem
  exact (regular_of_mem htoken).kind_ne (congrArg Word.kind hword)

/-- Where the tokens agree up to the look-ahead, the words give one transcript. -/
theorem Transcript.ofWords_congr {first second : String} {last : Nat}
    (hagree : ∀ number ≤ last, ((TokenStream.ofSource first).token number).word =
      ((TokenStream.ofSource second).token number).word)
    (hlast : (ofSource first).lookAhead ≤ last) : ofWords first = ofWords second := by
  simp only [TokenStream.word_token] at hagree
  rw [ofSource_eq_moved, lookAhead_moved, ofWords, TokenStream.words_eq] at hlast
  rw [ofWords, ofWords, TokenStream.words_eq, TokenStream.words_eq]
  rcases eq_or_common (TokenStream.final_not_mem first) (TokenStream.final_not_mem second)
    hagree with hwords | ⟨front, rest, others, hlength, hfirst, hsecond⟩
  · rw [hwords]
  · obtain ⟨tokens, htokens⟩ := numbered_append front rest
    obtain ⟨more, hmore⟩ := numbered_append front others
    rw [hfirst, htokens] at hlast ⊢
    rw [hsecond, hmore]
    have hshort : (ofTokens (numbered front ++ tokens)).lookAhead < (numbered front).length := by
      rw [length_numbered]
      omega
    exact (ofTokens_congr hshort more).symm

section Compile

variable (first second taken text : String)

theorem compile_of_ofWords (source : String) :
    (compile source (.working taken) (some (.working text))).error =
        (Transcript.ofWords source).failure.map (fun failure =>
          .failure (failure.moved (TokenStream.ofSource source).placeOf)) ∧
      (compile source (.working taken) (some (.working text))).writers.program.outlet.taken =
        taken ++ listing (Transcript.ofWords source).program ∧
      (compile source (.working taken) (some (.working text))).writers.tree.map
          (·.outlet.taken) =
        some (text ++ treeText 0
          ((Transcript.ofWords source).events.filterMap Event.step?)) := by
  rw [compile, Transcript.ofSource_eq_moved]
  generalize (TokenStream.ofSource source).placeOf = move
  obtain ⟨herror, hprogram⟩ :=
    ((Transcript.ofWords source).moved move).report_of_working taken (some text)
  have htree := ((Transcript.ofWords source).moved move).report_tree_of_working taken (some text)
  refine ⟨herror.trans ?_, hprogram.trans ?_, htree.trans ?_⟩
  · rw [Transcript.moved, Option.map_map]
    rfl
  · rw [Transcript.program_moved]
  · rw [Transcript.moved, filterMap_step?_moved, treeText_moved]
    rfl

theorem compile_alike (h : Transcript.ofWords first = Transcript.ofWords second) :
    Option.Rel (CompileError.Matches (.ofSource first) (.ofSource second))
        (compile first (.working taken) (some (.working text))).error
        (compile second (.working taken) (some (.working text))).error ∧
      (compile first (.working taken) (some (.working text))).WritesLike
        (compile second (.working taken) (some (.working text))) := by
  obtain ⟨herror, hprogram, htree⟩ := compile_of_ofWords taken text first
  obtain ⟨herror', hprogram', htree'⟩ := compile_of_ofWords taken text second
  rw [← h] at herror' hprogram' htree'
  refine ⟨?_, hprogram.trans hprogram'.symm, htree.trans htree'.symm⟩
  rw [herror, herror']
  cases (Transcript.ofWords first).failure with
  | none => exact .none
  | some failure =>
      obtain ⟨span, note, hlabel⟩ := failure.exists_label
      refine .some ⟨?_, span.start, note, hlabel _, hlabel _⟩
      exact (failure.message_moved _).trans (failure.message_moved _).symm

/-- Sources whose tokens agree up to the one that is the look-ahead when the first of
them fails give the same output and the same error, at the token of the same number.
Sources whose tokens all agree are compiled alike. -/
theorem compile_decided_by_look_ahead :
    (∀ last error,
      (∀ number ≤ last, ((TokenStream.ofSource first).token number).word =
        ((TokenStream.ofSource second).token number).word) →
      (compile first (.working taken) (some (.working text))).error = some error →
      (Transcript.ofSource first).lookAhead ≤ last →
      ∃ other, (compile second (.working taken) (some (.working text))).error = some other ∧
        error.Matches (.ofSource first) (.ofSource second) other ∧
        (compile first (.working taken) (some (.working text))).WritesLike
          (compile second (.working taken) (some (.working text)))) ∧
    ((∀ number, ((TokenStream.ofSource first).token number).word =
        ((TokenStream.ofSource second).token number).word) →
      Option.Rel (CompileError.Matches (.ofSource first) (.ofSource second))
          (compile first (.working taken) (some (.working text))).error
          (compile second (.working taken) (some (.working text))).error ∧
        (compile first (.working taken) (some (.working text))).WritesLike
          (compile second (.working taken) (some (.working text)))) := by
  constructor
  · intro last error hagree hfails hlast
    obtain ⟨herror, hwrites⟩ :=
      compile_alike first second taken text (Transcript.ofWords_congr hagree hlast)
    rw [hfails] at herror
    cases hother : (compile second (.working taken) (some (.working text))).error with
    | none =>
        rw [hother] at herror
        cases herror
    | some other =>
        rw [hother, Option.rel_some_some] at herror
        exact ⟨other, rfl, herror, hwrites⟩
  · intro hagree
    exact compile_alike first second taken text
      (Transcript.ofWords_congr (fun number _ => hagree number) (Nat.le_refl _))

end Compile

/-- The field has no name, so that its look-ahead, which is token 5, is refused. -/
def namelessSource : String := "class Main \x7b field int \x7d"

/-- The same tokens up to number 5, and others behind it. -/
def longerSource : String := "class Main\x7b// one\nfield int\n\x7d \x7d 99999"

/-- The same tokens with other gaps. -/
def spacedSource : String := "class/**/Main\n\x7b field  int\x7d // end"

theorem namelessSource_fails :
    (compile namelessSource (.working "") (some (.working ""))).error =
      some (.failure (.unexpected .variableName ⟨.symbol .rightBrace, "\x7d", ⟨23, 24⟩⟩)) := by
  have hfailure : (Transcript.ofSource namelessSource).failure =
      some (.unexpected .variableName ⟨.symbol .rightBrace, "\x7d", ⟨23, 24⟩⟩) := by
    decide +kernel
  have hreport := ((Transcript.ofSource namelessSource).report_of_working "" (some "")).1
  rwa [hfailure] at hreport

theorem compile_decided_by_look_ahead_of_nameless :
    (∀ number ≤ 5, ((TokenStream.ofSource namelessSource).token number).word =
        ((TokenStream.ofSource longerSource).token number).word) ∧
      (compile namelessSource (.working "") (some (.working ""))).error =
        some (.failure (.unexpected .variableName ⟨.symbol .rightBrace, "\x7d", ⟨23, 24⟩⟩)) ∧
      (Transcript.ofSource namelessSource).lookAhead = 5 ∧
      (∃ other, (compile longerSource (.working "") (some (.working ""))).error = some other ∧
        CompileError.Matches (.ofSource namelessSource) (.ofSource longerSource)
          (.failure (.unexpected .variableName ⟨.symbol .rightBrace, "\x7d", ⟨23, 24⟩⟩)) other ∧
        (compile namelessSource (.working "") (some (.working ""))).WritesLike
          (compile longerSource (.working "") (some (.working "")))) ∧
      (∀ number, ((TokenStream.ofSource namelessSource).token number).word =
        ((TokenStream.ofSource spacedSource).token number).word) ∧
      Option.Rel (CompileError.Matches (.ofSource namelessSource) (.ofSource spacedSource))
        (compile namelessSource (.working "") (some (.working ""))).error
        (compile spacedSource (.working "") (some (.working ""))).error ∧
      (compile namelessSource (.working "") (some (.working ""))).WritesLike
        (compile spacedSource (.working "") (some (.working ""))) := by
  have hagree : ∀ number ≤ 5, ((TokenStream.ofSource namelessSource).token number).word =
      ((TokenStream.ofSource longerSource).token number).word := by
    decide +kernel
  have hlast : (Transcript.ofSource namelessSource).lookAhead = 5 := by decide +kernel
  have hwords : (TokenStream.ofSource namelessSource).pending.map Token.word =
      (TokenStream.ofSource spacedSource).pending.map Token.word := by
    decide +kernel
  have hall : ∀ number, ((TokenStream.ofSource namelessSource).token number).word =
      ((TokenStream.ofSource spacedSource).token number).word := by
    intro number
    rw [TokenStream.word_token, TokenStream.word_token, hwords]
  have hlonger := (compile_decided_by_look_ahead namelessSource longerSource "" "").1 5 _ hagree
    namelessSource_fails (Nat.le_of_eq hlast)
  have hspaced := (compile_decided_by_look_ahead namelessSource spacedSource "" "").2 hall
  exact ⟨hagree, namelessSource_fails, hlast, hlonger, hall, hspaced⟩

end JackLang
