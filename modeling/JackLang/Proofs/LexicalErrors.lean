import JackLang.Proofs.Reading.Held
import JackLang.Proofs.StaticErrors
import JackLang.Proofs.SyntaxErrors
import JackLang.Proofs.TreeBrackets

/-! # Text that is no token

Compiling and listing stop at the first text that is no token, if compiling gets so far.
Where it does not, it has failed at a token in front of this text and for another
reason. None of the outputs depends on what follows.
-/

set_option autoImplicit false

namespace JackLang

/-- The token that a failure points at. -/
def Failure.token : Failure → Token
  | .lexical _ found => found
  | .unexpected _ found => found
  | .static error => error.token

theorem Failure.label_diagnostic (failure : Failure) :
    ∃ note, failure.diagnostic.label = some ⟨failure.token.span, note⟩ := by
  cases failure with
  | lexical error found | unexpected expected found => exact ⟨_, rfl⟩
  | static error => cases error <;> exact ⟨_, rfl⟩

section Messages

theorem getElem?_append_of_getElem? {first : String} {number : Nat} {c : Char}
    (h : first.toList[number]? = some c) (second : String) :
    (first ++ second).toList[number]? = some c := by
  rw [String.toList_append, List.getElem?_append_left (List.getElem?_eq_some_iff.mp h).1, h]

theorem LexicalError.toList_message (error : LexicalError) :
    error.message.toList.head? ∈ [some 'U', some 'M', some 'I'] ∧
      error.message.toList[2]? ∈ [some 'e', some 'l', some 't'] := by
  cases error <;> decide

/-- The words for names and limits are not those for text that is no token, unless an
integer is out of range. -/
theorem StaticError.message_ne {error : StaticError}
    (h : ∀ constant, error ≠ .integerOutOfRange constant) (lexical : LexicalError) :
    error.message ≠ lexical.message := by
  intro hmessage
  obtain ⟨hfirst, hthird⟩ := lexical.toList_message
  rw [← hmessage, error.head?_message] at hfirst
  rw [← hmessage] at hthird
  cases error with
  | undeclared name =>
      -- both may begin with the same two letters
      have hletter : (StaticError.undeclared name).message.toList[2]? = some 'd' :=
        getElem?_append_of_getElem? (getElem?_append_of_getElem? rfl _) _
      rw [hletter] at hthird
      exact absurd hthird (by decide)
  | integerOutOfRange constant => exact h constant rfl
  | _ => exact absurd hfirst (by simp [initial])

theorem Expectation.message_ne (expected : Expectation) (error : LexicalError) :
    expected.message ≠ error.message := by
  intro hmessage
  obtain ⟨hfirst, _⟩ := error.toList_message
  rw [← hmessage] at hfirst
  cases expected <;> exact absurd hfirst (by decide)

end Messages

/-- Only an integer can be out of range. -/
theorem Context.integer_of_error {context : Context} {action : Action} {constant : Token}
    (h : (context.perform action).error = some (.integerOutOfRange constant)) :
    action = .integer constant ∧ maxConstant < decimalValue constant.lexeme.toList := by
  cases action with
  | integer other =>
      simp only [perform] at h
      split at h
      · cases h
      · rename_i hvalue
        cases h
        exact ⟨rfl, Nat.lt_of_not_le hvalue⟩
  | declare kind type name =>
      simp only [perform, declare] at h
      obtain ⟨found, _, herror⟩ := Option.map_eq_some_iff.mp h
      cases found <;> cases herror
  | require name | load name | store name =>
      simp only [perform, withVariable] at h
      split at h <;> cases h
  | string other =>
      simp only [perform, string] at h
      split at h
      · cases h
      · obtain ⟨c, _, herror⟩ := Option.map_eq_some_iff.mp h
        cases herror
  | argument callee count first =>
      simp only [perform] at h
      split at h <;> cases h
  | _ => cases h

namespace Standing

variable {tokens : List Token} {last : Standing} {failure : Failure}

/-- A compilation stops at text that is no token, or else at a token in front of which it
has failed for another reason, at one of the tokens that lead up to such text. -/
theorem Ends.lexical_or (hreaches : (start tokens).Reaches (stepsCarriedOut tokens) last)
    (hconstant : ∀ token ∈ leadingTokens tokens, token.kind = .integerConstant →
      decimalValue token.lexeme.toList ≤ maxConstant)
    (h : last.Ends (some failure)) :
    (∃ error found, failure = .lexical error found ∧ found.kind = .invalid error ∧
        last.tokens.head? = some found) ∨
      failure.token ∈ leadingTokens tokens ∧
        (∃ look, look.kind.isInvalid = false ∧ last.tokens.head? = some look) ∧
        ∀ error : LexicalError, failure.diagnostic.message ≠ error.message := by
  have hsound := hreaches.sound (sound_start tokens)
  generalize hfailure : some failure = ended at h
  cases h with
  | verdict verdict hconcerns =>
      cases verdict with
      | accepted => cases hfailure
      | lexical error found =>
          cases hfailure
          exact .inl ⟨error, found, rfl, hconcerns⟩
      | unexpected expected found =>
          cases hfailure
          obtain ⟨hvalid, hhead⟩ := hconcerns
          obtain ⟨rest, hrest⟩ := List.head?_eq_some_iff.mp hhead
          refine .inr ⟨hsound.leading found ?_, ⟨found, hvalid, hhead⟩, expected.message_ne⟩
          rw [hrest, leadingTokens_of_valid hvalid]
          exact .head _
  | @static context action next error hmove herror =>
      cases hfailure
      cases hmove with
      | @act look goals number rest action hvalid =>
          obtain ⟨htoken, hinteger⟩ := hsound.held _ (.head goals)
          refine .inr ⟨htoken _ (Context.token?_of_error herror), ⟨look, hvalid, rfl⟩,
            StaticError.message_ne ?_⟩
          rintro constant rfl
          obtain ⟨rfl, hvalue⟩ := Context.integer_of_error herror
          have hle := hconstant constant (htoken constant rfl) (hinteger constant rfl)
          omega

end Standing

theorem leadingTokens_of_invalid {front : List Token} {found : Token}
    (hfront : ∀ token ∈ front, token.kind.isInvalid = false)
    (hfound : found.kind.isInvalid = true) (behind : List Token) :
    leadingTokens (front ++ found :: behind) = front := by
  have hall : ∀ token ∈ front, (!token.kind.isInvalid) = true := by
    intro token hmem
    rw [hfront token hmem]
    rfl
  rw [leadingTokens, List.takeWhile_append_of_pos hall,
    List.takeWhile_cons_of_neg (by simp [hfound]), List.append_nil]

section Invalid

variable {front : List Token} {found : Token} {lexical : LexicalError}

/-- Text that is no token is never taken, and fails the compilation that gets to it. Any
other failure is in front of it, and is not told in the words for such text. -/
theorem Transcript.failure_of_invalid (hfront : ∀ token ∈ front, token.kind.isInvalid = false)
    (hfound : found.kind = .invalid lexical)
    (hconstant : ∀ token ∈ front, token.kind = .integerConstant →
      decimalValue token.lexeme.toList ≤ maxConstant) (behind : List Token) :
    (ofTokens (front ++ found :: behind)).lookAhead ≤ front.length ∧
      ∃ failure, (ofTokens (front ++ found :: behind)).failure = some failure ∧
        (failure = .lexical lexical found ∨
          (ofTokens (front ++ found :: behind)).lookAhead ≠ front.length ∧
          failure.token ∈ front ∧
          ∀ error : LexicalError, failure.diagnostic.message ≠ error.message) := by
  have hinvalid : found.kind.isInvalid = true := by
    rw [hfound]
    rfl
  have hleading := leadingTokens_of_invalid hfront hinvalid behind
  generalize htokens : front ++ found :: behind = tokens at hleading ⊢
  have hat : tokens[front.length]? = some found := by
    rw [← htokens, List.getElem?_append_right (Nat.le_refl _), Nat.sub_self]
    rfl
  obtain ⟨last, hreaches, hends⟩ := Standing.reaches_end tokens
  have hdrop := Standing.tokens_eq_drop hreaches
  have hle : (ofTokens tokens).lookAhead ≤ front.length := by
    by_contra hlt
    have hmem : found ∈ tokensTaken (stepsCarriedOut tokens) := by
      rw [tokensTaken_ofTokens]
      apply List.mem_of_getElem? (i := front.length)
      rwa [List.getElem?_take_of_lt (by omega)]
    rw [hreaches.valid found hmem] at hinvalid
    cases hinvalid
  have hhead : last.tokens.head? = tokens[(ofTokens tokens).lookAhead]? := by
    rw [hdrop, List.head?_drop]
  refine ⟨hle, ?_⟩
  cases hfailure : (ofTokens tokens).failure with
  | none =>
      rw [lookAhead_of_failure_eq_none hfailure, ← htokens, List.length_append,
        List.length_cons] at hle
      omega
  | some failure =>
      rw [hfailure] at hends
      refine ⟨failure, rfl, ?_⟩
      rcases hends.lexical_or hreaches (by rwa [hleading]) with
        ⟨error, other, rfl, hother, hlast⟩ | ⟨htoken, ⟨look, hvalid, hlast⟩, hmessage⟩
      · left
        have hnot : ¬(ofTokens tokens).lookAhead < front.length := by
          intro hlt
          rw [hhead, ← htokens, List.getElem?_append_left (htokens ▸ hlt)] at hlast
          have hvalid := hfront other (List.mem_of_getElem? hlast)
          rw [hother] at hvalid
          cases hvalid
        rw [hhead, Nat.le_antisymm hle (Nat.le_of_not_lt hnot), hat] at hlast
        cases hlast
        rw [hfound] at hother
        cases hother
        rfl
      · refine .inr ⟨?_, hleading ▸ htoken, hmessage⟩
        intro hlookAhead
        rw [hhead, hlookAhead, hat] at hlast
        cases hlast
        rw [hvalid] at hinvalid
        cases hinvalid

/-- Nothing behind text that is no token has a part in the compilation. -/
theorem Transcript.ofTokens_invalid_congr
    (hfront : ∀ token ∈ front, token.kind.isInvalid = false)
    (hfound : found.kind = .invalid lexical)
    (hconstant : ∀ token ∈ front, token.kind = .integerConstant →
      decimalValue token.lexeme.toList ≤ maxConstant) (behind others : List Token) :
    ofTokens (front ++ found :: others) = ofTokens (front ++ found :: behind) := by
  have hle := (failure_of_invalid hfront hfound hconstant behind).1
  have hlt : (ofTokens (front ++ [found] ++ behind)).lookAhead < (front ++ [found]).length := by
    rw [List.append_assoc, List.length_append]
    exact Nat.lt_succ_of_le hle
  have hcongr := ofTokens_congr hlt others
  rwa [List.append_assoc, List.append_assoc] at hcongr

/-- Where all tokens are in order, no failure is told in the words for text that is
none. -/
theorem Transcript.message_ne_of_valid {tokens : List Token}
    (h : ∀ token ∈ tokens, token.kind.isInvalid = false)
    (hconstant : ∀ token ∈ tokens, token.kind = .integerConstant →
      decimalValue token.lexeme.toList ≤ maxConstant) {failure : Failure}
    (hfailure : (ofTokens tokens).failure = some failure) (error : LexicalError) :
    failure.diagnostic.message ≠ error.message := by
  obtain ⟨last, hreaches, hends⟩ := Standing.reaches_end tokens
  rw [hfailure] at hends
  have hleading : ∀ token ∈ leadingTokens tokens, token.kind = .integerConstant →
      decimalValue token.lexeme.toList ≤ maxConstant :=
    fun token hmem => hconstant token ((List.takeWhile_prefix _).subset hmem)
  rcases hends.lexical_or hreaches hleading with ⟨_, found, _, hfound, hlast⟩ | ⟨_, _, hmessage⟩
  · have hmem : found ∈ tokens := by
      have htokens : tokens = _ ++ last.tokens := hreaches.tokens_eq
      rw [htokens]
      exact List.mem_append_right _ (List.mem_of_mem_head? hlast)
    have hvalid := h found hmem
    rw [hfound] at hvalid
    cases hvalid
  · exact hmessage error

end Invalid

theorem findSome?_failure?_eq_some {tokens : List Token} {failure : Failure}
    (h : tokens.findSome? Token.failure? = some failure) :
    ∃ front found rest error, tokens = front ++ found :: rest ∧
      (∀ token ∈ front, token.kind.isInvalid = false) ∧ found.kind = .invalid error ∧
      failure = .lexical error found := by
  obtain ⟨front, found, rest, rfl, hfound, hfront⟩ := List.findSome?_eq_some_iff.mp h
  obtain ⟨error, hkind, rfl⟩ := Token.failure?_eq_some_iff.mp hfound
  exact ⟨front, found, rest, error, rfl,
    fun token hmem => Token.failure?_eq_none_iff.mp (hfront token hmem), hkind, rfl⟩

theorem TokenStream.constant_le {source : String} {token : Token}
    (h : token ∈ (TokenStream.ofSource source).pending) (hkind : token.kind = .integerConstant) :
    decimalValue token.lexeme.toList ≤ maxConstant := by
  have hregular := regular_of_mem h
  obtain ⟨kind, lexeme, span⟩ := token
  cases hkind
  exact hregular

theorem write_tokens_error (source taken : String) :
    (OutputKind.tokens.write source (.working taken)).error =
      ((TokenStream.ofSource source).pending.findSome? Token.failure?).map .failure :=
  (writeTokens_of_working source taken).1

/-- The first text in a source that is no token, with the tokens in front of it and what
is scanned behind it. -/
structure FirstInvalid (source : String) (front : List Token) (found : Token)
    (rest : List Token) (lexical : LexicalError) : Prop where
  pending_eq : (TokenStream.ofSource source).pending = front ++ found :: rest
  valid : ∀ token ∈ front, token.kind.isInvalid = false
  kind_eq : found.kind = .invalid lexical

namespace FirstInvalid

variable {source : String} {front rest : List Token} {found : Token} {lexical : LexicalError}

theorem exists_of_refused {taken : String} {refused : CompileError}
    (h : (OutputKind.tokens.write source (.working taken)).error = some refused) :
    ∃ front found rest lexical, FirstInvalid source front found rest lexical ∧
      refused = .failure (.lexical lexical found) := by
  rw [write_tokens_error] at h
  obtain ⟨cause, hcause, rfl⟩ := Option.map_eq_some_iff.mp h
  obtain ⟨front, found, rest, lexical, hpending, hfront, hfound, rfl⟩ :=
    findSome?_failure?_eq_some hcause
  exact ⟨front, found, rest, lexical, ⟨hpending, hfront, hfound⟩, rfl⟩

theorem constant_le (h : FirstInvalid source front found rest lexical) :
    ∀ token ∈ front, token.kind = .integerConstant →
      decimalValue token.lexeme.toList ≤ maxConstant := by
  intro token hmem
  have htoken : token ∈ (TokenStream.ofSource source).pending := by
    rw [h.pending_eq]
    exact List.mem_append_left _ hmem
  exact TokenStream.constant_le htoken

theorem stop_le_start (h : FirstInvalid source front found rest lexical) :
    ∀ token ∈ front, token.span.stop ≤ found.span.start := by
  have horder := ((TokenStream.laidOut_iff source _).mpr rfl).inOrder
  rw [h.pending_eq] at horder
  intro token hmem
  exact (List.pairwise_append.mp horder).2.2 token hmem found (.head rest)

theorem leadingTokens_eq (h : FirstInvalid source front found rest lexical) :
    leadingTokens (TokenStream.ofSource source).pending = front := by
  have hinvalid : found.kind.isInvalid = true := by
    rw [h.kind_eq]
    rfl
  rw [h.pending_eq]
  exact leadingTokens_of_invalid h.valid hinvalid rest

theorem exists_transcript_eq (h : FirstInvalid source front found rest lexical) :
    ∃ behind, Transcript.ofSource source = Transcript.ofTokens (front ++ found :: behind) := by
  refine ⟨rest ++ [.endOfFile (TokenStream.ofSource source).length], ?_⟩
  rw [Transcript.ofSource, TokenStream.toList, h.pending_eq, List.append_assoc]
  rfl

end FirstInvalid

section Source

variable (source taken : String) (tree : Option String)

/-- Where the list of tokens fails, at text that is no token, compiling fails too, with
the same error or with one that lies in front of this text and is none of such text.
With this text as its look-ahead it is the same error. No output has anything from
there on in it. Where the list of tokens is complete, no error is one of such text. -/
theorem compile_agrees_on_invalid_text :
    (∀ refused, (OutputKind.tokens.write source (.working taken)).error = some refused →
      ∃ front found rest lexical failed,
        (TokenStream.ofSource source).pending = front ++ found :: rest ∧
        (∀ token ∈ front, token.kind.isInvalid = false) ∧ found.kind = .invalid lexical ∧
        refused = .failure (.lexical lexical found) ∧
        refused.diagnostic = ⟨lexical.message, some ⟨found.span, ""⟩⟩ ∧
        (compile source (.working taken) (tree.map .working)).error = some failed ∧
        (OutputKind.tree.write source (.working taken)).error = some failed ∧
        (failed = refused ∨
          (∃ label, failed.diagnostic.label = some label ∧
            label.span.stop ≤ found.span.start) ∧
          ∀ error : LexicalError, failed.diagnostic.message ≠ error.message) ∧
        (Transcript.ofSource source).lookAhead ≤ front.length ∧
        ((Transcript.ofSource source).lookAhead = front.length → failed = refused) ∧
        (∀ others, Transcript.ofTokens (front ++ found :: others) =
          Transcript.ofSource source) ∧
        tokenLines (OutputKind.tokens.write source .unlimited).text =
          front.map (fun token => ParseTree.wordLine token.word) ∧
        tokenLines (OutputKind.tree.write source .unlimited).text =
          (front.take (Transcript.ofSource source).lookAhead).map fun token =>
            ParseTree.wordLine token.word) ∧
    ((OutputKind.tokens.write source (.working taken)).error = none →
      ∀ failed, (compile source (.working taken) (tree.map .working)).error = some failed ∨
          (OutputKind.tree.write source (.working taken)).error = some failed →
        ∀ error : LexicalError, failed.diagnostic.message ≠ error.message) := by
  have hcompile : (compile source (.working taken) (tree.map .working)).error =
      (Transcript.ofSource source).failure.map .failure :=
    ((Transcript.ofSource source).report_of_working taken tree).1
  have htree := write_tree_error source taken
  constructor
  · intro refused hrefused
    obtain ⟨front, found, rest, lexical, hfirst, rfl⟩ := FirstInvalid.exists_of_refused hrefused
    obtain ⟨behind, htranscript⟩ := hfirst.exists_transcript_eq
    obtain ⟨hle, failure, hfailure, hcases⟩ :=
      Transcript.failure_of_invalid hfirst.valid hfirst.kind_eq hfirst.constant_le behind
    rw [← htranscript] at hle hfailure hcases
    rw [hfailure] at hcompile htree
    refine ⟨front, found, rest, lexical, .failure failure, hfirst.pending_eq, hfirst.valid,
      hfirst.kind_eq, rfl, rfl, hcompile, htree, ?_, hle, ?_, ?_, ?_, ?_⟩
    · rcases hcases with rfl | ⟨_, htoken, hmessage⟩
      · exact .inl rfl
      · obtain ⟨note, hlabel⟩ := failure.label_diagnostic
        exact .inr ⟨⟨_, hlabel, hfirst.stop_le_start _ htoken⟩, hmessage⟩
    · intro hat
      rcases hcases with rfl | ⟨hne, _⟩
      · rfl
      · exact absurd hat hne
    · intro others
      rw [htranscript]
      exact Transcript.ofTokens_invalid_congr hfirst.valid hfirst.kind_eq hfirst.constant_le
        behind others
    · rw [tokenLines_write_tokens, hfirst.leadingTokens_eq]
    · rw [tokenLines_write_tree, hfirst.leadingTokens_eq]
  · intro hnone failed hfailed error
    rw [hcompile, htree, or_self] at hfailed
    obtain ⟨failure, hfailure, rfl⟩ := Option.map_eq_some_iff.mp hfailed
    rw [write_tokens_error, Option.map_eq_none_iff, List.findSome?_eq_none_iff] at hnone
    refine Transcript.message_ne_of_valid ?_ ?_ hfailure error
    · intro token hmem
      rcases List.mem_append.mp hmem with hmem | hmem
      · exact Token.failure?_eq_none_iff.mp (hnone token hmem)
      · rw [List.mem_singleton.mp hmem]
        rfl
    · intro token hmem hkind
      rcases List.mem_append.mp hmem with hmem | hmem
      · exact TokenStream.constant_le hmem hkind
      · rw [List.mem_singleton.mp hmem] at hkind
        cases hkind

end Source

/-- A statement in the place of a subroutine, and behind it text that is no token. -/
def strayLetSource : String := "class Main \x7b let 1a"

theorem compile_agrees_on_invalid_text_of_strayLet :
    ∃ refused failed,
      (OutputKind.tokens.write strayLetSource (.working "")).error = some refused ∧
      refused.diagnostic = ⟨"Malformed integer constant.", some ⟨⟨17, 19⟩, ""⟩⟩ ∧
      (compile strayLetSource (.working "") none).error = some failed ∧ failed ≠ refused ∧
      (∃ label, failed.diagnostic.label = some label ∧ label.span.stop ≤ 17) ∧
      ∀ error : LexicalError, failed.diagnostic.message ≠ error.message := by
  have hlist : (OutputKind.tokens.write strayLetSource (.working "")).error.map
      CompileError.diagnostic = some ⟨"Malformed integer constant.", some ⟨⟨17, 19⟩, ""⟩⟩ := by
    decide +kernel
  have hprogram : (compile strayLetSource (.working "") none).error.map (·.diagnostic.message) =
      some "Expected subroutine declaration or '\x7d' after class body." := by
    decide +kernel
  obtain ⟨refused, hrefused, hdiagnostic⟩ := Option.map_eq_some_iff.mp hlist
  obtain ⟨front, found, rest, lexical, failed, _, _, _, rfl, _, hcompile, _, hcases, _⟩ :=
    (compile_agrees_on_invalid_text strayLetSource "" none).1 refused hrefused
  have hmessage : failed.diagnostic.message ≠ "Malformed integer constant." := by
    rw [Option.map_none] at hcompile
    rw [hcompile, Option.map_some] at hprogram
    rw [Option.some.inj hprogram]
    decide
  have hne : failed ≠ .failure (.lexical lexical found) := by
    rintro rfl
    exact hmessage (congrArg Diagnostic.message hdiagnostic)
  have hstart : found.span.start = 17 := by
    have hlabel := congrArg Diagnostic.label hdiagnostic
    exact congrArg (·.span.start) (Option.some.inj hlabel)
  refine ⟨_, failed, hrefused, hdiagnostic, hcompile, hne, ?_⟩
  rcases hcases with heq | hearlier
  · exact absurd heq hne
  · rwa [hstart] at hearlier

end JackLang
