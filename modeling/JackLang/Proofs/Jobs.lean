import JackLang.Proofs.LexicalErrors
import JackLang.Proofs.LineOffsets
import JackLang.Proofs.Token.Extent

/-! # Jobs

What is done with a source is to compile it, with its parse tree or without, or to list
its tokens. Each way gives an error or none, and line offsets in any case. The error of a
source is found at one of its tokens.
-/

set_option autoImplicit false

namespace JackLang

/-- What is done with a source, and the sinks that the outputs go to. -/
inductive Job where
  | compile (program : Sink) (tree : Option Sink)
  | list (sink : Sink)
deriving DecidableEq, Repr

namespace Job

def error (source : String) : Job → Option CompileError
  | .compile program tree => (JackLang.compile source program tree).error
  | .list sink => (writeTokens source sink).error

def offsets (source : String) : Job → Except LineOffsets.Malformed LineOffsets
  | .compile program tree => compiledOffsets source program tree
  | .list sink => listedOffsets source sink

theorem offsets_eq (source : String) (job : Job) :
    job.offsets source = .ok (.ofSource source) := by
  cases job with
  | compile program tree => exact compiledOffsets_eq source program tree
  | list sink => exact listedOffsets_eq source sink

end Job

/-- How an output of a kind is made. -/
def OutputKind.job (kind : OutputKind) (sink : Sink) : Job :=
  match kind with
  | .program => .compile sink none
  | .tokens => .list sink
  | .tree => .compile .unlimited (some sink)

theorem OutputKind.error_write (kind : OutputKind) (source : String) (sink : Sink) :
    (kind.write source sink).error = (kind.job sink).error source := by
  cases kind <;> rfl

/-- A failure points at one of the tokens. If that is text that is no token, the failure is
told in the words for this text. -/
def Failure.PointsAt (failure : Failure) (tokens : List Token) : Prop :=
  failure.token ∈ tokens ∧
    ∀ error, failure.token.kind = .invalid error → failure.diagnostic.message = error.message

theorem TokenStream.constant_le_of_mem_toList {source : String} {token : Token}
    (h : token ∈ (TokenStream.ofSource source).toList) (hkind : token.kind = .integerConstant) :
    decimalValue token.lexeme.toList ≤ maxConstant := by
  rcases List.mem_append.mp h with hmem | hmem
  · exact constant_le hmem hkind
  · rw [List.mem_singleton.mp hmem] at hkind
    cases hkind

theorem Transcript.pointsAt_of_failure {source : String} {failure : Failure}
    (h : (Transcript.ofSource source).failure = some failure) :
    failure.PointsAt (TokenStream.ofSource source).toList := by
  obtain ⟨last, hreaches, hends⟩ := Standing.reaches_end (TokenStream.ofSource source).toList
  rw [ofSource] at h
  rw [h] at hends
  have hleading : ∀ token ∈ leadingTokens (TokenStream.ofSource source).toList,
      token ∈ (TokenStream.ofSource source).toList ∧ token.kind.isInvalid = false := by
    intro token hmem
    exact ⟨(List.takeWhile_prefix _).subset hmem, by simpa using List.mem_takeWhile_imp hmem⟩
  rcases hends.lexical_or hreaches fun token hmem =>
      TokenStream.constant_le_of_mem_toList (hleading token hmem).1 with
    ⟨error, found, rfl, hkind, hhead⟩ | ⟨htoken, _, _⟩
  · refine ⟨?_, fun other hother => ?_⟩
    · have htokens := hreaches.tokens_eq
      rw [show (TokenStream.ofSource source).toList = _ from htokens]
      exact List.mem_append_right _ (List.mem_of_mem_head? hhead)
    · have hsame := hkind.symm.trans hother
      cases hsame
      rfl
  · obtain ⟨hmem, hvalid⟩ := hleading _ htoken
    refine ⟨hmem, fun error hkind => ?_⟩
    rw [hkind] at hvalid
    cases hvalid

/-- A list of tokens ends early only at one of them that is no token. -/
theorem pointsAt_of_listTokens {source : String} {outlet : Outlet} {error : LexicalError}
    {found : Token} (h : (listTokens (.ofSource source) outlet).2 = .invalid error found) :
    (Failure.lexical error found).PointsAt (TokenStream.ofSource source).toList := by
  rw [listTokens_eq] at h
  rcases listingEnd_cases 0 (TokenStream.ofSource source).pending with
    ⟨_, hend⟩ | ⟨lexical, token, hfailure, hend⟩
  · rw [hend] at h
    split at h <;> cases h
  · rw [hend] at h
    split at h
    · cases h
      obtain ⟨other, hmem, hother⟩ := List.exists_of_findSome?_eq_some hfailure
      obtain ⟨_, hkind, hsame⟩ := Token.failure?_eq_some_iff.mp hother
      cases hsame
      refine ⟨List.mem_append_left _ hmem, fun kind hagain => ?_⟩
      have hkinds := hkind.symm.trans hagain
      cases hkinds
      rfl
    · cases h

/-- Whatever the sinks take, a failure of the source points at one of its tokens. -/
theorem Job.pointsAt_of_error {source : String} {job : Job} {failure : Failure}
    (h : job.error source = some (.failure failure)) :
    failure.PointsAt (TokenStream.ofSource source).toList := by
  cases job with
  | compile program tree => exact Transcript.pointsAt_of_failure (failure_of_error h)
  | list sink =>
      simp only [error, writeTokens] at h
      split at h
      · split at h <;> cases h
      · rename_i lexical found hfinish
        cases h
        exact pointsAt_of_listTokens hfinish
      · cases h

/-- What a label points at are some characters of the source, which are on one line unless
they are a block comment that is not closed. -/
theorem Job.exists_extent_of_error {source : String} {job : Job} {error : CompileError}
    {label : Label} (h : job.error source = some error)
    (hlabel : error.diagnostic.label = some label) :
    ∃ front word behind, source.toList = front ++ (word ++ behind) ∧
      label.span = ⟨byteLength front, byteLength front + byteLength word⟩ ∧
      (error.diagnostic.message ≠ LexicalError.unterminatedComment.message → '\n' ∉ word) := by
  cases error with
  | unwritable kind => cases kind <;> cases hlabel
  | failure failure =>
      obtain ⟨hmem, hmessage⟩ := pointsAt_of_error h
      obtain ⟨note, hfound⟩ := failure.label_diagnostic
      obtain ⟨front, word, behind, htext, hspan, hline⟩ := TokenStream.exists_extent hmem
      rw [show failure.diagnostic.label = some label from hlabel] at hfound
      cases hfound
      exact ⟨front, word, behind, htext, hspan,
        fun hother => hline fun hkind => hother (hmessage _ hkind)⟩

end JackLang
