import JackLang.Proofs.Output.Unlimited
import JackLang.Proofs.Reading.Standing

/-! # Token lists

A list has a line for each token in front of the first text that is no token. This text is
the error, and without it the list is closed. Listing is writing the pieces of these lines,
and a sink that works takes them all.
-/

set_option autoImplicit false

namespace JackLang

/-- The failure of text that is no token. -/
def Token.failure? (token : Token) : Option Failure :=
  match token.kind with
  | .invalid error => some (.lexical error token)
  | _ => none

theorem Token.failure?_eq_none_iff {token : Token} :
    token.failure? = none ↔ token.kind.isInvalid = false := by
  unfold failure?
  cases token.kind <;> simp [TokenKind.isInvalid]

theorem Token.failure?_eq_some_iff {token : Token} {failure : Failure} :
    token.failure? = some failure ↔
      ∃ error, token.kind = .invalid error ∧ failure = .lexical error token := by
  unfold failure?
  cases token.kind <;> simp [eq_comm]

/-- The lines behind the one that opens the list. -/
def tokenListLines (tokens : List Token) : List String :=
  (leadingTokens tokens).map (fun token => ParseTree.wordLine token.word) ++
    if tokens.findSome? Token.failure? = none then ["</tokens>"] else []

/-- How the listing ends behind the given number of other tokens. -/
def listingEnd (count : Nat) (tokens : List Token) : ListingEnd :=
  match tokens.findSome? Token.failure? with
  | some (.lexical error found) => .invalid error found
  | _ => .complete (count + tokens.length)

theorem listingEnd_cases (count : Nat) (tokens : List Token) :
    (tokens.findSome? Token.failure? = none ∧
        listingEnd count tokens = .complete (count + tokens.length)) ∨
      ∃ error found, tokens.findSome? Token.failure? = some (.lexical error found) ∧
        listingEnd count tokens = .invalid error found := by
  cases hfailure : tokens.findSome? Token.failure? with
  | none => exact .inl ⟨rfl, by rw [listingEnd, hfailure]⟩
  | some failure =>
      obtain ⟨token, _, htoken⟩ := List.exists_of_findSome?_eq_some hfailure
      obtain ⟨error, _, rfl⟩ := Token.failure?_eq_some_iff.mp htoken
      exact .inr ⟨error, token, rfl, by rw [listingEnd, hfailure]⟩

section Cons

variable {token : Token} (rest : List Token)

theorem listingEnd_of_valid (h : token.kind.isInvalid = false) (count : Nat) :
    listingEnd count (token :: rest) = listingEnd (count + 1) rest := by
  have hlength : count + (token :: rest).length = count + 1 + rest.length := by
    rw [List.length_cons]
    omega
  simp only [listingEnd, List.findSome?_cons, Token.failure?_eq_none_iff.mpr h, hlength]

theorem listAfter_of_valid (h : token.kind.isInvalid = false) (count : Nat) (outlet : Outlet) :
    listAfter count outlet (token :: rest) =
      match outlet.writeAll token.linePieces with
      | (outlet, true) => listAfter (count + 1) outlet rest
      | (outlet, false) => (outlet, .unwritten) := by
  rw [listAfter]
  split
  · rename_i error hkind
    rw [hkind] at h
    cases h
  · rfl

end Cons

/-- The pieces of the lines behind the one that opens the list. -/
def tokenListPieces (tokens : List Token) : List String :=
  (leadingTokens tokens).flatMap Token.linePieces ++
    if tokens.findSome? Token.failure? = none then ["</tokens>\n"] else []

/-- Listing tokens is writing the pieces of their lines. -/
theorem listAfter_eq (count : Nat) (outlet : Outlet) (tokens : List Token) :
    listAfter count outlet tokens =
      match outlet.writeAll (tokenListPieces tokens) with
      | (next, true) => (next, listingEnd count tokens)
      | (next, false) => (next, .unwritten) := by
  induction tokens generalizing outlet count with
  | nil => rfl
  | cons token rest ih =>
      cases hvalid : token.kind.isInvalid with
      | true =>
          obtain ⟨failure, hfailure⟩ := Option.ne_none_iff_exists'.mp fun hnone => by
            rw [Token.failure?_eq_none_iff.mp hnone] at hvalid
            cases hvalid
          obtain ⟨error, hkind, rfl⟩ := Token.failure?_eq_some_iff.mp hfailure
          have hpieces : tokenListPieces (token :: rest) = [] := by
            simp [tokenListPieces, leadingTokens, hvalid, hfailure]
          simp [listAfter, hkind, listingEnd, hfailure, hpieces, Outlet.writeAll]
      | false =>
          have hpieces : tokenListPieces (token :: rest) =
              token.linePieces ++ tokenListPieces rest := by
            simp [tokenListPieces, leadingTokens, hvalid, Token.failure?_eq_none_iff.mpr hvalid]
          rw [listAfter_of_valid rest hvalid, hpieces, Outlet.writeAll_append,
            listingEnd_of_valid rest hvalid]
          rcases outlet.writeAll token.linePieces with ⟨next, _ | _⟩
          · rfl
          · exact ih (count + 1) next

theorem listTokens_eq (stream : TokenStream) (outlet : Outlet) :
    listTokens stream outlet =
      match outlet.writeAll ("<tokens>\n" :: tokenListPieces stream.pending) with
      | (next, true) => (next, listingEnd 0 stream.pending)
      | (next, false) => (next, .unwritten) := by
  have hpieces : "<tokens>\n" :: tokenListPieces stream.pending =
      ["<tokens>\n"] ++ tokenListPieces stream.pending := rfl
  rw [listTokens, hpieces, Outlet.writeAll_append]
  rcases outlet.writeAll ["<tokens>\n"] with ⟨next, _ | _⟩
  · rfl
  · exact listAfter_eq 0 next stream.pending

/-- The text of a whole list of tokens. -/
def tokenListText (tokens : List Token) : String :=
  String.join (("<tokens>" :: tokenListLines tokens).map (· ++ "\n"))

theorem join_tokenListPieces (tokens : List Token) :
    String.join ("<tokens>\n" :: tokenListPieces tokens) = tokenListText tokens := by
  have hlines : ∀ listed : List Token, String.join (listed.flatMap Token.linePieces) =
      String.join ((listed.map fun token => ParseTree.wordLine token.word).map (· ++ "\n")) := by
    intro listed
    induction listed with
    | nil => rfl
    | cons token rest ih =>
        rw [List.flatMap_cons, String.join_append, join_tokenPieces, ih, List.map_cons,
          List.map_cons, String.join_cons]
  rw [tokenListText, List.map_cons, String.join_cons, String.join_cons, tokenListPieces,
    tokenListLines, String.join_append, List.map_append, String.join_append, hlines]
  split <;> rfl

/-- With a sink that works, the list fails at the first text that is no token, and has
the lines of the tokens in front of it. -/
theorem writeTokens_of_working (source taken : String) :
    (writeTokens source (.working taken)).error =
        ((TokenStream.ofSource source).pending.findSome? Token.failure?).map .failure ∧
      (writeTokens source (.working taken)).text =
        taken ++ tokenListText (TokenStream.ofSource source).pending := by
  generalize htokens : (TokenStream.ofSource source).pending = tokens
  have hroom : (Outlet.toSink (.working taken)).sink.room = none := rfl
  obtain ⟨listed, hwrite, htakes⟩ :=
    Outlet.writeAll_of_unlimited hroom ("<tokens>\n" :: tokenListPieces tokens)
  have hlist : listTokens (.ofSource source) (.toSink (.working taken)) =
      (listed, listingEnd 0 tokens) := by
    rw [listTokens_eq, htokens, hwrite]
  have hflush := Outlet.flush_of_unlimited htakes.unlimited
  have htext : listed.held = taken ++ tokenListText tokens := by
    rw [htakes.held_eq, join_tokenListPieces]
    simp [Outlet.held, Outlet.toSink, Sink.working]
  rw [writeTokens, hlist]
  rcases listingEnd_cases 0 tokens with ⟨hfailure, hend⟩ | ⟨error, found, hfailure, hend⟩
  · rw [hfailure, hend]
    simp only [hflush]
    exact ⟨rfl, htext⟩
  · rw [hfailure, hend]
    simp only [hflush]
    exact ⟨rfl, htext⟩

end JackLang
