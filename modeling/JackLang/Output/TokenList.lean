import JackLang.Output.Element
import JackLang.Output.Outlet
import JackLang.Token.Scan

/-! # Token lists

The tokens of a source are listed as elements between `<tokens>` and
`</tokens>`, one line for each. Text that is no token ends the list early.
-/

set_option autoImplicit false

namespace JackLang

/-- How the writing of a token list ended: with the number of tokens listed, at
text that is no token, or because the outlet failed. -/
inductive ListingEnd where
  | complete (count : Nat)
  | invalid (error : LexicalError) (found : Token)
  | unwritten
deriving DecidableEq, Repr

/-- Lists tokens behind the given number of others. The outlet is left open. -/
def listAfter (count : Nat) (outlet : Outlet) : List Token → Outlet × ListingEnd
  | [] =>
      match outlet.writeAll ["</tokens>\n"] with
      | (outlet, true) => (outlet, .complete count)
      | (outlet, false) => (outlet, .unwritten)
  | token :: rest =>
      match token.kind with
      | .invalid error => (outlet, .invalid error token)
      | _ =>
          match outlet.writeAll token.linePieces with
          | (outlet, true) => listAfter (count + 1) outlet rest
          | (outlet, false) => (outlet, .unwritten)

/-- Lists the tokens of a source, up to the end of the file. -/
def listTokens (tokens : TokenStream) (outlet : Outlet) : Outlet × ListingEnd :=
  match outlet.writeAll ["<tokens>\n"] with
  | (outlet, true) => listAfter 0 outlet tokens.pending
  | (outlet, false) => (outlet, .unwritten)

end JackLang
