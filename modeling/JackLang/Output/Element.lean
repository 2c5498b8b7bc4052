import JackLang.Grammar.Rule

/-! # Elements

Tokens and the nodes of a parse tree are written as XML elements. A token is
one line with its class and its lexeme, in which the reserved characters are
replaced by entities.
-/

set_option autoImplicit false

namespace JackLang

/-- The text that stands for a character inside an element. -/
def escapeChar (c : Char) : List Char :=
  if c = '<' then "&lt;".toList
  else if c = '>' then "&gt;".toList
  else if c = '&' then "&amp;".toList
  else if c = '"' then "&quot;".toList
  else [c]

def escape (text : String) : String :=
  String.ofList (text.toList.flatMap escapeChar)

def Token.linePieces (token : Token) : List String :=
  let tag := token.kind.tokenClass.tag
  ["<", tag, "> ", escape token.lexeme, " </", tag, ">\n"]

def Rule.openingPieces (rule : Rule) : List String :=
  ["<", rule.tag, ">\n"]

def Rule.closingPieces (rule : Rule) : List String :=
  ["</", rule.tag, ">\n"]

end JackLang
