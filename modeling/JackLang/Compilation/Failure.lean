import JackLang.Diagnostic.Basic
import JackLang.Grammar.Reading

/-! # Why a unit does not compile

A unit fails on text that is no token, on tokens that leave the grammar, or on
a name, a number of things or a constant that the language does not allow.
-/

set_option autoImplicit false

namespace JackLang

/-- The errors of tokens that fit the grammar. Each is given with the token it
points at. -/
inductive StaticError where
  | undeclared (name : Token)
  | redeclared (name : Token)
  | tooManyVariables (kind : VariableKind) (name : Token)
  | tooManyArguments (first : Token)
  | integerOutOfRange (constant : Token)
  | stringTooLong (constant : Token)
  | noCharacterCode (c : Char) (constant : Token)
deriving DecidableEq, Repr

inductive Failure where
  | lexical (error : LexicalError) (found : Token)
  | unexpected (expected : Expectation) (found : Token)
  | static (error : StaticError)
deriving DecidableEq, Repr

/-- What a note says about the token that was found. -/
def Token.foundNote (token : Token) : String :=
  if token.kind = .endOfFile then "found end of file" else s!"found '{token.lexeme}'"

namespace StaticError

def message : StaticError → String
  | .undeclared name => s!"Undefined variable '{name.lexeme}'."
  | .redeclared name => s!"'{name.lexeme}' is already declared in this scope."
  | .tooManyVariables kind _ =>
      s!"Too many {kind.text} variables, at most {maxConstant} are allowed."
  | .tooManyArguments _ => s!"Too many arguments, at most {maxConstant} are allowed."
  | .integerOutOfRange _ => LexicalError.integerOutOfRange.message
  | .stringTooLong _ => "String constant is too long."
  | .noCharacterCode c _ => s!"Character '{c}' has no character code."

/-- The place of an error. Only an argument too many is found in front of what
is already accepted, and says what was found. -/
def label : StaticError → Label
  | .undeclared name => ⟨name.span, ""⟩
  | .redeclared name => ⟨name.span, ""⟩
  | .tooManyVariables _ name => ⟨name.span, ""⟩
  | .tooManyArguments first => ⟨first.span, first.foundNote⟩
  | .integerOutOfRange constant => ⟨constant.span, ""⟩
  | .stringTooLong constant => ⟨constant.span, ""⟩
  | .noCharacterCode _ constant => ⟨constant.span, ""⟩

end StaticError

def Failure.diagnostic : Failure → Diagnostic
  | .lexical error found => ⟨error.message, some ⟨found.span, ""⟩⟩
  | .unexpected expected found => ⟨expected.message, some ⟨found.span, found.foundNote⟩⟩
  | .static error => ⟨error.message, some error.label⟩

end JackLang
