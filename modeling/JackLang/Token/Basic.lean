import JackLang.Text.Bytes

/-! # Tokens

A token is a kind, the text it stands for and the byte range it occupies in
its source. Text that is no token of the language is kept as a token too: its
kind names the lexical error and its text is the error's message.
-/

set_option autoImplicit false

namespace JackLang

/-- The greatest integer that the stack machine loads as a constant. It also
bounds every index, argument count and character code. -/
def maxConstant : Nat := 32767

inductive Keyword where
  | «class» | constructor | function | method | field | static | var
  | int | char | boolean | void
  | trueConstant | falseConstant | nullConstant | thisConstant
  | «let» | «do» | «if» | «else» | «while» | «return»
deriving DecidableEq, Repr

namespace Keyword

def all : List Keyword :=
  [.class, .constructor, .function, .method, .field, .static, .var,
    .int, .char, .boolean, .void,
    .trueConstant, .falseConstant, .nullConstant, .thisConstant,
    .let, .do, .if, .else, .while, .return]

def text : Keyword → String
  | .class => "class"
  | .constructor => "constructor"
  | .function => "function"
  | .method => "method"
  | .field => "field"
  | .static => "static"
  | .var => "var"
  | .int => "int"
  | .char => "char"
  | .boolean => "boolean"
  | .void => "void"
  | .trueConstant => "true"
  | .falseConstant => "false"
  | .nullConstant => "null"
  | .thisConstant => "this"
  | .let => "let"
  | .do => "do"
  | .if => "if"
  | .else => "else"
  | .while => "while"
  | .return => "return"

def ofText? (word : String) : Option Keyword :=
  all.find? fun keyword => keyword.text = word

theorem mem_all (keyword : Keyword) : keyword ∈ all := by
  cases keyword <;> decide

theorem text_injective {first second : Keyword} (h : first.text = second.text) :
    first = second := by
  revert h
  cases first <;> cases second <;> decide

theorem ofText?_eq_some_iff {word : String} {keyword : Keyword} :
    ofText? word = some keyword ↔ keyword.text = word := by
  constructor
  · intro h
    simpa using List.find?_some h
  · rintro rfl
    cases keyword <;> decide

end Keyword

inductive Symbol where
  | leftBrace | rightBrace | leftParen | rightParen | leftBracket | rightBracket
  | dot | comma | semicolon
  | plus | minus | star | slash | ampersand | pipe | less | greater | equal | tilde
deriving DecidableEq, Repr

namespace Symbol

def all : List Symbol :=
  [.leftBrace, .rightBrace, .leftParen, .rightParen, .leftBracket, .rightBracket,
    .dot, .comma, .semicolon,
    .plus, .minus, .star, .slash, .ampersand, .pipe, .less, .greater, .equal, .tilde]

def char : Symbol → Char
  | .leftBrace => '{'
  | .rightBrace => '}'
  | .leftParen => '('
  | .rightParen => ')'
  | .leftBracket => '['
  | .rightBracket => ']'
  | .dot => '.'
  | .comma => ','
  | .semicolon => ';'
  | .plus => '+'
  | .minus => '-'
  | .star => '*'
  | .slash => '/'
  | .ampersand => '&'
  | .pipe => '|'
  | .less => '<'
  | .greater => '>'
  | .equal => '='
  | .tilde => '~'

def ofChar? (c : Char) : Option Symbol :=
  all.find? fun symbol => symbol.char = c

theorem mem_all (symbol : Symbol) : symbol ∈ all := by
  cases symbol <;> decide

theorem ofChar?_eq_some_iff {c : Char} {symbol : Symbol} :
    ofChar? c = some symbol ↔ symbol.char = c := by
  constructor
  · intro h
    simpa using List.find?_some h
  · rintro rfl
    cases symbol <;> decide

end Symbol

/-- The ways in which text fails to be a token. -/
inductive LexicalError where
  | unexpectedCharacter
  | malformedInteger
  | integerOutOfRange
  | unterminatedString
  | unterminatedComment
deriving DecidableEq, Repr

def LexicalError.message : LexicalError → String
  | .unexpectedCharacter => "Unexpected character."
  | .malformedInteger => "Malformed integer constant."
  | .integerOutOfRange => "Integer constant must be between 0 and 32767."
  | .unterminatedString => "Unterminated string."
  | .unterminatedComment => "Unterminated block comment."

inductive TokenKind where
  | keyword (word : Keyword)
  | symbol (mark : Symbol)
  | identifier
  | integerConstant
  | stringConstant
  | invalid (error : LexicalError)
  | endOfFile
deriving DecidableEq, Repr

/-- The five lexical classes of the language, and one class for the end of the
file and for text that is no token. -/
inductive TokenClass where
  | keyword | symbol | identifier | integerConstant | stringConstant | auxiliary
deriving DecidableEq, Repr

/-- The element name under which tokens of a class are listed. -/
def TokenClass.tag : TokenClass → String
  | .keyword => "keyword"
  | .symbol => "symbol"
  | .identifier => "identifier"
  | .integerConstant => "integerConstant"
  | .stringConstant => "stringConstant"
  | .auxiliary => "meta"

namespace TokenKind

def tokenClass : TokenKind → TokenClass
  | .keyword _ => .keyword
  | .symbol _ => .symbol
  | .identifier => .identifier
  | .integerConstant => .integerConstant
  | .stringConstant => .stringConstant
  | .invalid _ => .auxiliary
  | .endOfFile => .auxiliary

/-- What a kind is called in running text. A fixed token is its own name. -/
def display : TokenKind → String
  | .keyword word => word.text
  | .symbol mark => String.singleton mark.char
  | .identifier => "identifier"
  | .integerConstant => "integer constant"
  | .stringConstant => "string constant"
  | .invalid _ => "error"
  | .endOfFile => "end of file"

/-- The kind of a word: the reserved word it spells, else an identifier. -/
def ofWord (word : String) : TokenKind :=
  match Keyword.ofText? word with
  | some reserved => .keyword reserved
  | none => .identifier

end TokenKind

/-- A token of a source. The lexeme of a string constant is its content without
the quotes, that of invalid text is the message of its error, and that of the
end of the file is empty. -/
structure Token where
  kind : TokenKind
  lexeme : String
  span : Span
deriving DecidableEq, Repr

end JackLang
