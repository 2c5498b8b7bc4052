/-! # Expectations

Where the tokens leave the grammar, the error tells what was expected there.
-/

set_option autoImplicit false

namespace JackLang

inductive Expectation where
  | classKeyword
  | className
  | classBodyStart
  | classBodyEnd
  | endOfFile
  | variableName
  | declarationEnd
  | typeName
  | subroutineName
  | parametersStart
  | parameterName
  | parametersEnd
  | subroutineBodyStart
  | subroutineBodyEnd
  | statementsStart
  | statementsEnd
  | letTarget
  | equalAfterName
  | equalAfterElement
  | letEnd
  | indexEnd
  | ifCondition
  | whileCondition
  | conditionEnd
  | doCall
  | doEnd
  | returnEnd
  | expression
  | parenthesisEnd
  | memberName
  | callStart
  | argumentsEnd
deriving DecidableEq, Repr

def Expectation.message : Expectation → String
  | .classKeyword => "Expected 'class' at the start of the file."
  | .className => "Expected class name."
  | .classBodyStart => "Expected '\x7b' after class name."
  | .classBodyEnd => "Expected subroutine declaration or '\x7d' after class body."
  | .endOfFile => "Expected end of file after class body."
  | .variableName => "Expected variable name."
  | .declarationEnd => "Expected ';' after variable declaration."
  | .typeName => "Expected a type."
  | .subroutineName => "Expected subroutine name."
  | .parametersStart => "Expected '(' after subroutine name."
  | .parameterName => "Expected parameter name."
  | .parametersEnd => "Expected ')' after parameters."
  | .subroutineBodyStart => "Expected '\x7b' before subroutine body."
  | .subroutineBodyEnd => "Expected '\x7d' after subroutine body."
  | .statementsStart => "Expected '\x7b' before statements."
  | .statementsEnd => "Expected '\x7d' after statements."
  | .letTarget => "Expected variable name after 'let'."
  | .equalAfterName => "Expected '=' after variable name."
  | .equalAfterElement => "Expected '=' after array element."
  | .letEnd => "Expected ';' after let statement."
  | .indexEnd => "Expected ']' after array index."
  | .ifCondition => "Expected '(' after 'if'."
  | .whileCondition => "Expected '(' after 'while'."
  | .conditionEnd => "Expected ')' after condition."
  | .doCall => "Expected subroutine call after 'do'."
  | .doEnd => "Expected ';' after do statement."
  | .returnEnd => "Expected ';' after return value."
  | .expression => "Expected expression."
  | .parenthesisEnd => "Expected ')' after expression."
  | .memberName => "Expected subroutine name after '.'."
  | .callStart => "Expected '(' or '.' after subroutine name."
  | .argumentsEnd => "Expected ')' after arguments."

end JackLang
