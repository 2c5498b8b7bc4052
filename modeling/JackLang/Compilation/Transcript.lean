import JackLang.Token.Scan
import JackLang.Compilation.Failure

/-! # Transcripts

The compilation of a unit carries out the actions of its reading in order,
with the variables in scope at hand, up to the first one that is not allowed.
Its transcript tells all that happens on the way: the nodes of the parse tree,
the tokens taken, and the instructions given out.
-/

set_option autoImplicit false

namespace JackLang

inductive Event where
  | opened (rule : Rule)
  | closed (rule : Rule)
  | leaf (token : Token)
  | emitted (instruction : Instruction)
  | classNamed (name : String)
  | subroutineNamed (className name : String) (kind : SubroutineKind)
deriving DecidableEq, Repr

/-- What the compilation knows: the name of the class, the variables in scope,
and how many conditionals and loops have taken a number. -/
structure Context where
  className : String
  scope : Scope
  numbers : Nat

def Context.initial : Context := ⟨"", .empty, 0⟩

/-- What an action does: its events, the context behind it, and an error if the
compilation cannot go on. -/
structure Effect where
  events : List Event
  context : Context
  error : Option StaticError

namespace Effect

def give (context : Context) (code : List Instruction) : Effect :=
  ⟨code.map .emitted, context, none⟩

def fail (context : Context) (error : StaticError) : Effect :=
  ⟨[], context, some error⟩

def pass (context : Context) : Effect :=
  ⟨[], context, none⟩

end Effect

/-- The instructions that build the string constant with the given characters,
up to the first one that has no code. -/
def stringCode (characters : List Char) : List Instruction :=
  .push .constant characters.length :: .call "String.new" 1 ::
    (characters.takeWhile fun c => c.toNat ≤ maxConstant).flatMap fun c =>
      [.push .constant c.toNat, .call "String.appendChar" 2]

/-- What a subroutine of a kind does first. A constructor allocates its object,
and a method takes its receiver. -/
def prologue (scope : Scope) : SubroutineKind → List Instruction
  | .constructor =>
      [.push .constant scope.fields, .call "Memory.alloc" 1, .pop .pointer 0]
  | .method => [.push .argument 0, .pop .pointer 0]
  | .function => []

namespace Context

/-- Looks up a variable, and goes on with it if it is declared. -/
def withVariable (context : Context) (name : Token) (code : Variable → List Instruction) :
    Effect :=
  match context.scope.lookup? name.lexeme with
  | some declared => Effect.give context (code declared)
  | none => Effect.fail context (.undeclared name)

/-- The variable that receives a call, unless there is none. A call within the
class has the object itself as its receiver, which is no variable. -/
def receiver? (context : Context) : Callee → Option Variable
  | .own _ => none
  | .member receiver _ => context.scope.lookup? receiver

/-- The full name of what is called. A variable stands for the class that is
its type. -/
def calleeName (context : Context) : Callee → String
  | .own name => context.className ++ "." ++ name
  | .member receiver name =>
      match context.scope.lookup? receiver with
      | some declared => declared.type ++ "." ++ name
      | none => receiver ++ "." ++ name

def receiverCount (context : Context) : Callee → Nat
  | .own _ => 1
  | .member receiver _ => if (context.scope.lookup? receiver).isSome then 1 else 0

def declare (kind : VariableKind) (type : String) (name : Token) : Context → Effect
  | ⟨className, scope, numbers⟩ =>
      let (scope, error) := scope.declare name.lexeme type kind
      ⟨[], ⟨className, scope, numbers⟩, error.map fun
        | .duplicate => .redeclared name
        | .tooMany => .tooManyVariables kind name⟩

def string (context : Context) (constant : Token) : Effect :=
  let characters := constant.lexeme.toList
  if maxConstant < characters.length then Effect.fail context (.stringTooLong constant)
  else
    ⟨(stringCode characters).map .emitted, context,
      (characters.find? fun c => maxConstant < c.toNat).map fun c =>
        .noCharacterCode c constant⟩

def perform (context : Context) : Action → Effect
  | .nameClass name => ⟨[.classNamed name], { context with className := name }, none⟩
  | .startSubroutine => Effect.pass { context with scope := context.scope.startSubroutine }
  | .nameSubroutine kind name =>
      let scope :=
        if kind = .method then context.scope.insert "this" context.className .argument
        else context.scope
      ⟨[.subroutineNamed context.className name kind], { context with scope }, none⟩
  | .declare kind type name => declare kind type name context
  | .enterBody kind name =>
      Effect.give context
        (.function (context.className ++ "." ++ name) context.scope.locals ::
          prologue context.scope kind)
  | .number number => Effect.pass { context with numbers := number + 1 }
  | .emit instruction => Effect.give context [instruction]
  | .require name => context.withVariable name fun _ => []
  | .load name => context.withVariable name fun declared =>
      [.push declared.segment declared.index]
  | .store name => context.withVariable name fun declared =>
      [.pop declared.segment declared.index]
  | .integer constant =>
      let value := decimalValue constant.lexeme.toList
      if value ≤ maxConstant then Effect.give context [.push .constant value]
      else Effect.fail context (.integerOutOfRange constant)
  | .string constant => context.string constant
  | .receive callee =>
      Effect.give context ((context.receiver? callee).toList.map fun declared =>
        .push declared.segment declared.index)
  | .argument callee count first =>
      if context.receiverCount callee + count < maxConstant then Effect.pass context
      else Effect.fail context (.tooManyArguments first)
  | .invoke callee count =>
      Effect.give context
        [.call (context.calleeName callee) (context.receiverCount callee + count)]

end Context

/-- The course of a compilation, and why it ended early if it did. -/
structure Transcript where
  events : List Event
  context : Context
  failure : Option Failure

/-- Carries out the steps of a reading that ends with the given failure,
behind the events so far, which come last first. -/
def followAfter (events : List Event) (context : Context) (failure : Option Failure) :
    List Step → Transcript
  | [] => ⟨events.reverse, context, failure⟩
  | .opened rule :: rest => followAfter (.opened rule :: events) context failure rest
  | .closed rule :: rest => followAfter (.closed rule :: events) context failure rest
  | .took token :: rest => followAfter (.leaf token :: events) context failure rest
  | .act action :: rest =>
      match context.perform action with
      | ⟨added, context, none⟩ =>
          followAfter (added.reverseAux events) context failure rest
      | ⟨added, context, some error⟩ =>
          ⟨(added.reverseAux events).reverse, context, some (.static error)⟩

def Verdict.failure? : Verdict → Option Failure
  | .accepted => none
  | .unexpected expected found => some (.unexpected expected found)
  | .lexical error found => some (.lexical error found)

def Transcript.ofTokens (tokens : List Token) : Transcript :=
  let reading := readUnit tokens
  followAfter [] .initial reading.verdict.failure? reading.steps

def Transcript.ofSource (source : String) : Transcript :=
  .ofTokens (TokenStream.ofSource source).toList

namespace Transcript

/-- The program that a transcript gives out, whole or cut short. -/
def program (transcript : Transcript) : List Instruction :=
  transcript.events.filterMap fun
    | .emitted instruction => some instruction
    | _ => none

end Transcript

end JackLang
