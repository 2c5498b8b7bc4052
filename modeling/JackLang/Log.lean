import JackLang.Compilation.Transcript

/-! # The log

A run reports on its course in log entries. An entry has a level, the part of
the program it comes from, and a message; a run shows the entries up to the
level that was asked for.
-/

set_option autoImplicit false

namespace JackLang

/-- The levels of the log, from the most urgent to the most detailed. -/
inductive LogLevel where
  | error | warn | info | debug | trace
deriving DecidableEq, Repr

namespace LogLevel

def rank : LogLevel → Nat
  | .error => 0
  | .warn => 1
  | .info => 2
  | .debug => 3
  | .trace => 4

def text : LogLevel → String
  | .error => "ERROR"
  | .warn => "WARN"
  | .info => "INFO"
  | .debug => "DEBUG"
  | .trace => "TRACE"

end LogLevel

inductive LogSource where
  | command | compiler | programWriter | tokenList
deriving DecidableEq, Repr

def LogSource.text : LogSource → String
  | .command => "jack::cmd"
  | .compiler => "jack_compiler::compiler"
  | .programWriter => "jack_compiler::vm_writer"
  | .tokenList => "jack_compiler::token_xml"

structure LogEntry where
  level : LogLevel
  source : LogSource
  message : String
deriving DecidableEq, Repr

namespace LogEntry

def line (entry : LogEntry) : String :=
  entry.level.text ++ " " ++ entry.source.text ++ ": " ++ entry.message

def isShown (entry : LogEntry) (level : LogLevel) : Bool :=
  entry.level.rank ≤ level.rank

def classStarted (name : String) : LogEntry :=
  ⟨.debug, .compiler, s!"compiling class class=\"{name}\""⟩

def subroutineStarted (className name : String) (kind : SubroutineKind) : LogEntry :=
  let kindText :=
    match kind with
    | .constructor => "Constructor"
    | .function => "Function"
    | .method => "Method"
  ⟨.debug, .compiler,
    s!"compiling subroutine class=\"{className}\" subroutine=\"{name}\" kind={kindText}"⟩

def instructionEmitted (instruction : Instruction) : LogEntry :=
  ⟨.trace, .programWriter, s!"emit instruction={instruction.text}"⟩

/-- The end of a class, with the numbers of its instructions and of its
conditionals and loops. -/
def classFinished (name : String) (instructions numbers : Nat) (ok : Bool) : LogEntry :=
  ⟨.debug, .compiler,
    s!"finished class class=\"{name}\" instructions={instructions} labels={numbers} ok={ok}"⟩

def tokensListed (count : Nat) : LogEntry :=
  ⟨.trace, .tokenList, s!"dumped tokens tokens={count}"⟩

def nameMismatch (unit className : String) : LogEntry :=
  ⟨.warn, .command,
    s!"class name does not match file name unit={unit} class=\"{className}\""⟩

def unitWritten (unit output : String) : LogEntry :=
  ⟨.info, .command, s!"wrote unit unit={unit} output={output}"⟩

end LogEntry

def Event.logEntry? : Event → Option LogEntry
  | .classNamed name => some (.classStarted name)
  | .subroutineNamed className name kind => some (.subroutineStarted className name kind)
  | .emitted instruction => some (.instructionEmitted instruction)
  | .opened _ => none
  | .closed _ => none
  | .leaf _ => none

end JackLang
