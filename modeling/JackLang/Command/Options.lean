import JackLang.Compile

/-! # Command lines

A command line names a task and a path. Options may stand in front of the task
and behind it; those that set the level of the log count in both places, and
where both places have one the later place decides.
-/

set_option autoImplicit false

namespace JackLang

/-- What is to be done: the kind of output, the path of the units, the directory
for the outputs, and whether to go on after a unit that fails. -/
structure Task where
  kind : OutputKind
  path : String
  outDir : Option String
  keepGoing : Bool
deriving DecidableEq, Repr

structure Options where
  level : LogLevel
  task : Option Task
deriving DecidableEq, Repr

inductive Invocation where
  | run (options : Options)
  | help
  | unusable
deriving DecidableEq, Repr

namespace Options

/-- The options that set the level of the log, as they stand in one place. -/
structure Verbosity where
  verbose : Nat
  quiet : Bool
deriving DecidableEq, Repr

def Verbosity.none : Verbosity := ⟨0, false⟩

/-- The verbosity of a place in front of the task and of the place behind it. -/
def Verbosity.override (outer inner : Verbosity) : Verbosity :=
  ⟨if inner.verbose = 0 then outer.verbose else inner.verbose, inner.quiet || outer.quiet⟩

/-- The level of the log. To be quiet outweighs everything else. -/
def Verbosity.level (verbosity : Verbosity) : LogLevel :=
  if verbosity.quiet then .error
  else
    match verbosity.verbose with
    | 0 => .warn
    | 1 => .info
    | 2 => .debug
    | _ => .trace

/-- The forms of an argument: the mark that ends the options, a long option with
or without a value, a row of short ones, or an operand. -/
inductive Argument where
  | endOfOptions
  | long (name : String) (value : Option String)
  | short (letters : List Char)
  | operand (text : String)
deriving DecidableEq, Repr

def Argument.ofText (text : String) : Argument :=
  match text.toList with
  | ['-', '-'] => .endOfOptions
  | '-' :: '-' :: rest =>
      let name := rest.takeWhile (· ≠ '=')
      match rest.dropWhile (· ≠ '=') with
      | [] => .long (String.ofList name) none
      | _ :: given => .long (String.ofList name) (some (String.ofList given))
  | '-' :: letter :: rest => .short (letter :: rest)
  | _ => .operand text

/-- What the next options of the log do: they are taken, or ask for help, or are
not understood. -/
inductive Switched where
  | taken (verbosity : Verbosity)
  | help
  | unusable

def switchShort (verbosity : Verbosity) : List Char → Switched
  | [] => .taken verbosity
  | 'v' :: rest => switchShort ⟨verbosity.verbose + 1, verbosity.quiet⟩ rest
  | 'q' :: rest =>
      if verbosity.quiet then .unusable else switchShort ⟨verbosity.verbose, true⟩ rest
  | 'h' :: _ => .help
  | _ => .unusable

def switchLong (verbosity : Verbosity) (name : String) : Switched :=
  if name = "verbose" then .taken ⟨verbosity.verbose + 1, verbosity.quiet⟩
  else if name = "quiet" then
    if verbosity.quiet then .unusable else .taken ⟨verbosity.verbose, true⟩
  else if name = "help" then .help
  else .unusable

structure TaskArguments where
  verbosity : Verbosity
  path : Option String
  outDir : Option String
  keepGoing : Bool

namespace TaskArguments

def none : TaskArguments := ⟨.none, .none, .none, false⟩

/-- Takes the path. There is exactly one, and it is not empty. -/
def withPath? (arguments : TaskArguments) (path : String) : Option TaskArguments :=
  if arguments.path.isSome || path = "" then .none
  else some { arguments with path := some path }

/-- Takes the directory for the outputs. There is at most one, and it is not
empty. -/
def withOutDir? (arguments : TaskArguments) (directory : String) : Option TaskArguments :=
  if arguments.outDir.isSome || directory = "" then .none
  else some { arguments with outDir := some directory }

def invocation (arguments : TaskArguments) (kind : OutputKind) (outer : Verbosity) :
    Invocation :=
  match arguments.path with
  | .none => .unusable
  | some path =>
      .run ⟨(outer.override arguments.verbosity).level,
        some ⟨kind, path, arguments.outDir, arguments.keepGoing⟩⟩

end TaskArguments

def readTask (kind : OutputKind) (outer : Verbosity) (arguments : TaskArguments) :
    List String → Invocation
  | [] => arguments.invocation kind outer
  | text :: rest =>
      let switch := fun (switched : Switched) =>
        match switched with
        | .taken verbosity => readTask kind outer { arguments with verbosity } rest
        | .help => .help
        | .unusable => .unusable
      match Argument.ofText text with
      | .endOfOptions =>
          match rest.foldlM TaskArguments.withPath? arguments with
          | some arguments => arguments.invocation kind outer
          | none => .unusable
      | .operand path =>
          match arguments.withPath? path with
          | some arguments => readTask kind outer arguments rest
          | none => .unusable
      | .short letters => switch (switchShort arguments.verbosity letters)
      | .long "out-dir" (some directory) =>
          match arguments.withOutDir? directory with
          | some arguments => readTask kind outer arguments rest
          | none => .unusable
      | .long "out-dir" none =>
          match rest with
          | [] => .unusable
          | directory :: rest =>
              match Argument.ofText directory with
              | .operand directory =>
                  match arguments.withOutDir? directory with
                  | some arguments => readTask kind outer arguments rest
                  | none => .unusable
              | _ => .unusable
      | .long "keep-going" none =>
          if arguments.keepGoing || kind ≠ .program then .unusable
          else readTask kind outer { arguments with keepGoing := true } rest
      | .long name none => switch (switchLong arguments.verbosity name)
      | .long _ (some _) => .unusable

def taskNamed? (name : String) : Option OutputKind :=
  if name = "compile" then some .program
  else if name = "tokens" then some .tokens
  else if name = "tree" then some .tree
  else none

/-- Whether the arguments behind `help` name a task, or nothing. -/
def helpTopic (rest : List String) : Invocation :=
  match rest with
  | [] => .help
  | [topic] => if (taskNamed? topic).isSome || topic = "help" then .help else .unusable
  | _ => .unusable

def readArguments (verbosity : Verbosity) : List String → Invocation
  | [] => if verbosity = .none then .unusable else .run ⟨verbosity.level, none⟩
  | text :: rest =>
      let switch := fun (switched : Switched) =>
        match switched with
        | .taken verbosity => readArguments verbosity rest
        | .help => .help
        | .unusable => .unusable
      match Argument.ofText text with
      | .endOfOptions =>
          if rest = [] && verbosity ≠ .none then .run ⟨verbosity.level, none⟩ else .unusable
      | .operand name =>
          if name = "help" then helpTopic rest
          else
            match taskNamed? name with
            | some kind => readTask kind verbosity .none rest
            | none => .unusable
      | .short letters => switch (switchShort verbosity letters)
      | .long name none => switch (switchLong verbosity name)
      | .long _ (some _) => .unusable

end Options

def Invocation.helpText : String :=
  String.join (List.map (fun line => line ++ "\n")
    ["Compile Jack classes into stack machine code", "",
      "Usage: jack [OPTIONS] [COMMAND]", "",
      "Commands:",
      "  compile  Compile each class into a .vm file",
      "  tokens   Dump the tokens of each class as xml",
      "  tree     Dump the parse tree of each class as xml",
      "  help     Print this message or the help of the given subcommand(s)", "",
      "Options:",
      "  -v, --verbose...",
      "  -q, --quiet",
      "  -h, --help        Print help"])

def Invocation.ofArguments (arguments : List String) : Invocation :=
  Options.readArguments .none arguments

end JackLang
