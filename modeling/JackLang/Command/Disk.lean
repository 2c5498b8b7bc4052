import JackLang.Command.Run

/-! # A disk in memory

A disk is a tree of directories and files, given by the nodes it has at the
places below its root. One of its directories is the home, which the command
runs in: a path leads from there, or from the root if it starts with a slash.
With the log and the messages so far a disk is a host.
-/

set_option autoImplicit false

namespace JackLang

/-- The names that lead from the root to a node. -/
abbrev Place := List String

inductive Node where
  | directory
  | file (text : String)
  /-- A file whose bytes are no text. -/
  | binary
deriving DecidableEq, Repr

structure Disk where
  nodes : List (Place × Node)
  home : Place
deriving DecidableEq, Repr

namespace Disk

def longestName : Nat := 255

def longestPath : Nat := 4095

def empty : Disk := ⟨[], []⟩

/-- The node at a place. The root is a directory. -/
def node? (disk : Disk) (place : Place) : Option Node :=
  if place = [] then some .directory else disk.nodes.lookup place

/-- Puts a node at a place, instead of the one that is there. -/
def put (disk : Disk) (place : Place) (node : Node) : Disk :=
  { disk with nodes := (place, node) :: disk.nodes.filter fun entry => entry.1 ≠ place }

/-- Whether a part of a path is too long for the name of a node. -/
def isTooLong (part : List Char) : Bool :=
  longestName < byteLength part

/-- The place that a part of a path leads to from a directory. There is nothing
above the root. -/
def step (disk : Disk) (place : Place) (part : List Char) : Except HostError Place :=
  if disk.node? place = some .directory then
    if Path.isIdle part then .ok place
    else if part = ['.', '.'] then .ok place.dropLast
    else if isTooLong part then .error .nameTooLong
    else
      let next := place ++ [String.ofList part]
      if (disk.node? next).isSome then .ok next else .error .notFound
  else .error .notADirectory

def startOf (disk : Disk) (path : String) : Place :=
  if path.toList.head? = some '/' then [] else disk.home

/-- The place that the given first parts of a path lead to. -/
def walk (disk : Disk) (path : String) (parts : List (List Char)) : Except HostError Place :=
  if longestPath < byteLength path.toList then .error .nameTooLong
  else parts.foldlM disk.step (disk.startOf path)

/-- The place of what a path leads to. The empty path leads nowhere. -/
def resolve (disk : Disk) (path : String) : Except HostError Place :=
  if path = "" then .error .notFound else disk.walk path (Path.parts path.toList)

def nodeAt? (disk : Disk) (path : String) : Option Node :=
  match disk.resolve path with
  | .ok place => disk.node? place
  | .error _ => none

/-- The place for a new node at the end of a path: a name in a directory. A path
that ends otherwise names what is already there, if anything. -/
def newPlace (disk : Disk) (path : String) : Except HostError Place :=
  match (Path.parts path.toList).reverse with
  | [] => .error .notFound
  | name :: before =>
      if Path.isIdle name || name = ['.', '.'] then disk.resolve path
      else
        match disk.walk path before.reverse with
        | .error error => .error error
        | .ok directory =>
            if disk.node? directory = some .directory then
              if isTooLong name then .error .nameTooLong
              else .ok (directory ++ [String.ofList name])
            else .error .notADirectory

/-- Makes a directory. A slash behind its name changes nothing. -/
def makeDirectory (disk : Disk) (path : String) : Except HostError Disk :=
  let trimmed := String.ofList (path.toList.reverse.dropWhile (· = '/')).reverse
  match disk.newPlace (if trimmed = "" then path else trimmed) with
  | .error error => .error error
  | .ok place =>
      if (disk.node? place).isSome then .error .fileExists else .ok (disk.put place .directory)

def writeText (disk : Disk) (path text : String) : Except HostError Disk :=
  match disk.newPlace path with
  | .error error => .error error
  | .ok place =>
      if disk.node? place = some .directory then .error .isADirectory
      else .ok (disk.put place (.file text))

def readText (disk : Disk) (path : String) : Except HostError String :=
  match disk.resolve path with
  | .error error => .error error
  | .ok place =>
      match disk.node? place with
      | some (.file text) => .ok text
      | some .binary => .error .notText
      | some .directory => .error .isADirectory
      | none => .error .notFound

def entries (disk : Disk) (path : String) : Except HostError (List String) :=
  match disk.resolve path with
  | .error error => .error error
  | .ok place =>
      if disk.node? place = some .directory then
        .ok (disk.nodes.filterMap fun entry =>
          if entry.1.dropLast = place then entry.1.getLast? else none)
      else .error .notADirectory

def putAncestors (disk : Disk) (place : Place) : Disk :=
  ((List.range place.length).map place.take).foldl
    (fun disk ancestor =>
      if (disk.node? ancestor).isSome then disk else disk.put ancestor .directory) disk

def withNode (disk : Disk) (place : Place) (node : Node) : Disk :=
  (disk.putAncestors place).put place node

def ofHome (home : Place) : Disk :=
  (Disk.mk [] home).withNode home .directory

end Disk

/-- A disk with the log and the messages of a run, the last of them first. -/
structure Session where
  disk : Disk
  log : List LogEntry
  messages : List String

namespace Session

def change (action : Disk → Except HostError Disk) : StateM Session (Except HostError Unit) :=
  fun session =>
    match action session.disk with
    | .ok disk => (.ok (), { session with disk })
    | .error error => (.error error, session)

instance : Host (StateM Session) where
  isPresent path := return ((← get).disk.nodeAt? path).isSome
  isDirectory path := return (← get).disk.nodeAt? path = some .directory
  isFile path := do
    match (← get).disk.nodeAt? path with
    | some (.file _) => return true
    | some .binary => return true
    | _ => return false
  entries path := return (← get).disk.entries path
  readText path := return (← get).disk.readText path
  writeText path text := change (·.writeText path text)
  makeDirectory path := change (·.makeDirectory path)
  log entry := modify fun session => { session with log := entry :: session.log }
  tell text := modify fun session => { session with messages := text :: session.messages }

end Session

def Options.runOn (options : Options) (disk : Disk) : ExitCode × Session :=
  let session : Session := ⟨disk, [], []⟩
  let run : StateM Session ExitCode := options.run
  run.run session

end JackLang
