/-!
# Files

A tree of files and directories with a current directory, and how a path leads through it. The name
of the current directory is not known, so no path can spell it; the directories above it hold
nothing else that a path can reach.
-/

namespace TileCatalog

/-- Names from the innermost outwards. -/
abbrev Location := List String

inductive Node where
  | file (content : ByteArray)
  | directory

inductive FileError where
  | notFound
  | isDirectory
  | notDirectory
  | nameTooLong
  | nulInName
  | notUtf8
deriving DecidableEq, Repr

def FileError.message : FileError → String
  | notFound => "No such file or directory (os error 2)"
  | isDirectory => "Is a directory (os error 21)"
  | notDirectory => "Not a directory (os error 20)"
  | nameTooLong => "File name too long (os error 36)"
  | nulInName => "file name contained an unexpected NUL byte"
  | notUtf8 => "stream did not contain valid UTF-8"

/-- What is stored below the current directory. -/
structure Files where
  nodes : List (Location × Node) := []

namespace Files

/-- The current directory. A path has no empty names. -/
def home : Location := [""]

/-- The parts of a path between its slashes. Two slashes in a row have an empty part between
them. -/
def splitPath : List Char → List (List Char)
  | [] => [[]]
  | c :: cs =>
    match splitPath cs with
    | [] => [[c]]
    | part :: parts => if c = '/' then [] :: part :: parts else (c :: part) :: parts

def parts (path : String) : List String := (splitPath path.toList).map String.ofList

/-- A part that stands for no name of its own. -/
def isDots (part : String) : Bool := part == "" || part == "." || part == ".."

def enter (loc : Location) (part : String) : Location :=
  if part = "" ∨ part = "." then loc else if part = ".." then loc.tail else part :: loc

def maxName : Nat := 255

/-- The least length of a path, in bytes, that is refused for its length. -/
def maxPath : Nat := 4096

def at? (f : Files) (loc : Location) : Option Node :=
  if loc.isSuffixOf home then some .directory
  else (f.nodes.find? (·.1 == loc)).map (·.2)

/-- Follows the parts of a path. Every part is looked up in a directory, also an empty one. -/
def walk (f : Files) (loc : Location) : List String → Except FileError (Location × Node)
  | [] =>
    match f.at? loc with
    | some node => .ok (loc, node)
    | none => .error .notFound
  | part :: rest =>
    match f.at? loc with
    | none => .error .notFound
    | some (.file _) => .error .notDirectory
    | some .directory =>
      if maxName < part.utf8ByteSize then .error .nameTooLong else f.walk (enter loc part) rest

def origin (path : String) : Location := if path.toList.head? = some '/' then [] else home

def refusal? (path : String) : Option FileError :=
  if path.toList.contains '\x00' then some .nulInName
  else if path = "" then some .notFound
  else if maxPath ≤ path.utf8ByteSize then some .nameTooLong
  else none

def lookup (f : Files) (path : String) : Except FileError (Location × Node) :=
  match refusal? path with
  | some e => .error e
  | none => f.walk (origin path) (parts path)

def has (f : Files) (path : String) : Bool :=
  match f.lookup path with
  | .ok _ => true
  | .error _ => false

def read (f : Files) (path : String) : Except FileError String :=
  match f.lookup path with
  | .error e => .error e
  | .ok (_, .directory) => .error .isDirectory
  | .ok (_, .file content) =>
    match String.fromUTF8? content with
    | some text => .ok text
    | none => .error .notUtf8

/-! ### Changes -/

def removeAt (f : Files) (loc : Location) : Files :=
  ⟨f.nodes.filter fun node => !loc.isSuffixOf node.1⟩

def remove (f : Files) (path : String) : Files :=
  match f.lookup path with
  | .ok (loc, _) => f.removeAt loc
  | .error _ => f

def makeDirectories (f : Files) (loc : Location) : List String → Option (Files × Location)
  | [] => some (f, loc)
  | part :: rest =>
    let next := enter loc part
    match f.at? next with
    | some .directory => f.makeDirectories next rest
    | some (.file _) => none
    | none =>
      if maxName < part.utf8ByteSize then none
      else makeDirectories ⟨(next, .directory) :: f.nodes⟩ next rest

/-- Puts a file or a directory at `path`, with the directories above it. A file takes the place of
what is there, and a directory that of a file. A path that can name no file leaves everything as it
is. -/
def put (f : Files) (path : String) (node : Node) : Files :=
  if (refusal? path).isSome then f
  else
    let f' := f.remove path
    match node with
    | .directory =>
      match f.lookup path with
      | .ok (_, .directory) => f
      | _ =>
        match f'.makeDirectories (origin path) (parts path) with
        | some (f'', _) => f''
        | none => f
    | .file content =>
      let name := (parts path).getLast?.getD ""
      if isDots name ∨ maxName < name.utf8ByteSize then f
      else
        match f'.makeDirectories (origin path) (parts path).dropLast with
        | some (f'', loc) => ⟨(name :: loc, .file content) :: f''.nodes⟩
        | none => f

end Files

end TileCatalog
