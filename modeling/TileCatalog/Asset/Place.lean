import TileCatalog.Files

/-!
# Places of pictures

Where a path leads within a store of pictures. Nothing is looked up: two paths lead to the same
place if they take the same steps, and a path that may leave its store leads nowhere.
-/

namespace TileCatalog

structure Place where
  store : Option String := none
  steps : List String
  /-- The name of a picture within the file, if the path gives one. -/
  label : Option String := none
deriving DecidableEq, Repr

namespace Place

/-- Divides a path at its first `://`. -/
def splitStore : List Char → Option (List Char) × List Char
  | [] => (none, [])
  | ':' :: '/' :: '/' :: cs => (some [], cs)
  | c :: cs =>
    match splitStore cs with
    | (some store, rest) => (some (c :: store), rest)
    | (none, rest) => (none, c :: rest)

/-- Divides a path at its last `#`. -/
def splitLabel : List Char → List Char × Option (List Char)
  | [] => ([], none)
  | c :: cs =>
    match splitLabel cs with
    | (rest, some label) => (c :: rest, some label)
    | (rest, none) => if c = '#' then ([], some rest) else (c :: rest, none)

/-- The steps of a path. An empty part is no step, and `.` is one only at the start. A path from the
root of all files starts with an empty step. -/
def stepsOf (path : String) : List String :=
  match Files.parts path with
  | first :: part :: parts => first :: (part :: parts).filter fun p => p != "" && p != "."
  | parts => parts.filter (· != "")

def stayInside : Nat → List String → Bool
  | _, [] => true
  | depth, step :: steps =>
    if step = "." then stayInside depth steps
    else if step = ".." then
      match depth with
      | 0 => false
      | depth + 1 => stayInside depth steps
    else stayInside (depth + 1) steps

/-- The place that `path` leads to. There is none if the path starts at the root of all files, or if
it leaves its store. -/
def ofPath? (path : String) : Option Place :=
  let (path, label) := splitLabel path.toList
  let (store, path) := splitStore path
  let steps := stepsOf (String.ofList path)
  if steps.head? = some "" ∨ stayInside 0 steps = false then none
  else some ⟨store.map String.ofList, steps, label.map String.ofList⟩

/-- Whether the file is a picture file by its name: the part from the first dot of the name to the
next `?`, or to the end, ends in `.png`. -/
def isPictureFile (place : Place) : Bool :=
  match place.steps.getLast? with
  | none => false
  | some name =>
    ".png".toList.isSuffixOf ((name.toList.dropWhile (· != '.')).takeWhile (· != '?'))

end Place

end TileCatalog
