import TileCatalog.Asset

/-!
# Depots

A source with one asset for each place that a path can lead to. A path that leads nowhere has no
asset, so its picture is never loaded.

A file is loaded when it arrives, and stays loaded unless a labelled picture in it is then asked
for. If the file is a picture file by its name, that reads it again, finds no such picture, and
leaves the file unfinished; no labelled picture is looked for in any other file. An asset that the
depot knows is not read again. The depot knows an asset from when it is first asked for until it is
told to forget what is not in use.

Several paths may lead to one place. The asset goes by the path that asked for it first, for as long
as it is in use: pinned, held by a catalog, or to be read from a file that has not arrived. Asked
for again after that, it goes by the new path.
-/

namespace TileCatalog

structure Depot where
  /-- The steps to the files that have not arrived. -/
  waiting : List (List String) := []
  loaded : List Place := []
  /-- The assets known, with the paths by which they go, or went before, the latest first. -/
  names : List (Place × String) := []
  pinned : List Place := []
  /-- The assets that are held by the latest notice, and those handed out since. -/
  held : List AssetId := []
deriving DecidableEq, Repr

namespace Depot

def asset (path : String) : AssetId :=
  match Place.ofPath? path with
  | some place => .stored place
  | none => .nowhere

def waits (d : Depot) (place : Place) : Bool :=
  place.store.isNone && d.waiting.contains place.steps

def inUse (d : Depot) (place : Place) : Bool :=
  d.pinned.contains place || d.held.contains (.stored place) || d.waits place

def knows (d : Depot) (place : Place) : Bool := (d.names.lookup place).isSome

/-- A labelled picture is read from its picture file, which is then no longer loaded. -/
def reread (d : Depot) (place : Place) : Depot :=
  if place.label.isSome && place.isPictureFile then
    { d with loaded := d.loaded.filter (· != { place with label := none }) }
  else d

def ask (d : Depot) (place : Place) (path : String) : Depot :=
  let d' := if d.knows place then d else d.reread place
  { d' with
    names := if d.knows place && d.inUse place then d.names else (place, path) :: d.names
    held := .stored place :: d.held }

def load (d : Depot) (path : String) : AssetId × Depot :=
  match Place.ofPath? path with
  | some place => (.stored place, d.ask place path)
  | none => (.nowhere, d)

def isLoaded (d : Depot) : AssetId → Bool
  | .stored place => d.loaded.contains place
  | _ => false

instance : ImageSource Depot where
  load := load
  isLoaded := isLoaded
  retain d assets := { d with held := assets }

def path? (d : Depot) : AssetId → Option String
  | .stored place => d.names.lookup place
  | _ => none

def pin (d : Depot) : AssetId → Depot
  | .stored place => { d with pinned := place :: d.pinned }
  | _ => d

def forget (d : Depot) : Depot := { d with names := d.names.filter fun n => d.inUse n.1 }

/-- A depot of the files at `paths`, none of which has arrived. Their assets are in use for good. -/
def ofPaths (paths : List String) : Depot :=
  paths.foldl (fun d path => (d.load path).2.pin (asset path))
    { waiting := paths.map Place.stepsOf }

def arrive (d : Depot) (place : Place) : Depot :=
  { d with waiting := d.waiting.filter (· != place.steps), loaded := d.loaded ++ [place] }

end Depot

end TileCatalog
