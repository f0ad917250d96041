import TileCatalog.Json.Shape
import TileCatalog.Manifest.Basic

/-!
# Reading manifests

The shapes of goals, tiles and manifests. Every member may be absent but the `url` of a tile. A
draft keeps for each member whether it was met, since a key may not occur twice.
-/

namespace TileCatalog

open Json

namespace GoalSpec

structure Draft where
  url : Option (Option String) := none

def shape : Shape Draft GoalSpec where
  title := "struct GoalDescriptor"
  members :=
    [⟨"url", (·.url.isSome), fun d => Reader.text.optional.map fun v => { d with url := some v }⟩]
  draft := {}
  finish d := .ok ⟨d.url.join⟩

def parse (text : String) : Except ParseError GoalSpec := shape.reader.parse text.toList

end GoalSpec

namespace TileSpec

structure Draft where
  name : Option (Option String) := none
  url : Option String := none
  goal : Option (Option GoalSpec) := none

def shape : Shape Draft TileSpec where
  title := "struct TileDescriptor"
  members :=
    [⟨"name", (·.name.isSome), fun d =>
      Reader.text.optional.map fun v => { d with name := some v }⟩,
     ⟨"url", (·.url.isSome), fun d => Reader.text.map fun v => { d with url := some v }⟩,
     ⟨"goal", (·.goal.isSome), fun d =>
      GoalSpec.shape.reader.optional.map fun v => { d with goal := some v }⟩]
  draft := {}
  finish d :=
    match d.url with
    | some url => .ok ⟨d.name.join, url, d.goal.join⟩
    | none => .error "url"

def parse (text : String) : Except ParseError TileSpec := shape.reader.parse text.toList

end TileSpec

namespace Manifest

structure Draft where
  tiles : Option (List TileSpec) := none

def shape : Shape Draft Manifest where
  title := "struct TileManifest"
  members :=
    [⟨"tiles", (·.tiles.isSome), fun d =>
      TileSpec.shape.reader.list.map fun v => { d with tiles := some v }⟩]
  draft := {}
  finish d := .ok ⟨d.tiles.getD []⟩

def parse (text : String) : Except ParseError Manifest := shape.reader.parse text.toList

end Manifest

end TileCatalog
