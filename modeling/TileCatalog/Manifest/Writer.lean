import TileCatalog.Json.Writer
import TileCatalog.Manifest.Reader

/-!
# Writing manifests

The compact form. Members stand in the order of their shape; a tile without a goal has no `goal`
member, while a goal without a source has `null` for it.
-/

namespace TileCatalog

open Json

namespace GoalSpec

def written (g : GoalSpec) : List Char :=
  writeObject [writeMember "url" (writeOption writeString g.url)]

def render (g : GoalSpec) : String := String.ofList g.written

end GoalSpec

namespace TileSpec

def written (t : TileSpec) : List Char :=
  writeObject
    (writeMember "name" (writeOption writeString t.name) ::
      writeMember "url" (writeString t.url) ::
        t.goal.toList.map fun g => writeMember "goal" g.written)

def render (t : TileSpec) : String := String.ofList t.written

end TileSpec

namespace Manifest

def written (m : Manifest) : List Char :=
  writeObject [writeMember "tiles" (writeList TileSpec.written m.tiles)]

def render (m : Manifest) : String := String.ofList m.written

/-- Whether reading the written form gives the manifest again. -/
def readsBack (m : Manifest) : Bool := (parse m.render).toOption == some m

end Manifest

end TileCatalog
