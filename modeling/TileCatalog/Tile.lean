/-!
# Tile specifications

What is known of a tile type before it is registered. A name may be absent here; whether it is good
enough is asked at registration.
-/

namespace TileCatalog

/-- The alternate picture of a tile that marks a goal. -/
structure GoalSpec where
  url : Option String := none
deriving DecidableEq, Repr, Inhabited

structure TileSpec where
  name : Option String := none
  url : String := ""
  goal : Option GoalSpec := none
deriving DecidableEq, Repr, Inhabited

namespace TileSpec

def named (name url : String) : TileSpec := { name := some name, url }

def withGoal (t : TileSpec) (url : String) : TileSpec := { t with goal := some ⟨some url⟩ }

/-- The name, if there is one and it is not empty. -/
def validName (t : TileSpec) : Option String := t.name.filter (· ≠ "")

def goalUrl (t : TileSpec) : Option String := t.goal.bind (·.url)

def urls (t : TileSpec) : List String := t.url :: t.goalUrl.toList

end TileSpec

end TileCatalog
