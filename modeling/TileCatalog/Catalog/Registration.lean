/-!
# Outcomes of a registration
-/

namespace TileCatalog

def registerOperation : String := "TileRegistry::register"

/-- A tile was to be registered without a name, or with an empty one. -/
structure MissingName where
  operation : String := registerOperation
deriving DecidableEq, Repr, Inhabited

namespace MissingName

def message (e : MissingName) : String :=
  s!"{e.operation}(new_tile): new_tile.name attribute missing."

def shout (e : MissingName) : String := e.message

end MissingName

def duplicateWarning (name : String) : String := s!"Warning: tile name {name} already exists"

inductive Registration where
  | added
  | replaced (warning : String)
deriving DecidableEq, Repr

end TileCatalog
