import TileCatalog.Tile

/-!
# Manifests

A manifest lists tile specifications in the order in which they are to be registered.
-/

namespace TileCatalog

structure Manifest where
  tiles : List TileSpec := []
deriving DecidableEq, Repr, Inhabited

end TileCatalog
