import TileCatalog.Catalog.Basic

/-!
# The palette

The pictures of a catalog laid out on the screen: a column for each tile, in the catalog's order and
centred, the goal picture beneath the primary one. Distances are whole pixels.
-/

namespace TileCatalog

/-- A picture on the screen. It lies `depth` pixels below the first row. -/
structure Swatch where
  asset : AssetId
  x : Int
  depth : Nat
deriving DecidableEq, Repr

namespace Palette

/-- The distance between neighbouring columns, and between rows. -/
def spacing : Nat := 48

def swatchSize : Nat := 40

def columnX (n i : Nat) : Int := spacing * i - (spacing / 2) * (n - 1 : Nat)

def column (n i : Nat) (e : Entry) : List Swatch :=
  e.images.mapIdx fun row image => ⟨image.asset, columnX n i, spacing * row⟩

/-- The swatches of all entries. There is a column for each name. -/
def swatches (c : Catalog) : List Swatch := (c.entries.mapIdx (column c.names.length)).flatten

def pixels (n : Int) : String := s!"{n}.0"

end Palette

namespace Swatch

/-- The place on the screen. Rows lie below the axis, and the first row keeps the sign. -/
def place (s : Swatch) : List String :=
  [Palette.pixels s.x, "-" ++ Palette.pixels s.depth, Palette.pixels 0]

def size (_ : Swatch) : List String :=
  [Palette.pixels Palette.swatchSize, Palette.pixels Palette.swatchSize]

end Swatch

end TileCatalog
