import TileCatalog.Asset

/-!
# Galleries

A source in memory that numbers its assets in the order of their creation and finishes them on
request.
-/

namespace TileCatalog

/-- The sources of the assets created, by number. If `shared`, loading a source again gives the
asset it has, otherwise a new one. -/
structure Gallery where
  shared : Bool := true
  sources : List String := []
  finished : List AssetId := []
deriving DecidableEq, Repr

namespace Gallery

def latest? (g : Gallery) (src : String) : Option Nat :=
  (List.range g.sources.length).reverse.find? fun n => g.sources[n]? == some src

def load (g : Gallery) (src : String) : AssetId × Gallery :=
  match if g.shared then g.latest? src else none with
  | some n => (.number n, g)
  | none => (.number g.sources.length, { g with sources := g.sources ++ [src] })

instance : ImageSource Gallery where
  load := load
  isLoaded g asset := g.finished.contains asset
  retain g _ := g

def named (g : Gallery) (src : String) : AssetId :=
  match g.latest? src with
  | some n => .number n
  | none => .nowhere

def numbered (g : Gallery) (n : Nat) : AssetId :=
  if n < g.sources.length then .number n else .nowhere

def finish (g : Gallery) (asset : AssetId) : Gallery :=
  { g with finished := asset :: g.finished }

end Gallery

end TileCatalog
