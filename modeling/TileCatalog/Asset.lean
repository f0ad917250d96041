import TileCatalog.Asset.Place

/-!
# Picture assets

A picture is loaded by a source, which hands out an identifier at once and tells later, by events,
what became of it.
-/

namespace TileCatalog

/-- Identifies a picture asset, by a number or by the place where it is stored. `nowhere` stands for
no asset. -/
inductive AssetId where
  | number (n : Nat)
  | stored (place : Place)
  | nowhere
deriving DecidableEq, Repr, Inhabited

inductive EventKind where
  | added
  | modified
  | removed
  | unused
  | loadedWithDependencies
deriving DecidableEq, Repr

structure AssetEvent where
  kind : EventKind
  asset : AssetId
deriving DecidableEq, Repr

def AssetEvent.announces (e : AssetEvent) (asset : AssetId) : Bool :=
  e.kind == .loadedWithDependencies && e.asset == asset

/-- What can start the load of a picture. A picture that is loaded already will not be announced
again. -/
class ImageSource (σ : Type) where
  load : σ → String → AssetId × σ
  isLoaded : σ → AssetId → Bool
  /-- Takes note of the assets that are held. The source need not remember the others. -/
  retain : σ → List AssetId → σ

end TileCatalog
