import TileCatalog.Catalog.Basic
import TileCatalog.Log

/-!
# Sessions

A catalog together with the source of its pictures and the log of what happened to it.
-/

namespace TileCatalog

structure Session (σ : Type) where
  catalog : Catalog := {}
  source : σ
  log : List LogLine := []

namespace Session

variable {σ : Type} [ImageSource σ]

def note (s : Session σ) (line : LogLine) : Session σ := { s with log := s.log ++ [line] }

def queueImage (s : Session σ) (src : String) : Image × Session σ :=
  let (asset, source) := ImageSource.load s.source src
  let (image, catalog) := s.catalog.enqueue src asset (ImageSource.isLoaded source asset)
  (image, { s with catalog, source })

def queueImage? (s : Session σ) : Option String → Option Image × Session σ
  | none => (none, s)
  | some src =>
    let (image, s) := s.queueImage src
    (some image, s)

/-- The source learns which assets the catalog holds. -/
def shareHeld (s : Session σ) : Session σ :=
  { s with source := ImageSource.retain s.source s.catalog.assets }

def receive (s : Session σ) (name : String) : Session σ :=
  if s.catalog.contains name then s.note (.duplicate name)
  else { s with catalog := s.catalog.enlist name }

/-- Queues the pictures of a tile, the primary one first. -/
def queueEntry (s : Session σ) (name : String) (t : TileSpec) : Entry × Session σ :=
  let (image, s) := s.queueImage t.url
  let (goal, s) := s.queueImage? t.goalUrl
  (⟨name, image, goal⟩, s)

def registerAs (s : Session σ) (name : String) (t : TileSpec) : Registration × Session σ :=
  let known := s.catalog.contains name
  let (e, s) := (s.receive name).shareHeld.queueEntry name t
  let s := s.note (.registered name e.images.length s.catalog.progress)
  (if known then .replaced (duplicateWarning name) else .added,
    { s with catalog := s.catalog.put e })

/-- Registers a tile. Without a valid name nothing changes. -/
def register (s : Session σ) (t : TileSpec) : Except MissingName Registration × Session σ :=
  match t.validName with
  | none => (.error {}, s)
  | some name =>
    let (r, s) := s.registerAs name t
    (.ok r, s)

/-- Registers tiles in order up to the first that fails; how many there were. Those registered
before a failure stay. -/
def registerAll (s : Session σ) : List TileSpec → Except MissingName Nat × Session σ
  | [] => (.ok 0, s)
  | t :: ts =>
    match s.register t with
    | (.error e, s) => (.error e, s)
    | (.ok _, s) =>
      match s.registerAll ts with
      | (.error e, s) => (.error e, s)
      | (.ok n, s) => (.ok (n + 1), s)

def registerManifest (s : Session σ) (m : Manifest) : Except ManifestError Nat × Session σ :=
  match s.registerAll m.tiles with
  | (.error e, s) => (.error (.registration e), s)
  | (.ok n, s) => (.ok n, s)

def registerText (s : Session σ) (text : String) : Except ManifestError Nat × Session σ :=
  match Manifest.ofText text with
  | .error e => (.error e, s)
  | .ok m => s.registerManifest m

/-- Registers the tiles of the manifest file at `path`, and says in the log how that went. -/
def loadManifest (s : Session σ) (files : Files) (path : String) : Session σ :=
  if !files.has path then s.note (.manifestMissing path)
  else
    match Manifest.load files path with
    | .error e => s.note (.manifestFailed path e)
    | .ok m =>
      match s.registerManifest m with
      | (.ok n, s) => s.note (.manifestRegistered n path)
      | (.error e, s) => s.note (.manifestStopped path s.catalog.size e)

def hear (s : Session σ) (event : AssetEvent) : Session σ :=
  let (n, catalog) := s.catalog.notify event
  let s := { s with catalog }
  if n = 0 then s else s.note (.imagesLoaded n s.catalog.progress)

/-- Takes note of events in order. While nothing is outstanding, events pass unheard. -/
def hearAll (s : Session σ) : List AssetEvent → Session σ
  | [] => s
  | event :: events =>
    if s.catalog.pendingLoads = 0 then s.hearAll events else (s.hear event).hearAll events

end Session

end TileCatalog
