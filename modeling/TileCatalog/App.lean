import TileCatalog.Asset.Depot
import TileCatalog.Catalog.Session
import TileCatalog.Palette

/-!
# The application

The catalog in a running application: a manifest read from files, a depot of pictures whose events
arrive as messages, a palette on the screen, and progress reports. The messages posted since the
last update are read by the next one, which then reports the progress if it is not what was reported
last.
-/

namespace TileCatalog

structure Config where
  manifestPath : String := Manifest.defaultPath
  reportProgress : Bool := true
deriving DecidableEq, Repr

structure Camera where
  height : Nat := 999
deriving DecidableEq, Repr

def Camera.place (c : Camera) : List String :=
  [Palette.pixels 0, Palette.pixels 0, Palette.pixels c.height]

structure App where
  config : Config := {}
  files : Files := {}
  session : Session Depot := { source := {} }
  reported : Progress := {}
  inbox : List AssetEvent := []
  swatches : List Swatch := []
  cameras : List Camera := []

namespace App

def catalog (a : App) : Catalog := a.session.catalog

def shown? (a : App) (s : Swatch) : Option String := a.session.source.path? s.asset

def withCatalog (a : App) (catalog : Catalog) : App :=
  { a with session := { a.session with catalog } }

def loadManifest (a : App) : App :=
  { a with session := a.session.loadManifest a.files a.config.manifestPath }

def mapSource (f : Depot → Depot) (a : App) : App :=
  { a with session := { a.session with source := f a.session.source } }

/-- Lays out the catalog on the screen. What is shown stays in use. -/
def spawnPalette (a : App) : App :=
  let swatches := Palette.swatches a.catalog
  mapSource (fun d => swatches.foldl (fun d s => d.pin s.asset) d)
    { a with
      swatches := a.swatches ++ swatches
      session := a.session.note (.palette a.catalog.names.length) }

def readInbox (a : App) : App := { a with session := a.session.hearAll a.inbox, inbox := [] }

/-- Reports the progress if that is wanted and it has changed since the last report. -/
def report (a : App) : App :=
  if !a.config.reportProgress ∨ a.catalog.progress = a.reported then a
  else
    { a with
      reported := a.catalog.progress
      session := a.session.note (.progress a.catalog.progress) }

def tidy (a : App) : App := mapSource Depot.forget { a with session := a.session.shareHeld }

def update (a : App) : App := a.readInbox.report.tidy

/-- An application that has not run yet. The pictures at `pictures` are there to be loaded, and are
in use from the start. -/
def idle (config : Config) (files : Files) (pictures : List String) : App :=
  { config, files, session := { source := Depot.ofPaths pictures }, cameras := [{}] }

def startUp (a : App) : App := a.loadManifest.spawnPalette

def boot (config : Config) (files : Files) (pictures : List String) : App :=
  (idle config files pictures).startUp.update

def post (a : App) (event : AssetEvent) : App := { a with inbox := a.inbox ++ [event] }

/-- The file at `src`, if it was still to come, arrives: its picture is loaded, and a message tells
so. -/
def arrive (a : App) (src : String) : App :=
  match Place.ofPath? src with
  | none => a
  | some place =>
    if place.label.isNone && a.session.source.waits place then
      (a.mapSource (·.arrive place)).post ⟨.loadedWithDependencies, .stored place⟩
    else a

/-- Runs until the file at `src` has arrived and its message is read. Earlier messages are read in
an update of their own. -/
def load (a : App) (src : String) : App := (a.update.arrive src).update

inductive Action where
  | startUp
  | update
  | load (src : String)
  | arrive (src : String)
  | post (event : AssetEvent)
  | register (tile : TileSpec)
  | complete (name : String) (image : Nat)
  | reset
  | setReporting (value : Bool)
  /-- Puts a file, a directory or nothing at the path of the manifest, which may be a new one, and
  loads the manifest again. -/
  | reload (path : Option String) (content : Option Node)
  | palette

inductive Reply where
  | nothing
  | registered (result : Except MissingName Registration)
  | completed (first : Bool)
  | noImage

def replaceManifest (a : App) (path : Option String) (content : Option Node) : App :=
  let path := path.getD a.config.manifestPath
  let files :=
    match content with
    | some node => a.files.put path node
    | none => a.files.remove path
  { a with config := { a.config with manifestPath := path }, files }

def perform (a : App) : Action → Reply × App
  | .startUp => (.nothing, a.startUp)
  | .update => (.nothing, a.update)
  | .load src => (.nothing, a.load src)
  | .arrive src => (.nothing, a.arrive src)
  | .post event => (.nothing, a.post event)
  | .register tile =>
    let (r, session) := a.session.register tile
    (.registered r, { a with session })
  | .complete name n =>
    match a.catalog.image? name n with
    | none => (.noImage, a)
    | some i =>
      let (first, catalog) := a.catalog.complete i.ticket
      (.completed first, a.withCatalog catalog)
  | .reset => (.nothing, a.withCatalog a.catalog.reset)
  | .setReporting value =>
    (.nothing, { a with config := { a.config with reportProgress := value } })
  | .reload path content => (.nothing, (a.replaceManifest path content).loadManifest)
  | .palette => (.nothing, a.spawnPalette)

end App

end TileCatalog
