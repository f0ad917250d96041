import TileCatalog.Catalog.Registration
import TileCatalog.Files
import TileCatalog.Manifest.Reader

/-!
# Manifest files

Reading a manifest from a file, and all that can go wrong from there to the registration of its
tiles.
-/

namespace TileCatalog

inductive ManifestError where
  | file (error : FileError)
  | parse (error : Json.ParseError)
  | registration (error : MissingName)
deriving DecidableEq, Repr

namespace ManifestError

/-- The text of the error that it comes from. -/
def source : ManifestError → String
  | file e => e.message
  | parse e => e.message
  | registration e => e.message

def message : ManifestError → String
  | file e => s!"IO error: {e.message}"
  | parse e => s!"Invalid tile manifest: {e.message}"
  | registration e => e.message

end ManifestError

namespace Manifest

/-- The default location of the manifest, from the current directory. -/
def defaultPath : String := "assets/tiles.json"

def ofText (text : String) : Except ManifestError Manifest :=
  match parse text with
  | .ok m => .ok m
  | .error e => .error (.parse e)

def load (files : Files) (path : String) : Except ManifestError Manifest :=
  match files.read path with
  | .ok text => ofText text
  | .error e => .error (.file e)

end Manifest

end TileCatalog
