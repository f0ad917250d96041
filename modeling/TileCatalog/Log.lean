import TileCatalog.Manifest.Load
import TileCatalog.Tally
import TileCatalog.Text.Quoted

/-!
# The log

What is worth a line in the log, and how the line reads.
-/

namespace TileCatalog

inductive Level where
  | debug
  | info
  | warn
  | error
deriving DecidableEq, Repr

def Level.text : Level → String
  | debug => "DEBUG"
  | info => "INFO"
  | warn => "WARN"
  | error => "ERROR"

inductive LogLine where
  /-- A name was registered again. -/
  | duplicate (name : String)
  | registered (name : String) (images : Nat) (progress : Progress)
  | manifestMissing (path : String)
  | manifestFailed (path : String) (error : ManifestError)
  | manifestRegistered (count : Nat) (path : String)
  | manifestStopped (path : String) (count : Nat) (error : ManifestError)
  | imagesLoaded (count : Nat) (progress : Progress)
  /-- A report of the progress made so far. -/
  | progress (progress : Progress)
  | palette (tiles : Nat)
deriving DecidableEq, Repr

namespace LogLine

def level : LogLine → Level
  | registered .. | imagesLoaded .. => .debug
  | manifestRegistered .. | progress _ | palette _ => .info
  | duplicate _ | manifestMissing _ => .warn
  | manifestFailed .. | manifestStopped .. => .error

def text : LogLine → String
  | duplicate name => duplicateWarning name
  | registered name images p =>
    s!"Registered tile '{name}' ({images} image(s), progress {p.text})"
  | manifestMissing path => s!"Tile manifest {Text.quote path} not found, no tiles registered"
  | manifestFailed path e => s!"Failed to load tile manifest {Text.quote path}: {e.message}"
  | manifestRegistered count path => s!"Registered {count} tile(s) from {Text.quote path}"
  | manifestStopped path count e =>
    s!"Tile manifest {Text.quote path} stopped after {count} tile(s): {e.message}"
  | imagesLoaded count p => s!"{count} tile image(s) loaded ({p.text})"
  | progress p =>
    if p.isSettled then s!"All tile images loaded ({p.text})" else s!"Tile images loaded: {p.text}"
  | palette tiles => s!"Tile palette spawned for {tiles} tile(s)"

end LogLine

end TileCatalog
