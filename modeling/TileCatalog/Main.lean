import TileCatalog.App

/-!
# The program

Starts the application on the manifest in the current directory and prints its log.
-/

namespace TileCatalog

/-- The manifest file, if it can be read. -/
def readManifestFile : IO Files := do
  try
    let content ← IO.FS.readBinFile Manifest.defaultPath
    return Files.put {} Manifest.defaultPath (.file content)
  catch _ =>
    return {}

end TileCatalog

def main : IO Unit := do
  let app := TileCatalog.App.boot {} (← TileCatalog.readManifestFile) []
  for line in app.session.log do
    IO.println s!"{line.level.text} {line.text}"
