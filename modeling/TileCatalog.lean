import TileCatalog.App
import TileCatalog.Asset.Gallery
import TileCatalog.Catalog.Console
import TileCatalog.Main
import TileCatalog.Manifest.Writer
import TileCatalog.Proofs.Accounts
import TileCatalog.Proofs.Batches
import TileCatalog.Proofs.Conservation
import TileCatalog.Proofs.Delivery
import TileCatalog.Proofs.Grammar
import TileCatalog.Proofs.Interleaving
import TileCatalog.Proofs.LastWrite
import TileCatalog.Proofs.Literals
import TileCatalog.Proofs.Loaded
import TileCatalog.Proofs.ManifestLanguage
import TileCatalog.Proofs.ManifestLoading
import TileCatalog.Proofs.Outstanding
import TileCatalog.Proofs.Past
import TileCatalog.Proofs.Prefixes
import TileCatalog.Proofs.Records
import TileCatalog.Proofs.Renewal
import TileCatalog.Proofs.Reporting
import TileCatalog.Proofs.RoundTrip
import TileCatalog.Proofs.Runs
import TileCatalog.Proofs.Settled
import TileCatalog.Proofs.Skipping
import TileCatalog.Proofs.Unheard
import TileCatalog.Proofs.Waiting
import TileCatalog.Tally.Board
import TileCatalog.Proofs.Truncation
import TileCatalog.Proofs.Layout
import TileCatalog.Proofs.Snapshots
import TileCatalog.Proofs.Keyed
import TileCatalog.Proofs.Permutation
