import GeneGIS.Core.Integrity
import GeneGIS.Core.Revision
import GeneGIS.Core.Reachable
import GeneGIS.Core.Ledger
import GeneGIS.Core.StateDigest
import GeneGIS.Workflow.Rewind
import GeneGIS.Collab.Sync
import GeneGIS.Collab.Provenance
import GeneGIS.Collab.Approvals
import GeneGIS.Contract.Unknown
import GeneGIS.Contract.VerificationValid
import GeneGIS.Plugin.Releases
import GeneGIS.Analysis.Genuine
import GeneGIS.Analysis.DashboardChain
import GeneGIS.Adapter.Delivery
import GeneGIS.Capsule.Attestation
import GeneGIS.Capsule.Bridge
import GeneGIS.Catalog.Federated
import GeneGIS.Toolkit.LayerDigest
import GeneGIS.Toolkit.StoreInvariant
import GeneGIS.Toolkit.ShapefileSound
import GeneGIS.Toolkit.PlanRun
import GeneGIS.Capsule.PublicationSound
import GeneGIS.Core.EditChanges
import GeneGIS.Core.Affected
import GeneGIS.Tile.Varints
import GeneGIS.Tile.Faults
import GeneGIS.Tile.NormalForm
import GeneGIS.Toolkit.CsvRoundTrip
import GeneGIS.Toolkit.GpkgKept
import GeneGIS.Toolkit.Like
import GeneGIS.Toolkit.GridNearest
import GeneGIS.Contract.AssuranceSound
import GeneGIS.Analysis.Scenario
import GeneGIS.Network.Streets
import GeneGIS.Network.IsochroneArea
import GeneGIS.Network.LoadedCosts
import GeneGIS.Storage.AssetRange
import GeneGIS.Render.CitySceneBytes
import GeneGIS.Toolkit.MeshPartition
import GeneGIS.Toolkit.Prompt
import GeneGIS.Toolkit.Dissolve
import GeneGIS.Analysis.ZoneIndex
import GeneGIS.Network.Corridors
import GeneGIS.Storage.IoReceipt
