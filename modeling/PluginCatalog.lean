import PluginCatalog.Main
import PluginCatalog.Recommendation
import PluginCatalog.Proofs.Archive.Rejection
import PluginCatalog.Proofs.Image.Absence
import PluginCatalog.Proofs.Inventory.Independence
import PluginCatalog.Proofs.Inventory.Latest
import PluginCatalog.Proofs.Inventory.Merges
import PluginCatalog.Proofs.Inventory.ReadingBack
import PluginCatalog.Proofs.Inventory.Targets
import PluginCatalog.Proofs.Inventory.Unwritten
import PluginCatalog.Proofs.Manifest.RoundTrip
import PluginCatalog.Proofs.Manifest.Spellings
import PluginCatalog.Proofs.Resources
import PluginCatalog.Proofs.Settings.Loading
import PluginCatalog.Proofs.Store.Histories
import PluginCatalog.Proofs.Store.Reports
import PluginCatalog.Proofs.Targets
import PluginCatalog.Proofs.Upload.CallOrder
import PluginCatalog.Proofs.Upload.Failures
import PluginCatalog.Proofs.Upload.History
import PluginCatalog.Proofs.Upload.OwnFiles
import PluginCatalog.Proofs.Upload.Pushing
import PluginCatalog.Proofs.Version.SemanticOrder
import PluginCatalog.Proofs.Version.Sorting
