import AssetCache.Main
import AssetCache.Proofs.Install
import AssetCache.Settings.Record
import AssetCache.Proofs.Progress
import AssetCache.Proofs.Dispatcher
import AssetCache.Proofs.Serving
import AssetCache.Proofs.Base64
import AssetCache.Proofs.Base64.Standard
import AssetCache.Proofs.Json.Layout
import AssetCache.Proofs.Json.Shape
import AssetCache.Proofs.Store.Codec
import AssetCache.Proofs.Store.Refinement
import AssetCache.Proofs.Url.Path
import AssetCache.Proofs.Url.Reference
import AssetCache.Proofs.Naming
import AssetCache.Proofs.Front
import AssetCache.Proofs.Store.Atomicity
import AssetCache.Proofs.Url.Percent
import AssetCache.Proofs.Containment
import AssetCache.Proofs.Delivery.Run
import AssetCache.Proofs.Delivery.Order
import AssetCache.Proofs.Accounts.Fetch
import AssetCache.Proofs.Accounts.Install
import AssetCache.Proofs.Accounts.Journal
import AssetCache.Proofs.Origin
import AssetCache.Proofs.Store.Canonical
import AssetCache.Proofs.Store.Crash
import AssetCache.Proofs.Store.Succession
import AssetCache.Proofs.Store.Isolation
import AssetCache.Proofs.Store.Deletion
import AssetCache.Proofs.Store.Sharing
import AssetCache.Proofs.Accounts.Batch
import AssetCache.Proofs.Store.Removal
import AssetCache.Proofs.Rounds
import AssetCache.Proofs.Lifecycle.Run
import AssetCache.Proofs.Settings.Layers
import AssetCache.Proofs.Rendering
import AssetCache.Proofs.Settings.Verbatim
import AssetCache.Proofs.Resolution
import AssetCache.Proofs.Resource.Record
import AssetCache.Proofs.Toml.Document
import AssetCache.Proofs.Settings.Printed
import AssetCache.Proofs.Settings.Reload
import AssetCache.Proofs.Toml.Growth
import AssetCache.Proofs.Toml.Place
import AssetCache.Proofs.Settings.Numbers
import AssetCache.Proofs.Store.Batches
import AssetCache.Proofs.Identity
import AssetCache.Proofs.Address.Bound
