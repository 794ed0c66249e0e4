import StridedViews.Dispatch.Builtin
import StridedViews.Dispatch.Request
import StridedViews.Session.Step
import StridedViews.Proofs.Fallible
import StridedViews.Proofs.Layout.Index
import StridedViews.Proofs.Layout.Offset
import StridedViews.Proofs.Layout.Walk
import StridedViews.Proofs.Layout.Recipe
import StridedViews.Proofs.Layout.Packed
import StridedViews.Proofs.Layout.Mirror
import StridedViews.Proofs.Layout.Tiles
import StridedViews.Proofs.Layout.Strides
import StridedViews.Proofs.Layout.Coverage
import StridedViews.Proofs.View.Gather
import StridedViews.Proofs.Layout.Extent
import StridedViews.Proofs.Layout.Valid
import StridedViews.Proofs.Layout.Empty
import StridedViews.Proofs.Layout.Transpose
import StridedViews.Proofs.View.Bounds
import StridedViews.Proofs.View.Writing
import StridedViews.Proofs.Storage.Accounts
import StridedViews.Proofs.Storage.Course
import StridedViews.Proofs.Storage.Books
import StridedViews.Proofs.Storage.Labels
import StridedViews.Proofs.Storage.Order
import StridedViews.Proofs.Sharing.Balance
import StridedViews.Proofs.Sharing.Moves
import StridedViews.Proofs.Storage.Sizes
import StridedViews.Proofs.Storage.Windows
import StridedViews.Proofs.Sharing.Client
import StridedViews.Proofs.View.Build
import StridedViews.Proofs.Sharing.Steps
import StridedViews.Proofs.Sharing.Run
import StridedViews.Proofs.Sharing.References
import StridedViews.Proofs.Sharing.Ledger
import StridedViews.Proofs.Sharing.Safety
import StridedViews.Proofs.Sharing.Order
import StridedViews.Proofs.Sharing.Effects
import StridedViews.Proofs.Sharing.Closing
import StridedViews.Proofs.Sharing.Exports
import StridedViews.Proofs.Sharing.Hashes
import StridedViews.Proofs.Sharing.Lifecycle
import StridedViews.Proofs.Sharing.Strict
import StridedViews.Proofs.Sharing.Leaks
import StridedViews.Proofs.Sharing.Stages
import StridedViews.Proofs.Sharing.Calls
import StridedViews.Proofs.Sharing.Reach
import StridedViews.Proofs.Sharing.Upkeep
import StridedViews.Proofs.View.Filling
import StridedViews.Proofs.Host.Clients
import StridedViews.Proofs.Host.Guest
import StridedViews.Proofs.Host.Run
import StridedViews.Proofs.Host.Owned
import StridedViews.Proofs.Host.Stages
import StridedViews.Proofs.Host.Refusals
import StridedViews.Proofs.Host.Allocation
import StridedViews.Proofs.Host.Snapshots
import StridedViews.Proofs.Host.Outstanding
import StridedViews.Proofs.Session.Reach
import StridedViews.Proofs.Session.Simulation
import StridedViews.Proofs.Storage.Endings
import StridedViews.Proofs.Storage.Rights
import StridedViews.Proofs.Storage.Access
import StridedViews.Proofs.Storage.Causes
import StridedViews.Proofs.Storage.Tallies
import StridedViews.Proofs.Storage.Redundant
import StridedViews.Proofs.View.Faults
import StridedViews.Proofs.Sharing.Changes
import StridedViews.Proofs.Sharing.Suited
import StridedViews.Proofs.Sharing.ReadOnly
import StridedViews.Proofs.Sharing.Access
import StridedViews.Proofs.Sharing.EmptyViews
import StridedViews.Proofs.Sharing.Teardowns
import StridedViews.Proofs.Sharing.Releases
import StridedViews.Proofs.Dispatch.Account
import StridedViews.Proofs.Dispatch.Memo
import StridedViews.Proofs.Dispatch.Routes
import StridedViews.Proofs.Dispatch.Pipeline
import StridedViews.Proofs.Dispatch.Service
