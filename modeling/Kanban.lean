import Kanban.Double.Bits
import Kanban.Main
import Kanban.Proofs.Reorder.Agreement
import Kanban.Proofs.Listing.Board
import Kanban.Proofs.Listing.BucketFilter
import Kanban.Proofs.Buckets.Deletion
import Kanban.Proofs.Access.WriteIsolation
import Kanban.Proofs.Access.Confidentiality
import Kanban.Proofs.Tasks.Done
import Kanban.Proofs.Tasks.Undisturbed
import Kanban.Proofs.Tasks.Beside
import Kanban.Proofs.Tasks.Retry
import Kanban.Proofs.Tasks.Arrival
import Kanban.Proofs.Tasks.CreationOrder
import Kanban.Proofs.Buckets.Limits
import Kanban.Proofs.Buckets.Creation
import Kanban.Proofs.Reorder.Buckets
import Kanban.Proofs.Position.Exhaustion
import Kanban.Proofs.Operation.FiniteKeys
import Kanban.Proofs.Listing.Pages
import Kanban.Proofs.Import.Faithful
import Kanban.Proofs.Import.Checklists
import Kanban.Proofs.Filter.StatementText
import Kanban.Proofs.Filter.PinnedLabels
import Kanban.Proofs.Filter.RoundTrip
import Kanban.Proofs.Filter.StatementFaithful
import Kanban.Proofs.Filter.MissingValues
import Kanban.Proofs.Listing.Refusals
import Kanban.Proofs.Listing.SortLists
import Kanban.Proofs.Listing.Paging
import Kanban.Proofs.Reorder.Runs
