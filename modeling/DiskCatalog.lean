import DiskCatalog.Log.Template
import DiskCatalog.Main
import DiskCatalog.Settings.Fields
import DiskCatalog.Proofs.Refresh.Lifetimes
import DiskCatalog.Proofs.Refresh.Freshness
import DiskCatalog.Proofs.Fallible
import DiskCatalog.Proofs.Pattern.Limits
import DiskCatalog.Proofs.Store.Readability
import DiskCatalog.Proofs.Store.Rows
import DiskCatalog.Proofs.Index.Contract
import DiskCatalog.Proofs.Refresh.Turns
import DiskCatalog.Proofs.Refresh.Undisturbed
import DiskCatalog.Proofs.Search.Limits
import DiskCatalog.Proofs.Refresh.Survival
import DiskCatalog.Proofs.Index.Exclusion
import DiskCatalog.Proofs.Service.SearchStatus
import DiskCatalog.Proofs.Index.Naming
import DiskCatalog.Proofs.Index.Totals
import DiskCatalog.Proofs.Index.NameFilter
import DiskCatalog.Proofs.Index.Stricter
import DiskCatalog.Proofs.Refresh.Economy
import DiskCatalog.Proofs.Refresh.Chronicle
import DiskCatalog.Proofs.Refresh.FirstBuild
import DiskCatalog.Proofs.Index.ResolutionOrder
import DiskCatalog.Proofs.Refresh.Dispatch
import DiskCatalog.Proofs.Refresh.Batches
import DiskCatalog.Proofs.Refresh.Clockwork
import DiskCatalog.Proofs.Refresh.Handover
import DiskCatalog.Proofs.Index.DepthBound
import DiskCatalog.Proofs.Index.DeepestBranch
import DiskCatalog.Proofs.Index.Lines
import DiskCatalog.Proofs.Index.Redundancy
import DiskCatalog.Proofs.Pattern.Terms
import DiskCatalog.Proofs.Pattern.Segments
import DiskCatalog.Proofs.Pattern.Filenames
import DiskCatalog.Proofs.Service.Queries
import DiskCatalog.Proofs.Index.Dates
import DiskCatalog.Proofs.Index.Completion
import DiskCatalog.Proofs.Settings.Loading
