import AgentTranscript.Library.Ranking
import AgentTranscript.Library.Loop
import AgentTranscript.Library.Transition
import AgentTranscript.Library.VersionedCell
import AgentTranscript.Library.SortedMap
import AgentTranscript.Library.OuterJoin
import AgentTranscript.Library.HashMap
import AgentTranscript.Library.Delimited
import AgentTranscript.Library.Packing
import AgentTranscript.Library.Paging
import AgentTranscript.Library.Percent
import AgentTranscript.Library.Url
import AgentTranscript.Library.UrlPath
import AgentTranscript.Library.UrlAuthority
import AgentTranscript.Text
import AgentTranscript.Basic
import AgentTranscript.Merge.Freshness
import AgentTranscript.Merge.RankProperties
import AgentTranscript.Catalog.Basic
import AgentTranscript.Catalog.MergeProperties
import AgentTranscript.Merge.Current
import AgentTranscript.Catalog.PruneProperties
import AgentTranscript.Catalog.Update
import AgentTranscript.Catalog.Convergence
import AgentTranscript.Catalog.MergePlan
import AgentTranscript.Crypto.Basic
import AgentTranscript.Crypto.Authenticity
import AgentTranscript.Remote.Sigv4
import AgentTranscript.Remote.CanonicalQuery
import AgentTranscript.Remote.Store
import AgentTranscript.Remote.Commit
import AgentTranscript.Remote.CommitProperties
import AgentTranscript.Remote.PlaintextCache
import AgentTranscript.Remote.Plaintext
import AgentTranscript.Remote.Unescape
import AgentTranscript.Remote.Listing
import AgentTranscript.Remote.Paging
import AgentTranscript.Remote.Signing
import AgentTranscript.Remote.Serializable
import AgentTranscript.Remote.Exchange
import AgentTranscript.Remote.Network
import AgentTranscript.Remote.Lossy
import AgentTranscript.Ingest.Pieces
import AgentTranscript.Views.Sessions
import AgentTranscript.Views.Body
import AgentTranscript.Search.Snapshot
import AgentTranscript.Search.SnapshotProperties
import AgentTranscript.Search.Runtime
import AgentTranscript.Search.RuntimeProperties
import AgentTranscript.Search.Fleet
import AgentTranscript.Search.Sync
import AgentTranscript.Search.Handover
import AgentTranscript.Search.Requests
import AgentTranscript.Search.Publish
import AgentTranscript.Search.Interleaving
import AgentTranscript.Search.RuntimeRuns
import AgentTranscript.Local.AtomicWrite
import AgentTranscript.Local.Writers
import AgentTranscript.Local.Record
import AgentTranscript.Local.RecordProperties
import AgentTranscript.Local.Sources
import AgentTranscript.Local.Store
import AgentTranscript.Local.StoreProperties
import AgentTranscript.Local.DiffProperties
import AgentTranscript.Local.Reading
import AgentTranscript.Local.Loads
import AgentTranscript.Local.Frame
import AgentTranscript.Local.Steps
import AgentTranscript.Local.Changed
import AgentTranscript.Local.Settled
import AgentTranscript.Local.Steady
import AgentTranscript.Local.Retry
import AgentTranscript.Local.Newer
import AgentTranscript.Local.Fingerprints
import AgentTranscript.Local.Exact
import AgentTranscript.Local.RunLock
import AgentTranscript.Local.Rescan
import AgentTranscript.Local.Sharing
import AgentTranscript.Views.SelectProperties
import AgentTranscript.Views.Agreement
import AgentTranscript.Views.Listing
import AgentTranscript.Local.Bodies
import AgentTranscript.Views.Selection
import AgentTranscript.Views.Pruned
import AgentTranscript.Views.Fragment
import AgentTranscript.Views.Render
import AgentTranscript.Views.Find
import AgentTranscript.Ingest.Scan
import AgentTranscript.Ingest.ScanProperties
import AgentTranscript.Ingest.Current
import AgentTranscript.Ingest.FixedPoint
import AgentTranscript.Ingest.Isolation
import AgentTranscript.Ingest.ReadBack
import AgentTranscript.Sweep.Basic
import AgentTranscript.Sweep.Stored
import AgentTranscript.Sweep.Readers
import AgentTranscript.Sweep.Recent
import AgentTranscript.Server.CachedCatalog
import AgentTranscript.Repo.Cwd
import AgentTranscript.Repo.Origin
import AgentTranscript.Repo.Scope
import AgentTranscript.Library.ExpiringCache
import AgentTranscript.Repo.Asks
