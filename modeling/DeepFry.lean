import DeepFry.Query.Engine
import DeepFry.Lib.Frontier
import DeepFry.Lmdb.Scan
import DeepFry.Query.Refill
import DeepFry.Query.MergeRun
import DeepFry.Lmdb.Store
import DeepFry.Query.Routing
import DeepFry.Query.Admission
import DeepFry.Query.Round
import DeepFry.Query.Pages
import DeepFry.Query.Deletion
import DeepFry.Query.Pagination
import DeepFry.Query.MergeExact
import DeepFry.Query.Imitation
import DeepFry.Query.TagRoute
import DeepFry.Lib.SkipScan
import DeepFry.Query.Authors
import DeepFry.Lib.SearchTree
import DeepFry.Lmdb.SelfCheck
import DeepFry.Lib.Actor
import DeepFry.Lib.Machine
import DeepFry.Spamhunter.Store
import DeepFry.Spamhunter.Enumerate
import DeepFry.Spamhunter.RunBatch
import DeepFry.Spamhunter.Barrier
import DeepFry.Spamhunter.Cursor
import DeepFry.Spamhunter.Durable
import DeepFry.Spamhunter.WholeWalk
import DeepFry.Spamhunter.Pipeline
import DeepFry.Spamhunter.Tune
import DeepFry.Lib.Digraph
import DeepFry.WebOfTrust.Graph
import DeepFry.WebOfTrust.AddFollowers
import DeepFry.WebOfTrust.Replacement
import DeepFry.WebOfTrust.FollowerCount
import DeepFry.WebOfTrust.Replaced
import DeepFry.WebOfTrust.FollowGraph
import DeepFry.WebOfTrust.Mutators
import DeepFry.WebOfTrust.Dangling
import DeepFry.WebOfTrust.Marker
import DeepFry.WebOfTrust.Retry
import DeepFry.WebOfTrust.Backfill
import DeepFry.WebOfTrust.Dispatch
import DeepFry.WebOfTrust.BatchResults
import DeepFry.WebOfTrust.RelayFailures
import DeepFry.EventForwarder.Window
import DeepFry.EventForwarder.Forwarder
import DeepFry.EventForwarder.Coverage
import DeepFry.EventForwarder.Resume
import DeepFry.EventForwarder.Realtime
import DeepFry.Lib.Utf8
import DeepFry.Whitelist.Pubkey
import DeepFry.Lib.Stream
import DeepFry.Whitelist.Bloom
import DeepFry.Whitelist.Gate
import DeepFry.Whitelist.Membership
import DeepFry.Whitelist.Current
import DeepFry.Explorer.Wire
import DeepFry.Lib.Modularity
import DeepFry.Lib.Tally
import DeepFry.Explorer.LevelGraph
import DeepFry.Explorer.LocalMoving
import DeepFry.Explorer.Louvain
import DeepFry.Rescue.Export
import DeepFry.Rescue.Collect
import DeepFry.Lib.Lanes
import DeepFry.Rescue.Forward
import DeepFry.Rescue.Outcome
import DeepFry.Rescue.Check
import DeepFry.Rescue.Delete
import DeepFry.Rescue.Run
import DeepFry.Rescue.Safety
import DeepFry.Lib.Closure
import DeepFry.WebOfTrust.TrustClosure
import DeepFry.Lib.Float64
import DeepFry.Whitelist.Codec
import DeepFry.Lib.Recency
import DeepFry.Whitelist.Cache
import DeepFry.Whitelist.CacheHistory
import DeepFry.Query.Latest
import DeepFry.Explorer.GraphReader
import DeepFry.Explorer.PagedGraph
import DeepFry.Explorer.DenseGraph
import DeepFry.Lib.Grouping
import DeepFry.WebOfTrust.HealthCheck
import DeepFry.WebOfTrust.Purge
import DeepFry.WebOfTrust.QueryRelay
import DeepFry.WebOfTrust.ChunkCoverage
import DeepFry.WebOfTrust.FilterCap
import DeepFry.GraphQLExplorer.FetchChunk
import DeepFry.GraphQLExplorer.LatestPerAuthor
import DeepFry.GraphQLExplorer.Tracked
import DeepFry.GraphQLExplorer.Triage
import DeepFry.Query.CursorBounds
import DeepFry.Lib.Hops
import DeepFry.Lib.Multimap
import DeepFry.SpamExplorer.Level
import DeepFry.SpamExplorer.Rounds
import DeepFry.SpamExplorer.Score
import DeepFry.SpamExplorer.Explore
import DeepFry.Rescue.Poison
import DeepFry.Lmdb.Windowed
import DeepFry.Spamhunter.FetchBatch
import DeepFry.Lib.Orbit
import DeepFry.Spamhunter.PageLoop
import DeepFry.GraphQLExplorer.Enumeration
import DeepFry.GraphQLExplorer.Poll
import DeepFry.GraphQLExplorer.AuthorWindow
import DeepFry.Spamhunter.Signals
import DeepFry.Lib.FlatBuffer
import DeepFry.Lmdb.Meta
import DeepFry.GraphQLExplorer.NearDup
import DeepFry.Spamhunter.Export
import DeepFry.Spamhunter.Verdicts
import DeepFry.Lib.Growth
import DeepFry.WebOfTrust.Backoff
import DeepFry.Lib.Components
import DeepFry.Spamhunter.NearDuplicate
import DeepFry.GraphQLExplorer.Rate
import DeepFry.Lib.Buffered
import DeepFry.Lib.JsonText
import DeepFry.SpamExplorer.Output
import DeepFry.WebOfTrust.Ejection
import DeepFry.WebOfTrust.CrawlLoop
import DeepFry.Whitelist.Repository
import DeepFry.Whitelist.RouterCheck
import DeepFry.Whitelist.RouterPlugin
import DeepFry.Lib.Base64
import DeepFry.Query.Resolvers
import DeepFry.Spamhunter.LensWalk
import DeepFry.EventForwarder.Telemetry
import DeepFry.Spamhunter.WhitelistClient
import DeepFry.Spamhunter.WhitelistAnswers
import DeepFry.Explorer.Bridge
import DeepFry.WebOfTrust.ClusterScan
