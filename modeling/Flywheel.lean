import Flywheel.Lib.Keys
import Flywheel.Lib.Transition
import Flywheel.Lib.Locks
import Flywheel.Lib.Progress
import Flywheel.Lib.Journal
import Flywheel.Lib.Disk
import Flywheel.Lib.Program
import Flywheel.Lib.Future
import Flywheel.Lib.Totals
import Flywheel.Lib.Scan
import Flywheel.Lib.Text
import Flywheel.Lib.Ordered
import Flywheel.Lib.Walk
import Flywheel.Lib.Bits
import Flywheel.Artifact
import Flywheel.Channel
import Flywheel.Config
import Flywheel.Storage.Metadata
import Flywheel.Storage.Queue
import Flywheel.Storage.ArtifactFiles
import Flywheel.Storage.Isolation
import Flywheel.Storage.Candidates
import Flywheel.Storage.Recovery
import Flywheel.Storage.Staging
import Flywheel.Cache.Space
import Flywheel.Cache.Capacity
import Flywheel.Cache.Reservations
import Flywheel.Cache.Maintenance
import Flywheel.Cache.Passes
import Flywheel.Cache.ConcurrentDeletion
import Flywheel.Cache.RecentUse
import Flywheel.Cache.Windows
import Flywheel.Cache.Publication
import Flywheel.Cache.Cancellation
import Flywheel.Cache.Drops
import Flywheel.Shard.State
import Flywheel.Shard.Tasks
import Flywheel.Shard.Machine
import Flywheel.Shard.Steps
import Flywheel.Shard.Moves
import Flywheel.Shard.Locking
import Flywheel.Shard.Ownership
import Flywheel.Shard.References
import Flywheel.Shard.Sample
import Flywheel.Shard.Coherence
import Flywheel.Shard.Acknowledged
import Flywheel.Shard.Isolation
import Flywheel.Shard.Lifecycle
import Flywheel.Shard.Gates
import Flywheel.Shard.Deletion
import Flywheel.Shard.Durability
import Flywheel.Shard.BestEffort
import Flywheel.Shard.EvictionQueue
import Flywheel.Shard.Progress
import Flywheel.Shard.Layout
import Flywheel.Shard.Reports
import Flywheel.Proxy.Service
import Flywheel.Proxy.Upstream
import Flywheel.Proxy.Links
import Flywheel.Proxy.Rewriting
import Flywheel.Proxy.Negotiation
import Flywheel.Proxy.Fetch
import Flywheel.Proxy.Eviction
import Flywheel.Proxy.Warm
import Flywheel.Proxy.Flight
import Flywheel.Proxy.Herd
import Flywheel.Agent.Sidecar
import Flywheel.Cache.Burst
import Flywheel.Channel.Deletions
import Flywheel.Channel.Server
import Flywheel.Startup
import Flywheel.Transport.BuildCache
import Flywheel.Transport.ReferenceNames
import Flywheel.Transport.Http
import Flywheel.Transport.Ranges
import Flywheel.Transport.Serving
import Flywheel.Transport.Codings
import Flywheel.Transport.Foreground
import Flywheel.Agent.Ring
import Flywheel.Agent.Discovery
import Flywheel.Agent.Ejection
import Flywheel.Agent.Refresh
import Flywheel.Agent.Placement
import Flywheel.Agent.Spelling
import Flywheel.Agent.DiscoveryLoop
import Flywheel.Cacheprog.Reader
import Flywheel.Cacheprog.Protocol
import Flywheel.Cacheprog.Files
import Flywheel.Cacheprog.Pruning
import Flywheel.Cacheprog.Prefetch
import Flywheel.Cacheprog.Manifest
import Flywheel.Cacheprog.Merge
import Flywheel.Cacheprog.Finalize
import Flywheel.Cacheprog.Writes
