import Chardb.OpLog.ReplayRun
import Chardb.Reshard.FenceInvariant
import Chardb.Resharder.StartAbortInvariant
import Chardb.Live.Invalidation
import Chardb.Catalog.RoutingInvariant
import Chardb.Catalog.SchemaMigrationSafety
import Chardb.Reshard.SourceTailAccount
import Chardb.Wire.Delivery
import Chardb.Wire.RoundTrip
import Chardb.Client.SessionInvariant
import Chardb.Client.QueryStateSound
import Chardb.Gateway.OrphanSubscription
import Chardb.Gateway.SnapshotReplayIsolation
import Chardb.Gateway.SubscriptionAdmissionInvariant
import Chardb.Files.FileStoreInvariant
import Chardb.Policy.Confinement
import Chardb.Policy.PolicyAgreement
import Chardb.Plan.Placement
import Chardb.Plan.CompileAgreement
import Chardb.Resharder.Headroom
import Chardb.Reshard.TableOrder
import Chardb.Hash.Xxhash64Refines
import Chardb.Intervals.IntervalMap
import Chardb.Intervals.WireIntervals
import Chardb.Intervals.WireRoundTrip
import Chardb.Mutation.Coverage
import Chardb.Recovery.FencingInvariant
import Chardb.Schema.MigrationSafety
import Chardb.Gateway.PayloadQuotaSafety
import Chardb.Reshard.TailInboxInvariant
import Chardb.Arguments.Agreement
import Chardb.Auth.ReadsMatch
import Chardb.Schema.DiffMigrates
import Chardb.Catalog.TopologyLease
import Chardb.OpLog.CanonicalRequest
import Chardb.OpLog.CapturedRoundTrip
import Chardb.Vectors.CapacityRun
import Chardb.AuthEpochs.HandoffInvariant
import Chardb.Reshard.TailReader
import Chardb.Moves.Backlog
