import EdgeMulticast.Archive.Described
import EdgeMulticast.Archive.Publication
import EdgeMulticast.Archive.ReadBack
import EdgeMulticast.Archive.Replay
import EdgeMulticast.Archive.Retention
import EdgeMulticast.Clickhouse.Sink
import EdgeMulticast.Codec.Bounds
import EdgeMulticast.Egress.Accounts
import EdgeMulticast.Egress.EraRuns
import EdgeMulticast.Fix.Outbound
import EdgeMulticast.Health.Admission
import EdgeMulticast.Ingress.Backoff
import EdgeMulticast.Ingress.Limit
import EdgeMulticast.Ingress.Turns
import EdgeMulticast.Load.Adjacency
import EdgeMulticast.Load.Crashes
import EdgeMulticast.Load.Fairness
import EdgeMulticast.Lowering.Snapshot
import EdgeMulticast.MarketByOrder.Decode
import EdgeMulticast.MarketByOrder.Levels
import EdgeMulticast.MarketByOrder.Pace
import EdgeMulticast.MarketByOrder.Replay
import EdgeMulticast.MarketByOrder.Reset
import EdgeMulticast.MarketByPrice.Crossed
import EdgeMulticast.MarketByPrice.Isolation
import EdgeMulticast.MarketByPrice.Levels
import EdgeMulticast.MarketByPrice.Monotone
import EdgeMulticast.MarketByPrice.Pacing
import EdgeMulticast.MarketByPrice.Replay
import EdgeMulticast.MarketByPrice.ResetRecovery
import EdgeMulticast.MarketByPrice.Safety
import EdgeMulticast.MarketByPrice.SnapshotGroups
import EdgeMulticast.MarketByPrice.Unread
import EdgeMulticast.Parser.Agreement
import EdgeMulticast.Recorder.Eras
import EdgeMulticast.Recorder.Lossless
import EdgeMulticast.Recorder.OpenCycles
import EdgeMulticast.Recorder.Recovery
import EdgeMulticast.Recorder.Rows
import EdgeMulticast.Recorder.Windows
import EdgeMulticast.Refdata.Appending
import EdgeMulticast.Refdata.Cycle
import EdgeMulticast.Refdata.Interval
import EdgeMulticast.Refdata.Seeding
import EdgeMulticast.Refdata.Series
import EdgeMulticast.Relower.Honest
import EdgeMulticast.Rows.Object
import EdgeMulticast.Rows.Redundant
import EdgeMulticast.Runtime.Guard
import EdgeMulticast.Runtime.Laps
import EdgeMulticast.Uds.Skipping
import EdgeMulticast.Venue.Agreement
import EdgeMulticast.Venue.Story
