import Holdfast.Config.Reading
import Holdfast.Config.Writing
import Holdfast.Failover.Announcement
import Holdfast.Redis.Connection
import Holdfast.Rehearsal.Locking
import Holdfast.Rehearsal.Watching
import Holdfast.Session.Server
import Holdfast.Store.Retry
import Holdfast.Proofs.Connection
import Holdfast.Proofs.Token
import Holdfast.Proofs.Contention.World
import Holdfast.Proofs.Contention.Trace
import Holdfast.Proofs.Contention.Answer
import Holdfast.Proofs.Contention.Deed
import Holdfast.Proofs.Contention.Invariant
import Holdfast.Proofs.Contention.Reachable
import Holdfast.Proofs.Contention.Exclusion
import Holdfast.Proofs.Contention.Remains
import Holdfast.Proofs.Contention.Ownership
import Holdfast.Proofs.Contention.Errand
import Holdfast.Proofs.Registry
import Holdfast.Proofs.Ring
import Holdfast.Proofs.Router.Rebuild
import Holdfast.Proofs.Router.Table
import Holdfast.Proofs.Pool
import Holdfast.Proofs.Router.Traffic
import Holdfast.Proofs.Contention.Step
import Holdfast.Proofs.Contention.Release
import Holdfast.Proofs.Table
import Holdfast.Proofs.Watching.Scene
import Holdfast.Proofs.Watching.Agreement
import Holdfast.Proofs.Watching.Contract
import Holdfast.Proofs.Etcd.Server
import Holdfast.Proofs.Etcd.Denial
import Holdfast.Proofs.Router.Shutdown
import Holdfast.Proofs.Pool.Desk
import Holdfast.Proofs.Pool.Permits
import Holdfast.Proofs.Pool.Bounds
import Holdfast.Proofs.Pool.Retirement
import Holdfast.Proofs.Pool.Hall
import Holdfast.Proofs.Pool.Watches
import Holdfast.Proofs.Pool.Errand
import Holdfast.Proofs.Pool.Leaks
import Holdfast.Proofs.Failover.News
import Holdfast.Proofs.Failover.Step
import Holdfast.Proofs.Failover.Run
import Holdfast.Proofs.Failover.Stream
import Holdfast.Proofs.Failover.Delivery
import Holdfast.Proofs.Failover.Convergence
import Holdfast.Proofs.Failover.Repeats
import Holdfast.Proofs.Failover.Story
import Holdfast.Proofs.Failover.Conduct
import Holdfast.Proofs.Works
import Holdfast.Proofs.Failover.Drive
import Holdfast.Proofs.Failover.Ending
import Holdfast.Proofs.Failover.Lifecycle
import Holdfast.Proofs.Text
import Holdfast.Proofs.Failover.Payload
import Holdfast.Proofs.Sentinel
import Holdfast.Proofs.Reader
import Holdfast.Proofs.Failover.Attuned
import Holdfast.Proofs.Failover.Settled
import Holdfast.Proofs.Failover.Discovery
import Holdfast.Proofs.Failover.Journey
import Holdfast.Proofs.Failover.Following
import Holdfast.Proofs.Failover.Settling
import Holdfast.Proofs.Contents
import Holdfast.Proofs.Etcd.Rows
import Holdfast.Proofs.Etcd.Transaction
import Holdfast.Proofs.Etcd.Calls
import Holdfast.Proofs.Etcd.Heed
import Holdfast.Proofs.Etcd.Twins
import Holdfast.Proofs.Watching.Kin
import Holdfast.Proofs.Watching.Linked
import Holdfast.Proofs.Watching.Apart
import Holdfast.Proofs.Json.Plain
import Holdfast.Proofs.Json.Roundtrip
import Holdfast.Proofs.Json.Number
import Holdfast.Proofs.Config.Slot
import Holdfast.Proofs.Config.Schema
import Holdfast.Proofs.Config.Written
import Holdfast.Proofs.Config.Source
import Holdfast.Proofs.Config.Roundtrip
import Holdfast.Proofs.Config.Respelled
import Holdfast.Proofs.Config.Spellings
import Holdfast.Proofs.Acquisition.Course
import Holdfast.Proofs.Acquisition.Errand
import Holdfast.Proofs.Waiting.Course
import Holdfast.Proofs.Waiting.Run
import Holdfast.Proofs.Waiting.Schedule
import Holdfast.Proofs.Waiting.Overstay
import Holdfast.Proofs.Waiting.Cancellation
import Holdfast.Proofs.Turns
import Holdfast.Proofs.Performance
import Holdfast.Proofs.Etcd.Leases
import Holdfast.Proofs.Effects
import Holdfast.Proofs.Atomicity
import Holdfast.Proofs.Failover.Rounds
import Holdfast.Proofs.Failover.Accounts
import Holdfast.Proofs.Failover.Budget
import Holdfast.Proofs.Text.Grammar
import Holdfast.Proofs.Endpoint.Grammar
import Holdfast.Proofs.Failover.Grammar
import Holdfast.Proofs.Failover.Names
import Holdfast.Proofs.Ring.Growth
import Holdfast.Proofs.Bytes.Digits
import Holdfast.Proofs.Ring.Separation
import Holdfast.Proofs.Token.Codec
import Holdfast.Proofs.Timings
import Holdfast.Proofs.Retry
import Holdfast.Proofs.Outages
import Holdfast.Proofs.Pool.Candidates
import Holdfast.Proofs.Subscription
import Holdfast.Proofs.Failover.Attending
import Holdfast.Proofs.Config.Validation
import Holdfast.Proofs.Client.Locks
