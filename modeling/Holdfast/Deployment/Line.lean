import Holdfast.Deployment.State

namespace Holdfast.Deployment

open Store

/-- What comes of a conversation with a Redis server. None is in reach of a deployment. -/
def askRedis (t : Redis.Talk α) : Nat × Except Failure α := (t.run.run Redis.absent ()).2

/-- What comes of a conversation with an etcd server. None is in reach either. -/
def askEtcd (e : Exchange Etcd.Answer α) : Nat × α := (e.run Etcd.absent ()).2

/-- Opens a connection. -/
def dial (d : Deployment) (b : Backend) (e : Endpoint) : Deployment × Flight :=
  match b, d.stores with
  | .redis login, _ =>
    let (elapsed, r) := askRedis (Redis.connect login)
    (d, .dialled (d.now + elapsed) (r.map fun _ => .redis))
  | .etcd credentials, _ =>
    let (elapsed, r) := askEtcd (Etcd.connect credentials).run
    (d, .dialled (d.now + elapsed) (r.map .etcd))
  | .memory, .cluster c =>
    let (c, r) := c.connect e
    ({ d with stores := .cluster c }, .dialled d.now (r.map .memory))
  | .memory, .script s =>
    let (s, delay, r) := s.connect e
    let due := d.now + delay
    ({ d with stores := .script s },
      match r with
      | .ok () => .opened due
      | .error f => .dialled due (.error f))

/-- Key expiry goes by a clock of its own, which stands still. -/
def storeClock : Nat := 0

/-- Sends a call. -/
def send (d : Deployment) (l : Link) (request : Call) : Deployment × Link × Flight :=
  match l, d.stores with
  | .memory c, .cluster cluster =>
    let (cluster, c, answer) := cluster.call c storeClock request
    let flight := match answer with
      | .now o => Flight.reply d.now o
      | .readAfter ms key => .read (d.now + ms) c.endpoint key
    ({ d with stores := .cluster cluster }, .memory c, flight)
  | .scripted n, .script s =>
    let (s, delay, o) := s.call n request
    ({ d with stores := .script s }, .scripted n, .reply (d.now + delay) o)
  | .redis, _ =>
    let (elapsed, o) := askRedis (Redis.call request)
    (d, .redis, .reply (d.now + elapsed) o)
  | .etcd c, _ =>
    let (elapsed, c, o) := askEtcd (c.call request)
    (d, .etcd c, .reply (d.now + elapsed) o)
  | l, _ => (d, l, .reply d.now (.error mismatch))

/-- The outcome of a call whose answer has arrived. -/
def outcome (d : Deployment) : Flight → Outcome
  | .reply _ o => o
  | .read _ e key =>
    match d.stores with
    | .cluster c => .ok (.value (c.read e storeClock key))
    | .script _ => .error mismatch
  | .dialled .. | .opened _ => .error mismatch

/-- The connection that an attempt to dial has brought. -/
def connected (d : Deployment) : Flight → Deployment × Except Failure Link
  | .dialled _ r => (d, r)
  | .opened _ =>
    match d.stores with
    | .script s =>
      let (s, n) := s.opens
      ({ d with stores := .script s }, .ok (.scripted n))
    | .cluster _ => (d, .error mismatch)
  | .reply .. | .read .. => (d, .error mismatch)

/-- Asks a discovery peer for the master of a shard. -/
def ask (d : Deployment) (b : Backend) (peer : Endpoint) (name : String) :
    Deployment × Except Failure (Option Endpoint) :=
  match b, d.directory with
  | .redis _, _ => (d, (askRedis (Redis.askMaster name)).2)
  | _, .sentinel s => (d, s.ask peer name)
  | _, .script s =>
    let (s, r) := s.ask d.now peer name
    ({ d with directory := .script s }, r)

/-- Subscribes to a discovery peer, and tells when the answer comes; a Redis server would be silent
from then on. -/
def subscribe (d : Deployment) (b : Backend) (peer : Endpoint) (channel : String) :
    Deployment × Nat × Except Failure Stream :=
  match b, d.directory with
  | .redis _, _ =>
    let (elapsed, r) := askRedis (Redis.subscribe channel)
    let due := d.now + elapsed
    (d, due, r.map fun _ => .scripted ⟨due, []⟩)
  | _, .sentinel s =>
    let (s, r) := s.subscribe peer channel
    ({ d with directory := .sentinel s }, d.now, r.map .reader)
  | _, .script s =>
    let (s, due, r) := s.subscribe d.now peer channel
    ({ d with directory := .script s }, due, r.map .scripted)

/-- Gives a subscription up. -/
def unsubscribe (d : Deployment) (s : Stream) : Deployment :=
  match s, d.directory with
  | .reader r, .sentinel sentinel => { d with directory := .sentinel (sentinel.unsubscribe r) }
  | _, _ => d

/-- The next news on a subscription. -/
def hear (d : Deployment) (s : Stream) : Memory.Heard × Stream :=
  match s, d.directory with
  | .reader r, .sentinel sentinel =>
    let (heard, r) := sentinel.next r
    (heard, .reader r)
  | .scripted s, _ =>
    match s.next? d.now with
    | none => (.nothing, .scripted s)
    | some (.message payload, s) => (.message payload, .scripted s)
    | some (.lost, s) => (.ended, .scripted s)
  | s, _ => (.ended, s)

end Holdfast.Deployment
