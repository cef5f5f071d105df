import Holdfast.Client
import Holdfast.Session.Result
import Holdfast.Session.Step

namespace Holdfast

open Store

/-- A connection that a session holds: one of its own, or one on loan from a pool. -/
inductive Session.Conn
  | raw (l : Link)
  | pooled (l : Lent)

/-- A shard and the pool that served it when a key was resolved to it. -/
structure Session.Shard where
  index : Nat
  name : String
  pool : Nat

/-- A subscription to a router's topologies, with the version that was seen last. -/
structure Session.Receiver where
  router : Nat
  seen : Nat

/-- A deployment and what its user holds, by label. -/
structure Session where
  deployment : Deployment
  conns : Table String Session.Conn := []
  pools : Table String Nat := []
  routers : Table String Nat := []
  shards : Table String Session.Shard := []
  receivers : Table String Session.Receiver := []
  locks : Table String Nat := []
  handles : Table String Lock.Handle := []
  flags : Table String Nat := []
  tasks : Table String Nat := []
  streams : Table String Stream := []
  monitors : Table String Nat := []
  clients : Table String Client := []
  /-- Tokens with the labels under which they became known, the first one first. -/
  known : List (String × Lock.Token) := []
  /-- Locks with the labels under which they were first shown. -/
  shownLocks : List (String × Nat) := []
  /-- The pools that were shown, in the order in which they first were. -/
  shownPools : List Nat := []

namespace Session

/-- A step may come to nothing, but what it did until then stays. -/
abbrev Act := ExceptT Trouble (StateM Session)

/-- A token becomes known under a label. -/
def learn (s : Session) (label : String) (t : Lock.Token) : Session :=
  if (label, t) ∈ s.known then s else { s with known := s.known ++ [(label, t)] }

/-- The token that became known first under a label. -/
def token? (s : Session) (label : String) : Option Lock.Token :=
  (s.known.find? fun (l, _) => l = label).map Prod.snd

/-- The label under which a value became known as a token first. -/
def labelOf? (s : Session) (value : Bytes) : Option String :=
  (s.known.find? fun (_, t) => t.bytes = value).map Prod.fst

/-- A token that a background task has won becomes known at once, under the task's label. -/
def heedTasks (s : Session) : Session :=
  s.tasks.foldl (fun s (label, id) =>
    match (s.deployment.tasks.get? id).bind fun task => task.job.won? with
    | some h => s.learn label h.token
    | none => s) s

/-- Lets everybody go on until they wait. -/
def settle (s : Session) : Session :=
  heedTasks { s with deployment := s.deployment.settle }

/-- Whether anybody still holds a router: a label, a lock, a client, or a listener. -/
def holdsRouter (s : Session) (id : Nat) : Bool :=
  s.routers.any (fun (_, r) => r = id)
    || s.shownLocks.any (fun (_, l) => s.deployment.locks[l]?.any (·.router = id))
    || s.clients.any (fun (_, c) => c.router = id)
    || s.deployment.monitors.any fun m => m.router = id && !m.hasEnded

def onDeployment (f : Deployment → Deployment × α) : Act α := do
  let s ← get
  let (deployment, a) := f s.deployment
  set (heedTasks { s with deployment })
  return a

def change (f : Deployment → Deployment) : Act Unit := onDeployment fun d => (f d, ())

def current : Act Deployment := return (← get).deployment

def find (field : String) (table : Session → Table String α) (label : String) : Act α := do
  match (table (← get)).get? label with
  | some a => return a
  | none => throw (.missing field)

def orMissing (field : String) : Option α → Act α
  | some a => return a
  | none => throw (.missing field)

def orStore : Except Failure α → Act α
  | .ok a => return a
  | .error f => throw (.store f)

def orTopology : Except TopologyError α → Act α
  | .ok a => return a
  | .error e => throw (.topology e)

/-- The bytes of a value that a step gives. -/
def bytesOf : Given → Act Bytes
  | .bytes b => return b
  | .token t => return t.bytes
  | .handle label none => return (← orMissing "handle" ((← get).token? label)).bytes
  | .handle label (some expiry) => do
    let known ← orMissing "handle" ((← get).token? label)
    let t : Lock.Token := ⟨known.owner, expiry⟩
    modify (·.learn s!"{label}@{expiry.toNat}" t)
    return t.bytes

def writeOf : GivenWrite → Act Write
  | .put key value => return .put key (← bytesOf value)
  | .delete key => return .delete key
  | .expire key seconds => return .expire key seconds

def callOf : GivenCall → Act Call
  | .setIfAbsent key value => return .setIfAbsent key (← bytesOf value)
  | .get key => return .get key
  | .expire key seconds => return .expire key seconds
  | .watch key => return .watch key
  | .unwatch => return .unwatch
  | .exec writes => return .exec (← writes.mapM writeOf)
  | .ping => return .ping

def display (s : Session) (value : Bytes) : Shown :=
  match s.labelOf? value with
  | some label => .learned label
  | none => .bytes value

def shownValue (v : Option Bytes) : Act (Option Shown) := return v.map (display (← get))

def shownEffect (e : Effect) : Act ShownEffect :=
  match e with
  | .previous v => return .previous (← shownValue v)
  | .count n => return .count n

/-- Pools are numbered in the order in which they are first shown. -/
def numberOf (pool : Nat) : Act Nat := do
  let shown := (← get).shownPools
  match shown.findIdx? (· = pool) with
  | some n => return n
  | none =>
    modify fun s => { s with shownPools := shown ++ [pool] }
    return shown.length

end Session
end Holdfast
