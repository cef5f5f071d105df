import Holdfast.Lock.Talk
import Holdfast.Pool.Loan
import Holdfast.Proofs.Connection

namespace Holdfast

open Store

/-- The token that a talk is about to write. -/
def Lock.Talk.unsent? : Lock.Talk → Option Lock.Token
  | attempt { phase := .creating t, .. } | attempt { phase := .seizing t _, .. } => some t
  | _ => none

namespace Contention

/-- What happens around a lock's key. A party goes by the number under which it came. -/
inductive Event
  | drew (id : Nat) (t : Lock.Token)
  /-- The token was written where nothing stood. -/
  | created (id : Nat) (t : Lock.Token)
  /-- A transaction wrote the token over `previous`; the party had read `seen` and judged it when
  the wall clock was at `judged`. -/
  | seized (id : Nat) (t : Lock.Token) (seen : Bytes) (judged : Nat) (previous : Option Bytes)
  /-- A release of the handle ran its delete, over `removed`. -/
  | freed (id : Nat) (h : Lock.Handle) (removed : Option Bytes)
  /-- The time to live of the value ran out. -/
  | lapsed (value : Bytes)
  | returned (id : Nat) (result : Except Failure (Option Lock.Handle))
  | released (id : Nat) (h : Lock.Handle) (result : Except Failure Bool)
deriving DecidableEq

/-- Somebody who talks with the store about the lock, on a connection of his own. -/
structure Party where
  talk : Lock.Talk
  loan : Loan Memory.Connection
  /-- The key of a slow read that is under way. -/
  reading : Option Bytes := none
  /-- The wall clock when the last answer came. -/
  heardAt : Nat := 0

/-- Any number of parties around one lock's key in one store. -/
structure World where
  name : String
  endpoint : Endpoint
  server : Memory.Server
  /-- The clock by which keys expire. -/
  now : Nat
  /-- The wall clock, which goes into tokens. -/
  clock : Nat
  parties : Table Nat Party := []
  nextId : Nat := 0
  /-- Connections that came back sound. -/
  idle : List Memory.Connection := []
  /-- The handles that callers hold. -/
  handles : List Lock.Handle := []
  /-- The values that were about before the run. -/
  inherited : List Bytes := []
  /-- The latest first. -/
  history : List Event := []

inductive Move
  | tick (ms : Nat)
  | age (ms : Nat)
  | reach (up : Bool)
  /-- A call of somebody who leaves the lock's key alone. -/
  | elsewhere (c : Memory.Connection) (request : Call)
  /-- Begins a talk, on an idle connection or on a new one. -/
  | attempt (o : Lock.Options) (idle : Option Nat) (owner : BitVec 128)
  | release (h : Lock.Handle) (idle : Option Nat)
  | probe (idle : Option Nat)
  /-- The next call of a party, or the end of its slow read. -/
  | call (id : Nat) (owner : BitVec 128)
  /-- The next call of a party fails and has no effect. -/
  | fail (id : Nat) (f : Failure)
  | drop (id : Nat)

def Event.drawn? : Event → Option Lock.Token
  | drew _ t => some t
  | _ => none

namespace Party

/-- What the outcome of a party's call has done to the key that held `stored`. -/
def deed? (p : Party) (id : Nat) (stored : Option Bytes) (o : Outcome) : Option Event :=
  match p.talk, o with
  | .attempt { phase := .creating t, .. }, .ok (.flag true) => some (.created id t)
  | .attempt { phase := .seizing t seen, .. }, .ok (.effects (some _)) =>
    some (.seized id t seen p.heardAt stored)
  | .release { handle, phase := .deleting }, .ok (.effects (some _)) =>
    some (.freed id handle stored)
  | _, _ => none

/-- Makes a call or ends a slow read. A slow read that begins has no outcome yet. -/
def ask (p : Party) (s : Memory.Server) (now : Nat) (request : Call) :
    Party × Memory.Server × Option Outcome :=
  match p.reading with
  | some key => ({ p with reading := none }, s, some (.ok (.value (s.node.value? now key))))
  | none =>
    let loan := p.loan.before request
    let (conn, s, answer) := loan.conn.call s now request
    let p := { p with loan := { loan with conn } }
    match answer with
    | .now o => (p, s, some o)
    | .readAfter _ key => ({ p with reading := some key }, s, none)

def hear (p : Party) (m : Lock.Moment) (request : Call) (o : Outcome) : Party :=
  { p with
    talk := p.talk.resume m o
    loan := p.loan.after request o
    heardAt := m.clock }

end Party

namespace World

def key (w : World) : Bytes := Lock.keyPrefix ++ Bytes.ofText w.name

def stored (w : World) : Option Bytes := w.server.node.value? w.now w.key

/-- Whether a token is none that was about before and none that was drawn. -/
def isNew (w : World) (t : Lock.Token) : Bool :=
  !w.inherited.contains t.bytes && w.history.all fun e => e.drawn? ≠ some t

def draw (w : World) (id : Nat) (talk : Lock.Talk) : Option World :=
  match talk.unsent? with
  | none => some w
  | some t => if w.isNew t then some { w with history := .drew id t :: w.history } else none

def borrow (w : World) : Option Nat → Option (World × Memory.Connection)
  | some k => w.idle[k]?.map fun c => ({ w with idle := w.idle.eraseIdx k }, c)
  | none =>
    match w.server.connect w.endpoint with
    | .ok c => some (w, c)
    | .error _ => none

def join (w : World) (idle : Option Nat) (talk : Lock.Talk) : Option World := do
  let (w, conn) ← w.borrow idle
  let w ← w.draw w.nextId talk
  return { w with
    parties := w.parties.set w.nextId { talk, loan := { conn } }
    nextId := w.nextId + 1 }

def restore (w : World) (l : Loan Memory.Connection) : World :=
  if l.isSound then { w with idle := l.conn :: w.idle } else w

def gained : Except Failure (Option Lock.Handle) → List Lock.Handle
  | .ok (some h) => [h]
  | _ => []

/-- Lets a party go whose talk is over; its caller gets the result. -/
def dismiss (w : World) (id : Nat) (p : Party) : World :=
  let loan := if p.talk.hasFailed then p.loan.markBroken else p.loan
  let w := restore { w with parties := w.parties.erase id } loan
  match p.talk with
  | .attempt { phase := .over r, .. } =>
    { w with handles := gained r ++ w.handles, history := .returned id r :: w.history }
  | .release { handle, phase := .over r } =>
    { w with history := .released id handle r :: w.history }
  | _ => w

/-- Brings a party the outcome of its call, and notes its deed. -/
def hear (w : World) (id : Nat) (p : Party) (request : Call) (owner : BitVec 128) (o : Outcome)
    (deed : Option Event) : Option World :=
  let p := p.hear ⟨w.clock, owner⟩ request o
  let w := { w with history := deed.toList ++ w.history }
  match p.talk.call? with
  | none => some (w.dismiss id p)
  | some _ => (w.draw id p.talk).map fun w => { w with parties := w.parties.set id p }

/-- Lets the clock of the store go on, which may be the end of the key. -/
def age (w : World) (ms : Nat) : World :=
  let later := { w with now := w.now + ms }
  match w.stored, later.stored with
  | some value, none => { later with history := .lapsed value :: w.history }
  | _, _ => later

def act (w : World) : Move → Option World
  | .tick ms => some { w with clock := w.clock + ms }
  | .age ms => some (w.age ms)
  | .reach up => some { w with server := w.server.setUp up }
  | .elsewhere c request =>
    if request.spares w.key then some { w with server := (c.call w.server w.now request).2.1 }
    else none
  | .attempt o idle owner =>
    match Lock.ofName w.name o with
    | .ok l => w.join idle (.attempt (.start l ⟨w.clock, owner⟩))
    | .error _ => none
  | .release h idle =>
    if h ∈ w.handles ∧ h.key = w.key then
      let w := { w with handles := w.handles.erase h }
      w.join idle (.release { handle := h })
    else none
  | .probe idle => w.join idle (.probe (.reading w.key))
  | .call id owner => do
    let p ← w.parties.get? id
    let request ← p.talk.call?
    match p.ask w.server w.now request with
    | (asked, server, some o) =>
      hear { w with server } id asked request owner o (p.deed? id w.stored o)
    | (asked, server, none) => some { w with server, parties := w.parties.set id asked }
  | .fail id f => do
    let p ← w.parties.get? id
    let request ← p.talk.call?
    w.hear id { p with loan := p.loan.before request, reading := none } request 0 (.error f) none
  | .drop id => do
    let p ← w.parties.get? id
    return restore { w with parties := w.parties.erase id } p.loan

def run (w : World) : List Move → Option World
  | [] => some w
  | m :: ms => (w.act m).bind fun w => w.run ms

end World

/-- A store with data of any kind, where nobody has come yet. -/
structure Start (w : World) : Prop where
  bounded : w.server.node.Bounded
  parties : w.parties = []
  idle : w.idle = []
  history : w.history = []
  stored : ∀ v, w.stored = some v → v ∈ w.inherited
  handles : ∀ h ∈ w.handles, h.token.bytes ∈ w.inherited

def World.empty (name : String) : World :=
  { name, endpoint := ⟨"store", 1⟩, server := {}, now := 0, clock := 0 }

theorem start_empty (name : String) : Start (.empty name) := by
  refine ⟨Memory.Node.bounded_empty, rfl, rfl, rfl, ?_, ?_⟩
  · intro v hv
    cases hv
  · intro h hmem
    cases hmem

inductive Reachable (start : World) : World → Prop
  | refl : Reachable start start
  | step {w w' : World} (h : Reachable start w) (m : Move) (hm : w.act m = some w') :
      Reachable start w'

end Contention
end Holdfast
