import Holdfast.Config
import Holdfast.Store.Backend

namespace Holdfast

/-- How far the end of a pool has come: its door is shut first, then nobody gets a permit any more,
and its idle connections are let go last. -/
inductive Pool.Phase
  | serving
  | shut
  | sealed
  | drained
deriving DecidableEq, Repr

/-- The connections to one endpoint that nobody uses at present, and the permits to use one. A
caller who finds no permit queues with a ticket. -/
structure Pool (κ : Type) where
  endpoint : Endpoint
  backend : Store.Backend := .memory
  maxIdle : Nat
  /-- How long a caller queues before it gives up, in milliseconds. -/
  patience : Nat
  testOnBorrow : Bool
  /-- Permits that nobody holds. -/
  free : Nat
  /-- The connection that came back last stands first. -/
  idle : List κ := []
  /-- Tickets in the order in which they were drawn. -/
  waiting : List Nat := []
  /-- Tickets that a permit lies ready for. -/
  granted : List Nat := []
  nextTicket : Nat := 0
  phase : Pool.Phase := .serving
deriving Repr

namespace Pool

/-- What a caller meets at the pool's door. -/
inductive Entry
  | refused
  | admitted
  | queued (ticket : Nat)
deriving DecidableEq, Repr

/-- What has become of a ticket. -/
inductive Turn
  | refused
  | admitted
  | waiting
deriving DecidableEq, Repr

/-- A pool lends at least one connection at a time. -/
def limit (o : PoolOptions) : Nat := max 1 o.maxSize.toNat

def new (endpoint : Endpoint) (o : PoolOptions) (backend : Store.Backend) : Pool κ where
  endpoint
  backend
  maxIdle := o.maxIdle.toNat
  patience := o.checkoutTimeout.toNat
  testOnBorrow := o.testOnBorrow
  free := limit o

def isClosed (p : Pool κ) : Bool := p.phase != .serving

/-- Whether the permits are closed too. -/
def isSealed (p : Pool κ) : Bool :=
  match p.phase with
  | .serving | .shut => false
  | .sealed | .drained => true

/-- Asks for a permit. -/
def ask (p : Pool κ) : Pool κ × Entry :=
  if p.isSealed then (p, .refused)
  else if 0 < p.free then ({ p with free := p.free - 1 }, .admitted)
  else
    ({ p with waiting := p.waiting ++ [p.nextTicket], nextTicket := p.nextTicket + 1 },
      .queued p.nextTicket)

/-- Looks whether the pool is open, and asks for a permit then. -/
def enter (p : Pool κ) : Pool κ × Entry := if p.isClosed then (p, .refused) else p.ask

/-- A permit goes to the ticket that has waited longest. -/
def giveBack (p : Pool κ) : Pool κ :=
  match p.waiting with
  | [] => { p with free := p.free + 1 }
  | ticket :: rest => { p with waiting := rest, granted := p.granted ++ [ticket] }

/-- Takes a ticket out of the queue, with the permit that may lie ready for it. -/
def withdraw (p : Pool κ) (ticket : Nat) : Pool κ :=
  if ticket ∈ p.granted then { p with granted := p.granted.erase ticket }.giveBack
  else { p with waiting := p.waiting.erase ticket }

/-- Where the permits were closed in the meantime nobody is admitted, not even with a permit. -/
def collect (p : Pool κ) (ticket : Nat) : Pool κ × Turn :=
  if p.isSealed then (p.withdraw ticket, .refused)
  else if ticket ∈ p.granted then ({ p with granted := p.granted.erase ticket }, .admitted)
  else (p, .waiting)

def takeIdle (p : Pool κ) : Pool κ × Option κ :=
  match p.idle with
  | [] => (p, none)
  | conn :: rest => ({ p with idle := rest }, some conn)

/-- Puts a connection with the idle ones unless there are enough. -/
def keep (p : Pool κ) (conn : κ) : Pool κ :=
  if p.idle.length < p.maxIdle then { p with idle := conn :: p.idle } else p

/-- Keeps a sound connection for the next caller if it finds the pool open. Whether it still is when
the connection is put back, nobody asks. -/
def checkIn (p : Pool κ) (conn : κ) (isSound : Bool) : Pool κ :=
  if isSound && !p.isClosed then p.keep conn else p

def shut (p : Pool κ) : Pool κ := { p with phase := .shut }

/-- Nobody gets a permit any more, and the queue is sent away. -/
def closePermits (p : Pool κ) : Pool κ := { p with phase := .sealed, waiting := [] }

/-- Lets the idle connections go. -/
def drain (p : Pool κ) : Pool κ := { p with phase := .drained, idle := [] }

/-- Does nothing to a pool whose end has begun. -/
def close (p : Pool κ) : Pool κ := if p.isClosed then p else p.shut.closePermits.drain

end Pool
end Holdfast
