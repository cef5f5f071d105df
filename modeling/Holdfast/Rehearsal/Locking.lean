import Holdfast.Session.Run

namespace Holdfast.Rehearsal

open Store

/-- The one store of a rehearsal. -/
def storeEndpoint : Endpoint := ⟨"store", 1⟩

/-- A session that holds, under an empty label, a lock over a store that follows a script. -/
def locking (name : String) (o : Lock.Options) (pool : PoolOptions) (lines : List Script.Line) :
    Except LockError Session := do
  let lock ← Lock.ofName name o
  let d : Deployment := { stores := .script { lines } }
  match d.addRouter ["only"] ⟨[storeEndpoint]⟩ pool .memory with
  | .ok (d, router) =>
    return { deployment := { d with locks := [⟨lock, router⟩] }, locks := [("", 0)] }
  | .error _ => throw .invalidName

/-- A token by its number among those that the store was sent, and the seconds it is held. -/
structure Mark where
  number : Nat
  hold : Nat
deriving DecidableEq, Repr

def scriptOf (s : Session) : Script :=
  match s.deployment.stores with
  | .script script => script
  | .cluster _ => { lines := [] }

def mark? (s : Session) (value : Bytes) : Option Mark := do
  let t ← Lock.Token.ofBytes? value
  let number ← (scriptOf s).sent.findIdx? (· = value)
  return ⟨number, t.secondsLeft s.deployment.clock⟩

/-- A step of a rehearsal, with what the store was asked for meanwhile. -/
structure Scene where
  report : Session.Report
  calls : List Script.Entry
deriving Repr

def play (s : Session) (step : Session.LockStep) : Session × Scene :=
  let before := (scriptOf s).log.length
  let (s, report) := s.step (.lock step)
  (s, ⟨report, (scriptOf s).log.drop before⟩)

end Holdfast.Rehearsal
