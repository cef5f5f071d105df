import Holdfast.Lock
import Holdfast.Store.Call

namespace Holdfast.Lock

open Store

/-- Where an attempt to take a lock stands: which call it waits for. -/
inductive Attempt.Phase
  | creating (token : Token)
  | expiring (token : Token)
  | watching
  | reading
  /-- Ends the watch because the lock is held. -/
  | yielding
  /-- Ends the watch because the lock has vanished, and starts again. -/
  | retrying
  /-- Replaces the stale value that was read. -/
  | seizing (token : Token) (seen : Bytes)
  | over (result : Except Failure (Option Handle))
deriving Repr

/-- One attempt to take a lock: create its key, or take it over from a holder whose time is up. -/
structure Attempt where
  lock : Lock
  /-- How often the attempt may still start again. -/
  retries : Nat
  phase : Attempt.Phase
deriving Repr

namespace Attempt

def maxRetries : Nat := 3

def start (l : Lock) (m : Moment) : Attempt := ⟨l, maxRetries, .creating (l.freshToken m)⟩

def call? (a : Attempt) : Option Call :=
  match a.phase with
  | .creating token => some (.setIfAbsent a.lock.key token.bytes)
  | .expiring _ => some (.expire a.lock.key a.lock.hold)
  | .watching => some (.watch a.lock.key)
  | .reading => some (.get a.lock.key)
  | .yielding | .retrying => some .unwatch
  | .seizing token _ =>
    some (.exec [.put a.lock.key token.bytes, .expire a.lock.key a.lock.hold])
  | .over _ => none

/-- A transaction that ran is not enough: it must have replaced the value that was read. -/
def tookOver (seen : Bytes) : Option (List Effect) → Bool
  | some (.previous (some value) :: _) => value = seen
  | _ => false

def finish (a : Attempt) (result : Except Failure (Option Handle)) : Attempt :=
  { a with phase := .over result }

/-- The lock has vanished between its creation by somebody else and the read. -/
def again (a : Attempt) (m : Moment) : Attempt :=
  match a.retries with
  | 0 => a.finish (.ok none)
  | n + 1 => { a with retries := n, phase := .creating (a.lock.freshToken m) }

def replied (a : Attempt) (m : Moment) (reply : Reply) : Attempt :=
  match a.phase, reply with
  | .creating token, .flag true => { a with phase := .expiring token }
  | .creating _, .flag false => { a with phase := .watching }
  | .expiring token, .flag _ => a.finish (.ok (some (a.lock.handle token)))
  | .watching, .done => { a with phase := .reading }
  | .reading, .value none => { a with phase := .retrying }
  | .reading, .value (some seen) =>
    if isStale seen (UInt64.ofNat m.clock) then
      { a with phase := .seizing (a.lock.freshToken m) seen }
    else { a with phase := .yielding }
  | .yielding, .done => a.finish (.ok none)
  | .retrying, .done => a.again m
  | .seizing token seen, .effects es =>
    a.finish (.ok (if tookOver seen es then some (a.lock.handle token) else none))
  | .over _, _ => a
  | _, _ => a.finish (.error mismatch)

def resume (a : Attempt) (m : Moment) : Outcome → Attempt
  | .ok reply => a.replied m reply
  | .error f => a.finish (.error f)

end Attempt
end Holdfast.Lock
