import Holdfast.Store.Failure

namespace Holdfast.Failover

open Store

/-- What can be seen of a listener. -/
inductive ListenerState
  | disconnected
  | subscribing
  | listening
  | terminated
deriving DecidableEq, Repr

def ListenerState.toText : ListenerState → String
  | disconnected => "Disconnected"
  | subscribing => "Subscribing"
  | listening => "Listening"
  | terminated => "Terminated"

/-- Where a listener on one peer stands, with the stream it reads. -/
inductive Listener.Phase (σ : Type)
  | starting
  | subscribing
  /-- The answer to a subscription, which is due at some time. -/
  | asking (due : Nat) (answer : Except Failure σ)
  | listening (stream : σ)
  | pausing (due : Nat)
  | terminated
deriving Repr

structure Listener (σ : Type) where
  peer : Endpoint
  phase : Listener.Phase σ := .starting
deriving Repr

namespace Listener

def state (l : Listener σ) : ListenerState :=
  match l.phase with
  | .starting | .pausing _ => .disconnected
  | .subscribing | .asking .. => .subscribing
  | .listening _ => .listening
  | .terminated => .terminated

/-- The stream that a listener holds; one that has just been opened counts. -/
def stream? (l : Listener σ) : Option σ :=
  match l.phase with
  | .asking _ (.ok s) | .listening s => some s
  | _ => none

/-- Whether a listener waits, and so hears of its end. -/
def isWaiting (l : Listener σ) : Bool :=
  match l.phase with
  | .starting | .terminated => false
  | _ => true

/-- Without a subscription, a listener pauses before it asks for one again. -/
def lost (backoff now : Nat) : Phase σ := .pausing (now + backoff)

def subscribed (backoff now : Nat) : Except Failure σ → Phase σ
  | .ok stream => .listening stream
  | .error _ => lost backoff now

end Listener
end Holdfast.Failover
