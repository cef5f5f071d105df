import Holdfast.Store.Failure
import Holdfast.Table

namespace Holdfast.Failover

open Store

/-- News on a scripted stream. -/
inductive Script.News
  | message (payload : String)
  | lost
deriving DecidableEq, Repr

/-- News with the milliseconds that pass before it. -/
structure Script.Item where
  after : Nat
  news : Script.News
deriving DecidableEq, Repr

/-- What is left of a scripted stream, and since when its next item is awaited. -/
structure Script.Stream where
  since : Nat
  items : List Script.Item
deriving DecidableEq, Repr

/-- What comes of a subscription, and the milliseconds that pass before it is answered. -/
structure Script.Subscription where
  outcome : Except Failure (List Script.Item)
  after : Nat := 0
deriving Repr

structure Script.Asked where
  peer : Endpoint
  name : String
  time : Nat
deriving DecidableEq, Repr

structure Script.Subscribed where
  peer : Endpoint
  channel : String
  time : Nat
deriving DecidableEq, Repr

/-- Discovery peers whose answers are laid down, with a log of what they were asked. -/
structure Script where
  answers : List (Except Failure (Option Endpoint)) := []
  subscriptions : Table Endpoint (List Script.Subscription) := []
  asked : List Script.Asked := []
  subscribed : List Script.Subscribed := []
deriving Repr

namespace Script

/-- Without an answer that is left, the peer knows no master. -/
def ask (s : Script) (now : Nat) (peer : Endpoint) (name : String) :
    Script × Except Failure (Option Endpoint) :=
  let s := { s with asked := s.asked ++ [Asked.mk peer name now] }
  match s.answers with
  | [] => (s, .ok none)
  | answer :: answers => ({ s with answers }, answer)

/-- The answer to a subscription with the time at which it comes. -/
def subscribe (s : Script) (now : Nat) (peer : Endpoint) (channel : String) :
    Script × Nat × Except Failure Stream :=
  let s := { s with subscribed := s.subscribed ++ [Subscribed.mk peer channel now] }
  match s.subscriptions.get? peer with
  | some (next :: rest) =>
    let due := now + next.after
    ({ s with subscriptions := s.subscriptions.set peer rest }, due,
      next.outcome.map fun items => ⟨due, items⟩)
  | _ => (s, now, .error (.protocol "script exhausted"))

/-- The next item once its time has come. After the last one a stream is silent. -/
def Stream.next? (s : Stream) (now : Nat) : Option (News × Stream) :=
  match s.items with
  | [] => none
  | item :: items => if s.since + item.after ≤ now then some (item.news, ⟨now, items⟩) else none

def Stream.due? (s : Stream) : Option Nat := s.items.head?.map fun item => s.since + item.after

end Script
end Holdfast.Failover
