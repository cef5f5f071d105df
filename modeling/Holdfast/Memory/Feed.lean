namespace Holdfast.Memory

/-- What a discovery peer sends to its subscribers. -/
inductive PeerEvent
  | message (channel payload : String)
  | disconnect
deriving DecidableEq, Repr

/-- The events of a peer since it was added, oldest first. -/
structure Feed where
  events : List PeerEvent := []
  isOpen : Bool := true
  /-- Subscriptions that have not ended. -/
  readers : Nat := 0
deriving DecidableEq, Repr

/-- A subscription: the feed, the channel, and how many events it has passed. -/
structure Reader where
  feed : Nat
  channel : String
  position : Nat
deriving DecidableEq, Repr

/-- What the next look at a subscription brings. -/
inductive Heard
  | message (payload : String)
  | ended
  | nothing
deriving DecidableEq, Repr

namespace Feed

/-- Only the latest events are kept. -/
def capacity : Nat := 64

def oldest (f : Feed) : Nat := f.events.length - capacity

def push (f : Feed) (e : PeerEvent) : Feed := { f with events := f.events ++ [e] }

/-- The first payload on a channel before the peer disconnects, with the number of events passed. -/
def scan (channel : String) (whenDone : Heard) : List PeerEvent → Nat → Heard × Nat
  | [], position => (whenDone, position)
  | .disconnect :: _, position => (.ended, position + 1)
  | .message c payload :: events, position =>
    if c = channel then (.message payload, position + 1)
    else scan channel whenDone events (position + 1)

/-- A subscription that fell behind goes on with the oldest event that is kept. -/
def next (f : Feed) (r : Reader) : Heard × Reader :=
  let start := max r.position f.oldest
  let (heard, position) :=
    scan r.channel (if f.isOpen then .nothing else .ended) (f.events.drop start) start
  (heard, { r with position })

end Feed
end Holdfast.Memory
