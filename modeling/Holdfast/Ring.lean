import Holdfast.Ring.Murmur

namespace Holdfast

namespace Ring

def seed : UInt64 := 0x1234ABCD

def pointsPerShard : Nat := 160

/-- Where a text stands on the ring: its hash read as a signed number. -/
def position (data : Bytes) : Int64 := (murmur seed data).toInt64

def label (shard node : Nat) : Bytes := Bytes.ofText s!"SHARD-{shard}-NODE-{node}"

end Ring

/-- A point on the ring and the shard that owns it. -/
structure Ring.Point where
  position : Int64
  shard : Nat
deriving DecidableEq, Repr

/-- Points in the order of their positions. -/
structure Ring where
  points : Array Ring.Point
deriving Repr

namespace Ring

def pointsOf (shard : Nat) : List Point :=
  (List.range pointsPerShard).map fun node => ⟨position (label shard node), shard⟩

def ofShards (count : Nat) : Ring :=
  ⟨(((List.range count).flatMap pointsOf).mergeSort fun a b => a.position ≤ b.position).toArray⟩

/-- The end of the indices from `low` on at which `holds`, where these come first among those below
`high`. It is found by halving. -/
def bisect (holds : Nat → Bool) (low high : Nat) : Nat :=
  if low < high then
    let middle := low + (high - low) / 2
    if holds middle then bisect holds (middle + 1) high else bisect holds low middle
  else low
termination_by high - low

/-- How many points there are before a position. -/
def countBefore (r : Ring) (target : Int64) : Nat :=
  bisect (fun i => r.points[i]?.any (·.position < target)) 0 r.points.size

/-- The owner of the first point at or after the key, going round to the first point of all. -/
def locate (r : Ring) (key : Bytes) : Nat :=
  match r.points[r.countBefore (position key)]? with
  | some p => p.shard
  | none => (r.points[0]?.map Point.shard).getD 0

end Ring
end Holdfast
