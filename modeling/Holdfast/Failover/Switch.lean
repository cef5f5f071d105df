import Holdfast.Failover.Announcement
import Holdfast.Router

namespace Holdfast

/-- Applies a payload from a discovery peer. One that is malformed, or names a shard that the router
does not know, changes nothing. -/
def Router.applySwitch (r : Router) (ps : Pools κ) (payload : String) : Pools κ × Router :=
  match Failover.Announcement.parse payload with
  | .error _ => (ps, r)
  | .ok news =>
    match r.shardIndex? news.shard with
    | none => (ps, r)
    | some index =>
      match r.update ps index news.new with
      | .ok (ps, r, _) => (ps, r)
      | .error _ => (ps, r)

end Holdfast
