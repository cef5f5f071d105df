import Holdfast.Lock
import Holdfast.Store.Call

namespace Holdfast.Lock

open Store

inductive Release.Phase
  | watching
  | reading
  /-- Ends the watch because somebody else's value stands there. -/
  | yielding
  | deleting
  | over (result : Except Failure Bool)
deriving Repr

/-- Giving a lock back: its key is deleted if it still holds the token. -/
structure Release where
  handle : Handle
  phase : Release.Phase := .watching
deriving Repr

namespace Release

def call? (r : Release) : Option Call :=
  match r.phase with
  | .watching => some (.watch r.handle.key)
  | .reading => some (.get r.handle.key)
  | .yielding => some .unwatch
  | .deleting => some (.exec [.delete r.handle.key])
  | .over _ => none

def finish (r : Release) (result : Except Failure Bool) : Release :=
  { r with phase := .over result }

def replied (r : Release) (reply : Reply) : Release :=
  match r.phase, reply with
  | .watching, .done => { r with phase := .reading }
  | .reading, .value v =>
    { r with phase := if v = some r.handle.token.bytes then .deleting else .yielding }
  | .yielding, .done => r.finish (.ok false)
  | .deleting, .effects es => r.finish (.ok es.isSome)
  | .over _, _ => r
  | _, _ => r.finish (.error mismatch)

def resume (r : Release) : Outcome → Release
  | .ok reply => r.replied reply
  | .error f => r.finish (.error f)

end Release
end Holdfast.Lock
