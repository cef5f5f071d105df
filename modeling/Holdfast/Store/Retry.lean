import Holdfast.Store.Failure

namespace Holdfast.Store

/-- Calls again after each delay for as long as the failure is transient and a delay is left. -/
def retrying [Monad m] (isTransient : ε → Bool) (pause : Nat → m Unit) (call : m (Except ε α)) :
    List Nat → m (Except ε α)
  | [] => call
  | delay :: delays => do
    match ← call with
    | .ok a => return .ok a
    | .error e =>
      if isTransient e then do
        pause delay
        retrying isTransient pause call delays
      else return .error e

/-- Three retries, each delay ten times the one before, in milliseconds. -/
def defaultDelays : List Nat := [10, 100, 1000]

/-- A run of an operation whose outcomes are laid down, on a clock of its own. -/
structure Rehearsal (α : Type) where
  clock : Nat := 0
  outcomes : List (Except Failure α)
  callsAt : List Nat := []

namespace Rehearsal

def call : StateM (Rehearsal α) (Except Failure α) := fun r =>
  let r := { r with callsAt := r.callsAt ++ [r.clock] }
  match r.outcomes with
  | [] => (.error (.protocol "script exhausted"), r)
  | o :: os => (o, { r with outcomes := os })

def pause (ms : Nat) : StateM (Rehearsal α) Unit := fun r => ((), { r with clock := r.clock + ms })

def retry (delays : List Nat) (outcomes : List (Except Failure α)) :
    Except Failure α × Rehearsal α :=
  (retrying Failure.isTransient pause call delays).run { outcomes }

end Rehearsal
end Holdfast.Store
