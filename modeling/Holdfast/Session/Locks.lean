import Holdfast.Session.Pools

namespace Holdfast.Session

open Store

def namedLock (label : String) : Act (Nat × PlacedLock) := do
  let id ← find "lock" Session.locks label
  return (id, ← orMissing "lock" (← current).locks[id]?)

/-- Keeps a lock under a label, and tells under which one it was shown first. -/
def keepLock (label : String) (id : Nat) : Act Result := do
  let sameAs := ((← get).shownLocks.find? fun (_, shown) => shown = id).map Prod.fst
  modify fun s => { s with
    locks := s.locks.set label id
    shownLocks := if sameAs.isSome then s.shownLocks else s.shownLocks ++ [(label, id)] }
  let (_, placed) ← namedLock label
  return .lock ⟨placed.lock, sameAs⟩

def takeHandle (label : String) : Act Lock.Handle := do
  let h ← find "handle" handles label
  modify fun s => { s with handles := s.handles.erase label }
  return h

/-- Keeps the handle of a lock that was taken. -/
def keepAcquired (label : String) : Option Lock.Handle → Act Result
  | none => return .acquired none
  | some h => do
    modify fun s => { s.learn label h.token with handles := s.handles.set label h }
    return .acquired (some ⟨h, h.token.secondsLeft (← current).clock⟩)

/-- What an errand has come to. -/
def errandResult (label : String) (talk : Lock.Talk) : Act Result := do
  match talk with
  | .attempt _ => keepAcquired label (← orStore talk.acquired)
  | .release _ => return .released (← orStore talk.released)
  | .probe _ => return .locked (← orStore talk.value).isSome

def waitResult (label : String) : Except LockError (Option Lock.Handle) → Act Result
  | .ok h => keepAcquired label h
  | .error e => throw (.lock e)

/-- What a job has come to; what it brought is kept under the label. -/
def jobResult (label : String) : Job → Act Result
  | .errand (.over talk) => errandResult label talk
  | .wait { phase := .over r, .. } => waitResult label r
  | .borrow b => do
    let lent ← orStore (b.result?.getD (.error mismatch))
    keepConn label (.pooled lent)
    return .endpoint (← poolAt lent.pool).endpoint
  | _ => return .pending

/-- Runs an errand to its end. -/
def runErrand (start : Deployment → Deployment × Errand) : Act Lock.Talk := do
  let job ← onDeployment fun d =>
    let (d, e) := start d
    d.perform (.errand e)
  match job with
  | .errand (.over talk) => return talk
  | _ => throw (.store mismatch)

/-- A task that has been reported, or never was, needs no abort. -/
def abortTask (label : String) : Act Unit := do
  match (← get).tasks.get? label with
  | some id =>
    modify fun s => { s with tasks := s.tasks.erase label }
    change (·.abort id)
  | none => return

def flagOf : Option String → Act (Option Nat)
  | none => return none
  | some label => return some (← find "cancel" flags label)

def lockStep : LockStep → Act Result
  | .lock router name options label => do
    let (id, _) ← namedRouter router
    match Lock.ofName name options with
    | .error e => throw (.lock e)
    | .ok lock =>
      let lockId ← onDeployment fun d =>
        ({ d with locks := d.locks ++ [⟨lock, id⟩] }, d.locks.length)
      keepLock label lockId
  | .describe lock => do
    let (_, placed) ← namedLock lock
    return .text placed.lock.toText
  | .tryLock lock label => do
    let (_, placed) ← namedLock lock
    errandResult label (← runErrand (·.startAttempt placed))
  | .tryLockFor lock ms label flag => do
    let (_, placed) ← namedLock lock
    let flag ← flagOf flag
    jobResult label (← onDeployment fun d =>
      let (d, w) := d.startWaiting placed (some ms) flag
      d.perform (.wait w))
  | .cutTryLock lock ms label => do
    let (_, placed) ← namedLock lock
    let job ← onDeployment fun d =>
      let (d, e) := d.startAttempt placed
      d.performFor (.errand e) ms
    match job with
    | some job => jobResult label job
    | none => return .cut
  | .unlock lock handle => do
    let (_, placed) ← namedLock lock
    let h ← takeHandle handle
    errandResult "" (← runErrand (·.startRelease placed h))
  | .isLocked lock => do
    let (_, placed) ← namedLock lock
    errandResult "" (← runErrand (·.startProbe placed))
  | .isHeld lock handle => do
    let (_, placed) ← namedLock lock
    let h ← find "handle" handles handle
    if h.key = placed.lock.key then
      let talk ← runErrand (·.startProbe placed)
      return .held ((← orStore talk.value) = some h.token.bytes)
    else return .held false
  | .flag label => do
    let id ← onDeployment fun d => ({ d with flags := d.flags ++ [false] }, d.flags.length)
    modify fun s => { s with flags := s.flags.set label id }
    return .done
  | .cancel flag => do
    let id ← find "cancel" flags flag
    change fun d => { d with flags := d.flags.set id true }
    return .done
  | .spawnLock lock label ms flag => do
    let (_, placed) ← namedLock lock
    let flag ← flagOf flag
    let w ← onDeployment (·.startWaiting placed ms flag)
    spawn label (.wait w)
  | .spawnUnlock lock handle label => do
    let (_, placed) ← namedLock lock
    let h ← takeHandle handle
    let e ← onDeployment (·.startRelease placed h)
    spawn label (.errand e)
  | .task task => do
    let id ← find "task" tasks task
    match (← current).tasks.get? id with
    | some { job, doneAt := some time } =>
      modify fun s => { s with tasks := s.tasks.erase task }
      change fun d => { d with tasks := d.tasks.erase id }
      let r ← tryCatch (jobResult task job) fun trouble => return .trouble trouble
      return .finished time r
    | _ => return .pending
  | .abort task => do
    abortTask task
    return .done

end Holdfast.Session
