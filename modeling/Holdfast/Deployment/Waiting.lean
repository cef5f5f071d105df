import Holdfast.Deployment.Errand

namespace Holdfast

namespace Deployment

/-- Takes a waiting caller to where its wait says. -/
def enterPhase (d : Deployment) (w : Waiting) : Lock.Wait.Phase → Deployment × Waiting
  | .attempting =>
    let (d, e) := d.startAttempt w.lock
    (d, { w with phase := .attempting e })
  | .pausing due => (d, { w with phase := .pausing due })
  | .over result => (d, { w with phase := .over result })

/-- Begins to wait for a lock, for some milliseconds or for ever. -/
def startWaiting (d : Deployment) (l : PlacedLock) (limit flag : Option Nat) :
    Deployment × Waiting :=
  let wait : Lock.Wait := ⟨limit.map (d.now + ·), l.lock.sleep⟩
  d.enterPhase { lock := l, wait, flag, phase := .pausing d.now }
    (Lock.Wait.attemptUnless (d.isRaised flag))

/-- One step of a waiting caller, or none while it waits or when it is over. -/
def stepWaiting (d : Deployment) (w : Waiting) : Option (Deployment × Waiting) :=
  match w.phase with
  | .over _ => none
  | .pausing due => do
    let phase ← Lock.Wait.wake? d.now due (d.isRaised w.flag)
    return d.enterPhase w phase
  | .attempting e =>
    match e.talk? with
    | some talk => some (d.enterPhase w (w.wait.attempted d.now talk.acquired))
    | none => do
      let (d, e) ← d.stepErrand e
      return (d, { w with phase := .attempting e })

def abandonWaiting (d : Deployment) (w : Waiting) : Deployment :=
  match w.phase with
  | .attempting e => d.abandonErrand e
  | .pausing _ | .over _ => d

end Deployment

namespace Waiting

def due? (w : Waiting) : Option Nat :=
  match w.phase with
  | .attempting e => e.due?
  | .pausing due => some due
  | .over _ => none

end Waiting
end Holdfast
