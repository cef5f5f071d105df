import Mathlib.Data.List.Chain
import Holdfast.Deployment.Waiting

namespace Holdfast

open Store

namespace Lock.Wait

/-- The lock that an attempt has brought. A failure is a loss like any other. -/
def won? : Except Failure (Option Handle) → Option Handle
  | .ok h => h
  | .error _ => none

def isPast (w : Wait) (now : Nat) : Bool := w.deadline.any (· ≤ now)

/-- When the pause ends that begins now. -/
def wakes (w : Wait) (now : Nat) : Nat :=
  match w.deadline with
  | none => now + w.sleep
  | some deadline => min (now + w.sleep) deadline

/-- What an attempt comes to that ends now: the result of the wait, if it does not go on. -/
def verdict? (w : Wait) (now : Nat) (r : Except Failure (Option Handle)) :
    Option (Except LockError (Option Handle)) :=
  match won? r with
  | some h => some (.ok (some h))
  | none => if w.isPast now then some (.ok none) else none

variable {w : Wait} {now : Nat} {r : Except Failure (Option Handle)}

/-- A wait goes on where an attempt has brought nothing and the deadline has not come. -/
theorem verdict?_eq_none : w.verdict? now r = none ↔ won? r = none ∧ w.isPast now = false := by
  unfold verdict?
  split
  · next h hr => simp [hr]
  · next hr => simp [hr]

theorem verdict?_eq_some {v : Except LockError (Option Handle)} :
    w.verdict? now r = some v ↔ (∃ h, won? r = some h ∧ v = .ok (some h)) ∨
      (won? r = none ∧ w.isPast now = true ∧ v = .ok none) := by
  unfold verdict?
  cases hr : won? r with
  | some h =>
    simp only [Option.some.injEq, exists_eq_left', reduceCtorEq, false_and, or_false, eq_comm]
  | none => cases w.isPast now <;> simp [eq_comm (a := v)]

theorem verdict?_ne_error {f : LockError} : w.verdict? now r ≠ some (.error f) := by
  intro h
  rcases verdict?_eq_some.mp h with ⟨handle, -, hv⟩ | ⟨-, -, hv⟩ <;> cases hv

theorem isPast_of_verdict? (h : w.verdict? now r = some (.ok none)) : w.isPast now = true := by
  rcases verdict?_eq_some.mp h with ⟨handle, -, hv⟩ | ⟨-, hpast, -⟩
  · cases hv
  · exact hpast

theorem le_wakes (h : w.isPast now = false) : now ≤ w.wakes now := by
  unfold wakes
  split
  · omega
  · next deadline hd =>
    have : now < deadline := by simpa [isPast, hd] using h
    omega

theorem wakes_le_deadline {deadline : Nat} (hd : w.deadline = some deadline) :
    w.wakes now ≤ deadline := by
  simp only [wakes, hd]
  omega

theorem attempted_eq (w : Wait) (now : Nat) (r : Except Failure (Option Handle)) :
    w.attempted now r = match w.verdict? now r with
      | some v => .over v
      | none => .pausing (w.wakes now) := by
  have hpause : w.pause now =
      if w.isPast now then .over (.ok none) else .pausing (w.wakes now) := by
    unfold pause isPast wakes
    cases w.deadline with
    | none => rfl
    | some deadline => simp
  unfold attempted verdict?
  split
  · rfl
  · rw [hpause]
    simp only [won?]
    split <;> rfl
  · rw [hpause]
    simp only [won?]
    split <;> rfl

end Lock.Wait

namespace Waiting

/-- What a waiting caller is seen to do, and what cancels it. -/
inductive Deed
  | began
  | ended (r : Except Failure (Option Lock.Handle))
  | cancelled
  | returned (r : Except LockError (Option Lock.Handle))
deriving DecidableEq, Repr

structure Note where
  time : Nat
  deed : Deed
deriving DecidableEq, Repr

/-- Where a call stands: in the attempt or the pause since some time, or over. -/
inductive Stage
  | attempting (since : Nat)
  | pausing (since : Nat)
  | done (time : Nat) (r : Except LockError (Option Lock.Handle))

/-- When a call in some stage may be cancelled. -/
def Stage.admits (w : Lock.Wait) : Stage → Nat → Prop
  | attempting since, time => since ≤ time
  | pausing since, time => since ≤ time ∧ time ≤ w.wakes since
  | done .., _ => False

/-- How a call goes that begins at some time: what is seen of it, when it was cancelled, and where
it stands. -/
inductive Course (w : Lock.Wait) (start : Nat) : List Note → Option Nat → Stage → Prop
  | enter : Course w start [⟨start, .began⟩] none (.attempting start)
  | refuse : Course w start [⟨start, .cancelled⟩, ⟨start, .returned (.error .cancelled)⟩]
      (some start) (.done start (.error .cancelled))
  | finish {ns : List Note} {c : Option Nat} {b e : Nat} {r : Except Failure (Option Lock.Handle)}
      {v : Except LockError (Option Lock.Handle)} (so : Course w start ns c (.attempting b))
      (began : b ≤ e) (cancelled : ∀ x ∈ c, x ≤ e) (verdict : w.verdict? e r = some v) :
      Course w start (ns ++ [⟨e, .ended r⟩, ⟨e, .returned v⟩]) c (.done e v)
  | lose {ns : List Note} {c : Option Nat} {b e : Nat} {r : Except Failure (Option Lock.Handle)}
      (so : Course w start ns c (.attempting b)) (began : b ≤ e) (cancelled : ∀ x ∈ c, x ≤ e)
      (verdict : w.verdict? e r = none) :
      Course w start (ns ++ [⟨e, .ended r⟩]) c (.pausing e)
  | retry {ns : List Note} {e : Nat} (so : Course w start ns none (.pausing e)) :
      Course w start (ns ++ [⟨w.wakes e, .began⟩]) none (.attempting (w.wakes e))
  | cancel {ns : List Note} {stage : Stage} {c : Nat} (so : Course w start ns none stage)
      (admits : stage.admits w c) : Course w start (ns ++ [⟨c, .cancelled⟩]) (some c) stage
  | stop {ns : List Note} {e c : Nat} (so : Course w start ns (some c) (.pausing e)) :
      Course w start (ns ++ [⟨max e c, .returned (.error .cancelled)⟩]) (some c)
        (.done (max e c) (.error .cancelled))

end Waiting
end Holdfast
