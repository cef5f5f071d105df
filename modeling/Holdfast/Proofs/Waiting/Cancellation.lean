import Holdfast.Proofs.Waiting.Schedule

namespace Holdfast

open Store

/-- What a call returns that was cancelled during an attempt: what the attempt decides, if anything.
-/
def Lock.Wait.parting (w : Lock.Wait) (now : Nat) (r : Except Failure (Option Lock.Handle)) :
    Except LockError (Option Lock.Handle) :=
  (w.verdict? now r).getD (.error .cancelled)

namespace Waiting

/-- What follows after a call was cancelled, by what was seen before and where the call stands. -/
inductive Parts (w : Lock.Wait) (start c : Nat) : List Note → List Note → Stage → Prop
  | refused (early : c = start) :
      Parts w start c [] [⟨c, .returned (.error .cancelled)⟩] (.done c (.error .cancelled))
  | paused {front : List Note} {e : Nat} {r : Except Failure (Option Lock.Handle)} (since : e ≤ c) :
      Parts w start c (front ++ [⟨e, .ended r⟩]) [] (.pausing e)
  | stopped {front : List Note} {e : Nat} {r : Except Failure (Option Lock.Handle)}
      (since : e ≤ c) :
      Parts w start c (front ++ [⟨e, .ended r⟩]) [⟨c, .returned (.error .cancelled)⟩]
        (.done c (.error .cancelled))
  | attempting {front : List Note} {b : Nat} (since : b ≤ c) :
      Parts w start c (front ++ [⟨b, .began⟩]) [] (.attempting b)
  | lost {front : List Note} {b e : Nat} {r : Except Failure (Option Lock.Handle)} (since : b ≤ c)
      (ends : c ≤ e) (verdict : w.verdict? e r = none) :
      Parts w start c (front ++ [⟨b, .began⟩]) [⟨e, .ended r⟩] (.pausing e)
  | parted {front : List Note} {b e : Nat} {r : Except Failure (Option Lock.Handle)} (since : b ≤ c)
      (ends : c ≤ e) :
      Parts w start c (front ++ [⟨b, .began⟩]) [⟨e, .ended r⟩, ⟨e, .returned (w.parting e r)⟩]
        (.done e (w.parting e r))

variable {w : Lock.Wait} {start : Nat} {ns : List Note} {c : Option Nat} {stage : Stage}

theorem Course.uncancelled (h : Course w start ns c stage) (hc : c = none) :
    ∀ y ∈ ns, y.deed ≠ .cancelled := by
  induction h with
  | enter => simp
  | refuse | cancel | stop => cases hc
  | finish so began cancelled verdict ih =>
    intro y hy
    rcases List.mem_append.mp hy with hy | hy
    · exact ih hc y hy
    · rcases List.mem_pair.mp hy with rfl | rfl <;> nofun
  | lose so began cancelled verdict ih | retry so ih =>
    intro y hy
    rcases List.mem_append.mp hy with hy | hy
    · exact ih hc y hy
    · obtain rfl := List.mem_singleton.mp hy
      nofun

/-- What is seen of a call that was cancelled: how it went before, the cancellation, and what
follows from both. -/
theorem Course.parts (h : Course w start ns c stage) {x : Nat} (hc : c = some x) :
    ∃ before after, ns = before ++ ⟨x, .cancelled⟩ :: after ∧
      (∀ y ∈ before, y.deed ≠ .cancelled) ∧ Parts w start x before after stage := by
  induction h with
  | enter => cases hc
  | refuse =>
    cases hc
    exact ⟨[], _, rfl, nofun, .refused rfl⟩
  | @finish ns c b e r v so began cancelled verdict ih =>
    obtain ⟨before, after, rfl, hbefore, parts⟩ := ih hc
    cases parts with
    | attempting since =>
      have hv : w.parting e r = v := by simp [Lock.Wait.parting, verdict]
      rw [← hv]
      exact ⟨_, _, by simp, hbefore, .parted since (cancelled x hc)⟩
  | lose so began cancelled verdict ih =>
    obtain ⟨before, after, rfl, hbefore, parts⟩ := ih hc
    cases parts with
    | attempting since => exact ⟨_, _, by simp, hbefore, .lost since (cancelled x hc) verdict⟩
  | retry so ih => cases hc
  | @cancel ns stage c so admits ih =>
    cases hc
    obtain ⟨-, -, last, hlast, shows⟩ := so.next rfl
    obtain ⟨front, rfl⟩ := List.getLast?_eq_some_iff.mp hlast
    refine ⟨_, [], rfl, so.uncancelled rfl, ?_⟩
    cases shows with
    | attempting => exact .attempting admits
    | pausing lost => exact .paused admits.1
    | done => cases admits
  | @stop ns e c so ih =>
    cases hc
    obtain ⟨before, after, rfl, hbefore, parts⟩ := ih rfl
    cases parts with
    | paused since =>
      rw [Nat.max_eq_right since]
      exact ⟨_, _, by simp, hbefore, .stopped since⟩
    | @lost _ _ _ r since ends verdict =>
      have hv : w.parting e r = .error .cancelled := by simp [Lock.Wait.parting, verdict]
      rw [Nat.max_eq_left ends, ← hv]
      exact ⟨_, _, by simp, hbefore, .parted since ends⟩

theorem Parts.uncancelled {x : Nat} {before after : List Note}
    (h : Parts w start x before after stage) : ∀ y ∈ after, y.deed ≠ .cancelled := by
  cases h <;> simp

theorem Course.parts_of_split (h : Course w start ns c stage) {x : Nat} {before after : List Note}
    (hns : ns = before ++ ⟨x, .cancelled⟩ :: after) :
    c = some x ∧ Parts w start x before after stage := by
  have hx : (⟨x, .cancelled⟩ : Note) ∈ ns := by simp [hns]
  cases hc : c with
  | none => exact absurd rfl (h.uncancelled hc _ hx)
  | some x' =>
    obtain ⟨before', after', hns', hbefore, parts⟩ := h.parts hc
    have hsame : before' ++ (⟨x', .cancelled⟩ : Note) :: after' =
        before ++ ⟨x, .cancelled⟩ :: after := hns'.symm.trans hns
    rw [List.append_cons_inj_of_notMem (fun hm => hbefore _ hm rfl)
      (fun hm => parts.uncancelled _ hm rfl)] at hsame
    obtain ⟨rfl, hnote, rfl⟩ := hsame
    cases hnote
    exact ⟨rfl, parts⟩

end Waiting

namespace Deployment

open Waiting

variable {l : PlacedLock} {limit flag : Option Nat} {d₀ d : Deployment} {w : Waiting}
  {ns : List Note}

/-- No attempt begins once a wait is cancelled. Whoever is cancelled before the call or in a pause
returns just then. Whoever is cancelled during an attempt returns at its end: the lock if the
attempt has won it, nothing if the deadline has come, and otherwise that the wait was cancelled.
That is the only error that a wait returns. -/
theorem cancellation_heeded (h : Waits l limit flag d₀ d w ns) :
    (∀ before c after, ns = before ++ ⟨c, .cancelled⟩ :: after →
      begun after = [] ∧
      (((before = [] ∧ c = d₀.now ∨ ∃ front e r, before = front ++ [⟨e, .ended r⟩] ∧ e ≤ c) ∧
          (after = [⟨c, .returned (.error .cancelled)⟩] ∨ after = [] ∧ d.now = c ∧
            d.stepWaiting w = some (d, { w with phase := .over (.error .cancelled) }))) ∨
        ∃ front b, before = front ++ [⟨b, .began⟩] ∧ b ≤ c ∧
          ((after = [] ∧ ∃ e, w.phase = .attempting e) ∨
            ∃ e r, c ≤ e ∧
              (after = [⟨e, .ended r⟩, ⟨e, .returned ((d₀.waitFrom l limit).parting e r)⟩] ∨
                after = [⟨e, .ended r⟩] ∧ d.now = e ∧
                  (d₀.waitFrom l limit).parting e r = .error .cancelled ∧
                  d.stepWaiting w = some (d, { w with phase := .over (.error .cancelled) }))))) ∧
    (∀ t f, ⟨t, .returned (.error f)⟩ ∈ ns → f = .cancelled ∧ ∃ c, c ≤ t ∧ ⟨c, .cancelled⟩ ∈ ns) ∧
    (limit = none → ∀ t, ⟨t, .returned (.ok none)⟩ ∉ ns) := by
  obtain ⟨c, stage, hcourse, hat⟩ := h.course
  refine ⟨?_, ?_, ?_⟩
  · intro before x after hns
    obtain ⟨rfl, parts⟩ := hcourse.parts_of_split hns
    have hstop {e : Nat} (hstage : stage = .pausing e) : d.now = max e x ∧
        d.stepWaiting w = some (d, { w with phase := .over (.error .cancelled) }) := by
      subst hstage
      cases hat with
      | pausing phase since due flag cancelled =>
        exact ⟨cancelled x rfl, step_of_raised phase flag⟩
    cases parts with
    | refused early => exact ⟨rfl, .inl ⟨.inl ⟨rfl, early⟩, .inl rfl⟩⟩
    | @paused front e r since =>
      obtain ⟨hnow, hstep⟩ := hstop rfl
      rw [Nat.max_eq_right since] at hnow
      exact ⟨rfl, .inl ⟨.inr ⟨front, e, r, rfl, since⟩, .inr ⟨rfl, hnow, hstep⟩⟩⟩
    | @stopped front e r since =>
      exact ⟨rfl, .inl ⟨.inr ⟨front, e, r, rfl, since⟩, .inl rfl⟩⟩
    | @attempting front b since =>
      cases hat with
      | attempting phase => exact ⟨rfl, .inr ⟨front, b, rfl, since, .inl ⟨rfl, _, phase⟩⟩⟩
    | @lost front b e r since ends verdict =>
      obtain ⟨hnow, hstep⟩ := hstop rfl
      rw [Nat.max_eq_left ends] at hnow
      have hv : (d₀.waitFrom l limit).parting e r = .error .cancelled := by
        simp [Lock.Wait.parting, verdict]
      exact ⟨rfl, .inr ⟨front, b, rfl, since, .inr ⟨e, r, ends, .inr ⟨rfl, hnow, hv, hstep⟩⟩⟩⟩
    | @parted front b e r since ends =>
      exact ⟨rfl, .inr ⟨front, b, rfl, since, .inr ⟨e, r, ends, .inl rfl⟩⟩⟩
  · intro t f hx
    rcases hcourse.returns (hcourse.returned hx) with ⟨hf, x, hc, hle⟩ | ⟨r, -, hv⟩
    · cases hf
      obtain ⟨before, after, rfl, -, -⟩ := hcourse.parts hc
      exact ⟨rfl, x, hle, by simp⟩
    · exact absurd hv Lock.Wait.verdict?_ne_error
  · rintro rfl t hx
    rcases hcourse.returns (hcourse.returned hx) with ⟨hv, -⟩ | ⟨r, -, hv⟩
    · cases hv
    · cases Lock.Wait.isPast_of_verdict? hv

theorem aside_raise (d : Deployment) (w : Waiting) (i : Nat) :
    w.Aside d { d with flags := d.flags.set i true } where
  now := Nat.le_refl _
  waits hlt := absurd hlt (Nat.lt_irrefl _)
  pause _ _ hlt := absurd hlt (Nat.lt_irrefl _)
  flag := by
    unfold isRaised
    cases w.flag with
    | none => exact id
    | some j =>
      simp only [List.getElem?_set]
      split
      · next hij =>
        subst hij
        split
        · exact fun _ => rfl
        · next hlen => simp [hlen]
      · exact id

/-- The lock is free, but the store takes its time to say so. -/
def hesitant : Deployment :=
  { scripted [.flag true, .later 100 (.flag true), .flag true] with flags := [false] }

/-- Cancelled during its first attempt, a caller returns the lock that it brings. -/
theorem cancellation_heeded_won : ∃ (d : Deployment) (w : Waiting) (ns : List Note)
    (handle : Lock.Handle), Waits ⟨⟨"L", 30, 10⟩, 0⟩ none (some 0) hesitant d w ns ∧
    ns = [⟨0, .began⟩, ⟨30, .cancelled⟩, ⟨100, .ended (.ok (some handle))⟩,
      ⟨100, .returned (.ok (some handle))⟩] ∧
    begun [⟨100, .ended (.ok (some handle))⟩, ⟨100, .returned (.ok (some handle))⟩] = [] := by
  let l : PlacedLock := ⟨⟨"L", 30, 10⟩, 0⟩
  let first := ride 30 100 ((hesitant.startWaiting l none (some 0)).1,
    (hesitant.startWaiting l none (some 0)).2, hesitant.seenFirst l none (some 0))
  let raised : Deployment := { first.1 with flags := first.1.flags.set 0 true }
  let handle : Lock.Handle := Lock.handle l.lock ⟨draw 0, 1700000030000⟩
  let last := ride 1000 100 (raised, first.2.1, first.2.2 ++ first.2.1.raised first.1 raised)
  have hnotes : last.2.2 = [⟨0, .began⟩, ⟨30, .cancelled⟩, ⟨100, .ended (.ok (some handle))⟩,
      ⟨100, .returned (.ok (some handle))⟩] := by decide +kernel
  have hfirst : Waits l none (some 0) hesitant first.1 first.2.1 first.2.2 := Waits.start.ride rfl
  have hlast : ride 1000 100 (raised, first.2.1, first.2.2 ++ first.2.1.raised first.1 raised) =
      (last.1, last.2.1, last.2.2) := rfl
  have so := (hfirst.aside (aside_raise _ _ 0)).ride hlast
  obtain ⟨hparts, -, -⟩ := cancellation_heeded so
  exact ⟨_, _, _, handle, so, hnotes, (hparts [⟨0, .began⟩] 30 _ hnotes).1⟩

end Deployment
end Holdfast
