import Holdfast.Client
import Holdfast.Proofs.Failover.Step
import Holdfast.Proofs.Works

namespace Holdfast.Deployment

open Failover Store

variable {d d' : Deployment} {id index : Nat} {m : Monitor} {l : Listener Stream}

/-- To drive a listener is to move it until it waits. -/
theorem driveListener_succ (fuel : Nat) (d : Deployment) (id index : Nat) :
    d.driveListener (fuel + 1) id index = match d.moveListener id index true with
      | none => (false, d)
      | some (_, d') => (true, (d'.driveListener fuel id index).2) := by
  rw [driveListener]
  unfold moveListener
  cases hm : d.monitors[id]? with
  | none => rfl
  | some m =>
    cases hl : m.listeners[index]? with
    | none => simp [hl]
    | some l => cases hstep : d.stepListener m l <;> simp [hl, nextStep, hstep]

/-- Turns that tell whether anybody moved, without what they tell. -/
theorem foldl_moved (f : Deployment → Nat → Bool × Deployment) (ids : List Nat) (b : Bool)
    (d : Deployment) : (ids.foldl (fun (moved, d) id =>
      let (more, d) := f d id
      (moved || more, d)) (b, d)).2 = ids.foldl (fun d id => (f d id).2) d := by
  induction ids generalizing b d with
  | nil => rfl
  | cons id ids ih => exact ih _ _

theorem driveMonitor_deployment (d : Deployment) (id : Nat) : (d.driveMonitor id).2 =
    (List.range ((d.monitors[id]?.map fun m => m.listeners.length).getD 0)).foldl
      (fun d index => (d.driveListener stride id index).2) d :=
  foldl_moved (fun d index => d.driveListener stride id index) _ false d

/-- What a turn comes to: the job in front, those in the background, then the listeners. -/
theorem turn_deployment (d : Deployment) (j : Job) : (d.turn j).2.1 =
    let d := (d.driveJob stride j).2.1
    let d := (d.tasks.map Prod.fst).foldl (fun d id => (d.driveTask id).2) d
    (List.range d.monitors.length).foldl (fun d id => (d.driveMonitor id).2) d := by
  have htasks := foldl_moved driveTask ((d.driveJob stride j).2.1.tasks.map Prod.fst)
    (d.driveJob stride j).1 (d.driveJob stride j).2.1
  unfold turn
  dsimp only
  rw [foldl_moved driveMonitor, htasks]

/-- What neither a job nor a listener undoes. -/
structure Lasting (P : Deployment → Prop) : Prop where
  works : ∀ {d d'}, Works d d' → P d → P d'
  moves : ∀ {d d' id index note}, d.moveListener id index true = some (note, d') → P d → P d'

namespace Lasting

variable {P : Deployment → Prop}

theorem driveListener (h : Lasting P) (fuel : Nat) (hd : P d) :
    P (d.driveListener fuel id index).2 := by
  induction fuel generalizing d with
  | zero => exact hd
  | succ fuel ih =>
    rw [driveListener_succ]
    split
    · exact hd
    · next hmove => exact ih (h.moves hmove hd)

theorem driveMonitor (h : Lasting P) (hd : P d) : P (d.driveMonitor id).2 := by
  rw [driveMonitor_deployment]
  exact List.foldlRecOn _ _ hd fun _ hd _ _ => h.driveListener stride hd

end Lasting

/-- The clock only ever moves on. -/
theorem lt_of_nextMoment? {j : Job} {limit : Option Nat} {now : Nat}
    (h : d.nextMoment? j limit = some now) : d.now < now := by
  have hmem := List.min?_mem h
  simpa using (List.mem_filter.mp hmem).2

section Keeping

variable {R : Deployment → Job → Prop} {j : Job}

/-- What each step of a job keeps, it keeps when it goes on until it waits. -/
theorem keep_driveJob (hstep : ∀ {d d' j j'}, R d j → d.stepJob j = some (d', j') → R d' j')
    (fuel : Nat) (hr : R d j) : R (d.driveJob fuel j).2.1 (d.driveJob fuel j).2.2 := by
  induction fuel generalizing d j with
  | zero => exact hr
  | succ fuel ih =>
    unfold driveJob
    split
    · exact hr
    · next h => exact ih (hstep hr h)

/-- What each turn keeps is kept until everybody waits. -/
theorem keep_settleWith (hturn : ∀ {d j}, R d j → R (d.turn j).2.1 (d.turn j).2.2) (fuel : Nat)
    (hr : R d j) : R (d.settleWith fuel j).1 (d.settleWith fuel j).2 := by
  induction fuel generalizing d j with
  | zero => exact hr
  | succ fuel ih =>
    have hnext := hturn hr
    unfold settleWith
    split
    · next hmoved =>
      rw [hmoved] at hnext
      exact ih hnext
    · next hstill =>
      rw [hstill] at hnext
      exact hnext

/-- What is kept until everybody waits and by the clock holds of whatever a job comes to. -/
theorem keep_runJob (hturn : ∀ {d j}, R d j → R (d.turn j).2.1 (d.turn j).2.2)
    (hclock : ∀ {d j now}, R d j → d.now < now → R { d with now := now } j) (fuel : Nat)
    (hr : R d j) (limit : Option Nat) :
    R (d.runJob fuel j limit).1 (d.runJob fuel j limit).2 := by
  induction fuel generalizing d j with
  | zero => exact hr
  | succ fuel ih =>
    have hsettled := keep_settleWith hturn stride hr
    unfold runJob
    dsimp only
    split
    · exact hsettled
    · split
      · exact hsettled
      · next now hnext => exact ih (hclock hsettled (lt_of_nextMoment? hnext))

end Keeping

/-- What holds of a job in front and its deployment, whatever the job does, others work at and
listeners do. -/
structure Driven (R : Deployment → Job → Prop) : Prop where
  step : ∀ {d d' j j'}, R d j → d.stepJob j = some (d', j') → R d' j'
  works : ∀ {d d' j}, R d j → Works d d' → R d' j
  moves : ∀ {d d' j id index note}, R d j → d.moveListener id index true = some (note, d') → R d' j

namespace Driven

variable {R : Deployment → Job → Prop} {j : Job}

theorem lasting (h : Driven R) (j : Job) : Lasting fun d => R d j where
  works hworks hr := h.works hr hworks
  moves hmove hr := h.moves hr hmove

theorem turn (h : Driven R) (hr : R d j) : R (d.turn j).2.1 (d.turn j).2.2 := by
  have hjob : R (d.driveJob stride j).2.1 (d.turn j).2.2 := keep_driveJob h.step stride hr
  rw [turn_deployment]
  generalize (d.turn j).2.2 = j' at hjob
  refine List.foldlRecOn (motive := fun d => R d j') _ _ ?_
    fun _ hd _ _ => (h.lasting j').driveMonitor hd
  exact List.foldlRecOn (motive := fun d => R d j') _ _ hjob
    fun d hd id _ => h.works hd (spans_works.driveTask d id)

theorem settleWith (h : Driven R) (fuel : Nat) (hr : R d j) :
    R (d.settleWith fuel j).1 (d.settleWith fuel j).2 :=
  keep_settleWith (R := R) h.turn fuel hr

theorem runJob (h : Driven R)
    (hclock : ∀ {d j now}, R d j → d.now < now → R { d with now := now } j) (fuel : Nat)
    (hr : R d j) (limit : Option Nat) :
    R (d.runJob fuel j limit).1 (d.runJob fuel j limit).2 :=
  keep_runJob (R := R) h.turn hclock fuel hr limit

end Driven

namespace Lasting

variable {P : Deployment → Prop}

theorem driven (h : Lasting P) : Driven fun d _ => P d where
  step hd hstep := h.works (spans_works.stepJob hstep) hd
  works hd hworks := h.works hworks hd
  moves hd hmove := h.moves hmove hd

theorem turn (h : Lasting P) (hd : P d) (j : Job) : P (d.turn j).2.1 := h.driven.turn (j := j) hd

theorem settleWith (h : Lasting P) (fuel : Nat) (hd : P d) (j : Job) :
    P (d.settleWith fuel j).1 := h.driven.settleWith (j := j) fuel hd

end Lasting

/-- What holds of a job in front on the strength of something lasting, which the clock does not undo
either. -/
structure Founded (P : Deployment → Prop) (Q : Job → Prop) : Prop where
  lasting : Lasting P
  clock : ∀ {d now}, d.now < now → P d → P { d with now := now }
  step : ∀ {d d' j j'}, P d → Q j → d.stepJob j = some (d', j') → Q j'

namespace Founded

variable {P : Deployment → Prop} {Q : Job → Prop} {j : Job}

/-- A job that takes no steps of its own stays what it is. -/
theorem of_still (hlasting : Lasting P)
    (hclock : ∀ {d now}, d.now < now → P d → P { d with now := now })
    (hstill : ∀ d, stepJob d j = none) : Founded P (· = j) where
  lasting := hlasting
  clock := hclock
  step := by
    intro d d' j' j'' _ hj hstep
    subst hj
    rw [hstill] at hstep
    cases hstep

theorem driven (h : Founded P Q) : Driven fun d j => P d ∧ Q j where
  step hr hstep := ⟨h.lasting.works (spans_works.stepJob hstep) hr.1, h.step hr.1 hr.2 hstep⟩
  works hr hworks := ⟨h.lasting.works hworks hr.1, hr.2⟩
  moves hr hmove := ⟨h.lasting.moves hmove hr.1, hr.2⟩

theorem settleWith (h : Founded P Q) (fuel : Nat) (hd : P d) (hj : Q j) :
    P (d.settleWith fuel j).1 ∧ Q (d.settleWith fuel j).2 := h.driven.settleWith fuel ⟨hd, hj⟩

theorem runJob (h : Founded P Q) (fuel : Nat) (hd : P d) (hj : Q j) (limit : Option Nat) :
    P (d.runJob fuel j limit).1 ∧ Q (d.runJob fuel j limit).2 :=
  h.driven.runJob (fun hr hlt => ⟨h.clock hlt hr.1, hr.2⟩) fuel ⟨hd, hj⟩ limit

end Founded

end Holdfast.Deployment
