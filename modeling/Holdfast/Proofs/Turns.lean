import Holdfast.Proofs.Failover.Drive
import Holdfast.Proofs.Works

namespace Holdfast.Deployment

open Failover Store

variable {d d' : Deployment}

/-- What anybody's work comes to while the clock stands still, for those who only go by flags,
owners and the time. -/
structure Beside (d d' : Deployment) : Prop where
  now : d'.now = d.now
  onward : Onward d d'

namespace Beside

theorem refl (d : Deployment) : Beside d d := ⟨rfl, .refl d⟩

theorem trans {d₁ d₂ d₃ : Deployment} (h : Beside d₁ d₂) (h' : Beside d₂ d₃) : Beside d₁ d₃ :=
  ⟨h'.now.trans h.now, h.onward.trans h'.onward⟩

/-- Whatever several do one after the other is beside, where what each of them does is. -/
theorem foldl {α : Type} {f : Deployment → α → Deployment} (hf : ∀ d a, Beside d (f d a))
    (as : List α) (d : Deployment) : Beside d (as.foldl f d) :=
  List.foldlRecOn as f (.refl d) fun d' h a _ => h.trans (hf d' a)

end Beside

theorem spans_beside : Spans Beside where
  refl := .refl
  trans := .trans
  stores _ _ := ⟨rfl, .of_same rfl rfl⟩
  owner _ := ⟨rfl, spans_onward.owner _⟩
  pools _ := ⟨rfl, .of_same rfl rfl⟩
  tasks _ _ := ⟨rfl, .of_same rfl rfl⟩

theorem moveListener_beside {id index : Nat} {heeds : Bool} {note : Note}
    (h : d.moveListener id index heeds = some (note, d')) : Beside d d' := by
  obtain ⟨m, l, d₁, phase, -, -, -, -, hsteps, rfl⟩ := moveListener_steps h
  refine ⟨hsteps.now, ?_⟩
  have hsame : d₁.flags = d.flags ∧ d₁.nextOwner = d.nextOwner := by
    rw [hsteps.deployment]
    cases note.deed.payload? with
    | none => exact ⟨rfl, rfl⟩
    | some payload =>
      dsimp only
      rw [applySwitch_pools]
      exact ⟨rfl, rfl⟩
  exact .of_same hsame.1 hsame.2

theorem driveListener_beside (fuel : Nat) (d : Deployment) (id index : Nat) :
    Beside d (d.driveListener fuel id index).2 := by
  induction fuel generalizing d with
  | zero => exact .refl d
  | succ fuel ih =>
    rw [driveListener_succ]
    split
    · exact .refl d
    · next hmove => exact (moveListener_beside hmove).trans (ih _)

theorem driveMonitor_beside (d : Deployment) (id : Nat) : Beside d (d.driveMonitor id).2 := by
  rw [driveMonitor_deployment]
  exact .foldl (fun d index => driveListener_beside stride d id index) _ d

theorem turn_beside (d : Deployment) (j : Job) :
    Beside (d.driveJob stride j).2.1 (d.turn j).2.1 := by
  rw [turn_deployment]
  exact (Beside.foldl spans_beside.driveTask _ _).trans (.foldl driveMonitor_beside _ _)

/-- What holds of a job in front and its deployment, whatever it does itself and others beside it.
-/
structure Carried (R : Deployment → Job → Prop) : Prop where
  step : ∀ {d d' j j'}, R d j → d.stepJob j = some (d', j') → R d' j'
  beside : ∀ {d d' j}, R d j → Beside d d' → R d' j

namespace Carried

variable {R : Deployment → Job → Prop} {j : Job}

theorem turn (h : Carried R) (hr : R d j) : R (d.turn j).2.1 (d.turn j).2.2 :=
  h.beside (keep_driveJob h.step stride hr) (turn_beside d j)

theorem settleWith (h : Carried R) (fuel : Nat) (hr : R d j) :
    R (d.settleWith fuel j).1 (d.settleWith fuel j).2 :=
  keep_settleWith (R := R) h.turn fuel hr

/-- Where it holds later as well, it holds of whatever the job comes to. -/
theorem runJob (h : Carried R) (hclock : ∀ {d j now}, R d j → d.now < now → R { d with now } j)
    (fuel : Nat) (hr : R d j) (limit : Option Nat) :
    R (d.runJob fuel j limit).1 (d.runJob fuel j limit).2 :=
  keep_runJob (R := R) h.turn hclock fuel hr limit

end Carried

/-- Whether some turns are enough for everybody to come to rest. -/
def rests : Nat → Deployment → Job → Bool
  | 0, _, _ => false
  | fuel + 1, d, j => !(d.turn j).1 || rests fuel (d.turn j).2.1 (d.turn j).2.2

/-- Whether everybody comes to rest each time before the clock moves on. -/
def alwaysRests (limit : Option Nat) : Nat → Deployment → Job → Bool
  | 0, _, _ => true
  | fuel + 1, d, j =>
    rests stride d j &&
      let (d, j) := d.settleWith stride j
      (d.isOver j || limit.any (· ≤ d.now)) ||
        (d.nextMoment? j limit).all fun now => alwaysRests limit fuel { d with now } j

theorem moved_of_foldl (f : Deployment → Nat → Bool × Deployment) (ids : List Nat)
    (s : Bool × Deployment) (hs : s.1 = true) : (ids.foldl (fun (moved, d) id =>
      let (more, d) := f d id
      (moved || more, d)) s).1 = true := by
  induction ids generalizing s with
  | nil => exact hs
  | cons id ids ih => exact ih _ (by simp [hs])

theorem driveJob_of_idle {j : Job} (fuel : Nat) (h : d.stepJob j = none) :
    d.driveJob fuel j = (false, d, j) := by
  cases fuel with
  | zero => rfl
  | succ fuel => simp [driveJob, h]

/-- In a turn in which nobody moves, the job in front has nothing to do. -/
theorem idle_of_still {j : Job} (h : (d.turn j).1 = false) : d.stepJob j = none := by
  cases hstep : d.stepJob j with
  | none => rfl
  | some next =>
    have hmoved : (d.driveJob stride j).1 = true := by
      rw [show stride = 9999 + 1 from rfl, driveJob, hstep]
    have htasks := moved_of_foldl driveTask ((d.driveJob stride j).2.1.tasks.map Prod.fst)
      ((d.driveJob stride j).1, (d.driveJob stride j).2.1) hmoved
    have htold : (d.turn j).1 = true := moved_of_foldl driveMonitor _ _ htasks
    rw [h] at htold
    cases htold

/-- Whoever comes to rest has had nothing to do in the last turn, in which others went on. -/
theorem Carried.rested {R : Deployment → Job → Prop} {j : Job} (h : Carried R) {fuel : Nat}
    (hr : R d j) (hrests : rests fuel d j = true) :
    ∃ d₁, R d₁ (d.settleWith fuel j).2 ∧ d₁.stepJob (d.settleWith fuel j).2 = none ∧
      Beside d₁ (d.settleWith fuel j).1 := by
  induction fuel generalizing d j with
  | zero => cases hrests
  | succ fuel ih =>
    have hturn := h.turn hr
    unfold rests at hrests
    unfold Deployment.settleWith
    split
    · next hmoved =>
      rw [hmoved] at hturn hrests
      exact ih hturn hrests
    · next hstill =>
      have hidle : d.stepJob j = none := idle_of_still (by rw [hstill])
      have hbeside := turn_beside d j
      have hsame : (d.turn j).2.2 = j := by
        change (d.driveJob stride j).2.2 = j
        rw [driveJob_of_idle stride hidle]
      rw [driveJob_of_idle stride hidle, hstill] at hbeside
      rw [hstill] at hsame
      dsimp only at hbeside hsame ⊢
      subst hsame
      exact ⟨d, hr, hidle, hbeside⟩

/-- The clock never moves past the limit, nor past a time at which anybody goes on. -/
theorem le_of_nextMoment? {j : Job} {now due : Nat} {bound : Option Nat}
    (h : d.nextMoment? j bound = some now) (hdue : due ∈ bound.toList ++ d.dues j)
    (hlt : d.now < due) : now ≤ due := by
  have hmem : due ∈ (bound.toList ++ d.dues j).filter (d.now < ·) := by simpa [hlt] using hdue
  exact (List.min?_eq_some_iff.mp h).2 due hmem

/-- Where everybody comes to rest before the clock moves, it moves for a job that had nothing to do
when the others went on. -/
theorem Carried.runJob_of_rests {R : Deployment → Job → Prop} (h : Carried R)
    (hclock : ∀ {d d' j bound now}, R d j → d.stepJob j = none → Beside d d' →
      d'.nextMoment? j bound = some now → R { d' with now } j)
    {fuel : Nat} {j : Job} {bound : Option Nat} (hr : R d j)
    (hrests : alwaysRests bound fuel d j = true) :
    R (d.runJob fuel j bound).1 (d.runJob fuel j bound).2 := by
  induction fuel generalizing d j with
  | zero => exact hr
  | succ fuel ih =>
    unfold alwaysRests at hrests
    obtain ⟨hrests, hlater⟩ := Bool.and_eq_true_iff.mp hrests
    have hsettled := h.settleWith stride hr
    obtain ⟨d₁, hbefore, hidle, hbeside⟩ := h.rested hr hrests
    unfold Deployment.runJob
    generalize d.settleWith stride j = out at *
    obtain ⟨d₂, j₂⟩ := out
    dsimp only at *
    split
    · exact hsettled
    · next hgoes =>
      split
      · exact hsettled
      · next now hnext =>
        refine ih (hclock hbefore hidle hbeside hnext) ?_
        simpa [hgoes, hnext] using hlater

end Holdfast.Deployment
