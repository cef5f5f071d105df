import Holdfast.Proofs.Failover.Drive
import Holdfast.Proofs.Failover.Run

namespace Holdfast.Deployment

open Failover Store

variable {d d' : Deployment} {id index : Nat} {m : Monitor} {l : Listener Stream}

/-- The monitor `id` has been cancelled, at the time `now`. -/
def Stopping (id now : Nat) (d : Deployment) : Prop :=
  d.now = now ∧ ∃ m, d.monitors[id]? = some m ∧ m.isCancelled = true

/-- All listeners of the monitor `id` have terminated, and it is still the time `now`. -/
def Stopped (id now : Nat) (d : Deployment) : Prop :=
  d.now = now ∧ ∃ m, d.monitors[id]? = some m ∧ ∀ l ∈ m.listeners, l.phase = .terminated

/-- Of monitors that are cancelled or have ended, nothing but their own listeners makes anything
else. -/
theorem lasting_of_monitor {P : Monitor → Prop} (now : Nat)
    (hmoves : ∀ {d m l d' deed phase index}, P m → m.listeners[index]? = some l →
      Steps d m l deed d' phase →
      P { m with listeners := m.listeners.set index { l with phase := phase } }) :
    Lasting fun d => d.now = now ∧ ∃ m, d.monitors[id]? = some m ∧ P m where
  works := by
    intro d d' hworks h
    rwa [hworks.now, hworks.monitors]
  moves := by
    intro d d' id' index note hmove h
    obtain ⟨hnow, m, hm, hp⟩ := h
    obtain ⟨m', l, d₁, phase, hm', hl, -, -, hsteps, rfl⟩ := moveListener_steps hmove
    refine ⟨hsteps.now.trans hnow, ?_⟩
    by_cases hid : id' = id
    · subst hid
      rw [hm] at hm'
      cases hm'
      have hlt : id' < d.monitors.length := (List.getElem?_eq_some_iff.mp hm).1
      exact ⟨_, List.getElem?_set_self hlt, hmoves hp hl hsteps⟩
    · exact ⟨m, by rwa [List.getElem?_set_ne hid], hp⟩

theorem lasting_stopping (id now : Nat) : Lasting (Stopping id now) :=
  lasting_of_monitor now fun hcancelled _ _ => hcancelled

theorem lasting_stopped (id now : Nat) : Lasting (Stopped id now) :=
  lasting_of_monitor now fun hended hl hsteps =>
    absurd (hended _ (List.mem_of_getElem? hl)) hsteps.goes

theorem moveListener_over (hm : d.monitors[id]? = some m) (hl : m.listeners[index]? = some l)
    (hover : l.phase = .terminated) : d.moveListener id index true = none := by
  have hstep : d.nextStep true m l = none := by
    simp [nextStep, stepListener, Listener.isWaiting, carryOn, hover]
  simp [moveListener, hm, hl, hstep]

/-- A listener that waits somewhere when it is cancelled terminates at once. -/
theorem moveListener_stop (hm : d.monitors[id]? = some m) (hcancelled : m.isCancelled = true)
    (hl : m.listeners[index]? = some l) (hwaits : l.isWaiting = true) :
    ∃ note d', d.moveListener id index true = some (note, d') ∧ d'.monitors[id]? =
      some { m with listeners := m.listeners.set index { l with phase := .terminated } } := by
  have hstep : d.nextStep true m l = some (d.hangUp l, { l with phase := .terminated }) := by
    simp [nextStep, stepListener, hcancelled, hwaits]
  refine ⟨_, _, by simp [moveListener, hm, hl, hstep]; exact ⟨rfl, rfl⟩, ?_⟩
  rw [hangUp_directory]
  exact List.getElem?_set_self (List.getElem?_eq_some_iff.mp hm).1

theorem driveListener_over (fuel : Nat) (hm : d.monitors[id]? = some m)
    (hl : m.listeners[index]? = some l) (hover : l.phase = .terminated) :
    (d.driveListener (fuel + 1) id index).2.monitors[id]? = some m := by
  rw [driveListener_succ, moveListener_over hm hl hover]
  exact hm

theorem driveListener_stop (fuel : Nat) (hm : d.monitors[id]? = some m)
    (hcancelled : m.isCancelled = true) (hl : m.listeners[index]? = some l)
    (hwaits : l.isWaiting = true) : (d.driveListener (fuel + 2) id index).2.monitors[id]? =
      some { m with listeners := m.listeners.set index { l with phase := .terminated } } := by
  obtain ⟨note, d', hmove, hm'⟩ := moveListener_stop hm hcancelled hl hwaits
  have hset := List.getElem?_set_self (a := { l with phase := .terminated })
    (List.getElem?_eq_some_iff.mp hl).1
  rw [driveListener_succ, hmove]
  exact driveListener_over fuel hm' hset rfl

/-- A cancelled listener terminates when it is its turn. One that has not begun yet takes note of it
after it has begun. -/
theorem driveListener_ends (fuel : Nat) (hm : d.monitors[id]? = some m)
    (hcancelled : m.isCancelled = true) (hl : m.listeners[index]? = some l) :
    (d.driveListener (fuel + 3) id index).2.monitors[id]? =
      some { m with listeners := m.listeners.set index { l with phase := .terminated } } := by
  cases hphase : l.phase with
  | terminated =>
    have hsame : ({ l with phase := .terminated } : Listener Stream) = l := by rw [← hphase]
    rw [driveListener_over _ hm hl hphase, hsame]
    obtain ⟨hlt, rfl⟩ := List.getElem?_eq_some_iff.mp hl
    rw [List.set_getElem_self]
  | starting =>
    have hstep : d.nextStep true m l = some (d, { l with phase := .subscribing }) := by
      simp [nextStep, stepListener, Listener.isWaiting, carryOn, hphase]
    have hmonitor := List.getElem?_set_self (a := { m with
      listeners := m.listeners.set index { l with phase := .subscribing } })
      (List.getElem?_eq_some_iff.mp hm).1
    have hset := List.getElem?_set_self (a := { l with phase := .subscribing })
      (List.getElem?_eq_some_iff.mp hl).1
    have hwaits : ({ l with phase := .subscribing } : Listener Stream).isWaiting = true := rfl
    rw [driveListener_succ]
    simp only [moveListener, hm, hl, hstep, Option.bind_eq_bind, Option.bind_some, Option.pure_def]
    rw [driveListener_stop fuel (m := { m with
      listeners := m.listeners.set index { l with phase := .subscribing } }) hmonitor hcancelled
      hset hwaits, List.set_set]
  | subscribing | asking _ _ | listening _ | pausing _ =>
    exact driveListener_stop _ hm hcancelled hl (by rw [Listener.isWaiting, hphase])

/-- When all its listeners have had their turn, a cancelled monitor has ended. -/
theorem driveMonitor_ends {now : Nat} (h : Stopping id now d) :
    Stopped id now (d.driveMonitor id).2 := by
  obtain ⟨hnow, m, hm, hcancelled⟩ := h
  have hdriven : ∀ count ≤ m.listeners.length, ∃ m',
      ((List.range count).foldl (fun d index => (d.driveListener stride id index).2) d).monitors[id]?
        = some m' ∧ m'.isCancelled = true ∧ m'.listeners.length = m.listeners.length ∧
      ∀ {i l}, i < count → m'.listeners[i]? = some l → l.phase = .terminated := by
    intro count
    induction count with
    | zero => exact fun _ => ⟨m, hm, hcancelled, rfl, fun h => absurd h (Nat.not_lt_zero _)⟩
    | succ count ih =>
      intro hle
      obtain ⟨m', hm', hcancelled', hlen, hover⟩ := ih (by omega)
      have hl : m'.listeners[count]? = some m'.listeners[count] :=
        List.getElem?_eq_getElem (by omega)
      rw [List.range_succ, List.foldl_append, List.foldl_cons, List.foldl_nil]
      refine ⟨_, driveListener_ends (stride - 3) hm' hcancelled' hl, hcancelled', ?_, ?_⟩
      · simpa using hlen
      · intro i l hi hil
        by_cases he : i = count
        · subst he
          rw [List.getElem?_set_self (by omega)] at hil
          cases hil
          rfl
        · rw [List.getElem?_set_ne (Ne.symm he)] at hil
          exact hover (by omega) hil
  have hlast : (d.driveMonitor id).2.now = now :=
    ((lasting_stopping id now).driveMonitor ⟨hnow, m, hm, hcancelled⟩).1
  obtain ⟨m', hm', -, hlen, hover⟩ := hdriven _ (Nat.le_refl _)
  refine ⟨hlast, m', ?_, ?_⟩
  · rw [driveMonitor_deployment, hm]
    exact hm'
  · intro l hl
    obtain ⟨i, hi⟩ := List.getElem?_of_mem hl
    have hlt := (List.getElem?_eq_some_iff.mp hi).1
    exact hover (by omega) hi

theorem turn_ends {now : Nat} (h : Stopping id now d) (j : Job) :
    Stopped id now (d.turn j).2.1 := by
  have hfold : ∀ (ids : List Nat) {d : Deployment}, Stopping id now d → id ∈ ids →
      Stopped id now (ids.foldl (fun d id => (d.driveMonitor id).2) d) := by
    intro ids
    induction ids with
    | nil => exact fun _ hmem => absurd hmem List.not_mem_nil
    | cons first ids ih =>
      intro d hd hmem
      by_cases hfirst : first = id
      · subst hfirst
        rw [List.foldl_cons]
        exact List.foldlRecOn _ _ (driveMonitor_ends hd)
          fun _ hd _ _ => (lasting_stopped _ now).driveMonitor hd
      · have hrest : id ∈ ids := by
          rcases List.mem_cons.mp hmem with he | hmem
          · exact absurd he.symm hfirst
          · exact hmem
        exact ih ((lasting_stopping id now).driveMonitor hd) hrest
  rw [turn_deployment]
  have hworked : Stopping id now (d.driveJob stride j).2.1 :=
    (lasting_stopping id now).works (spans_works.driveJob stride d j) h
  have htasks : Stopping id now (((d.driveJob stride j).2.1.tasks.map Prod.fst).foldl
      (fun d id => (d.driveTask id).2) (d.driveJob stride j).2.1) :=
    List.foldlRecOn _ _ hworked
      fun d hd task _ => (lasting_stopping id now).works (spans_works.driveTask d task) hd
  apply hfold _ htasks
  obtain ⟨-, m, hm, -⟩ := htasks
  exact List.mem_range.mpr (List.getElem?_eq_some_iff.mp hm).1

/-- As soon as everybody waits, a cancelled monitor has ended. -/
theorem settleWith_ends {now : Nat} (h : Stopping id now d) (fuel : Nat) (j : Job) :
    Stopped id now (d.settleWith (fuel + 1) j).1 := by
  have hturn := turn_ends h j
  unfold settleWith
  split
  · next hmoved =>
    rw [hmoved] at hturn
    exact (lasting_stopped id now).settleWith fuel hturn _
  · next hstill =>
    rw [hstill] at hturn
    exact hturn

theorem shutdownMonitor_eq (hm : d.monitors[id]? = some m) : d.shutdownMonitor id =
    ((d.cancelMonitor id).settleWith stride (.farewell id)).1 := by
  have hcancelled : Stopping id d.now (d.cancelMonitor id) :=
    ⟨rfl, { m with isCancelled := true }, by simp [cancelMonitor, hm], rfl⟩
  have hfounded : Founded (fun _ => True) (· = .farewell id) :=
    .of_still ⟨fun _ h => h, fun _ h => h⟩ (fun _ h => h) fun _ => rfl
  obtain ⟨-, hjob⟩ := hfounded.settleWith stride (d := d.cancelMonitor id) trivial rfl
  have hover : ((d.cancelMonitor id).settleWith stride (.farewell id)).1.isOver (.farewell id) =
      true := by
    obtain ⟨-, m', hm', hended⟩ := settleWith_ends hcancelled (stride - 1) (.farewell id)
    have hm'' : ((d.cancelMonitor id).settleWith stride (.farewell id)).1.monitors[id]? = some m' :=
      hm'
    simp only [isOver, hm'', Option.map_some, Option.getD_some, Monitor.hasEnded, List.all_eq_true,
      decide_eq_true_eq]
    intro l hl
    rw [Listener.state, hended l hl]
  unfold shutdownMonitor perform
  rw [show horizon = (horizon - 1) + 1 from rfl, runJob]
  dsimp only
  rw [hjob, hover]
  rfl

/-- A shutdown of a monitor comes back at once, whatever its listeners wait for, and all of them have
terminated then. -/
theorem shutdownMonitor_stops (hm : d.monitors[id]? = some m) :
    (d.shutdownMonitor id).now = d.now ∧ ∃ m', (d.shutdownMonitor id).monitors[id]? = some m' ∧
      m'.listeners.map (·.peer) = m.listeners.map (·.peer) ∧
      ∀ l ∈ m'.listeners, l.phase = .terminated := by
  have hcancelled : (d.cancelMonitor id).monitors[id]? = some { m with isCancelled := true } := by
    simp [cancelMonitor, hm]
  have hpeers : Lasting fun d' => d'.now = d.now ∧ ∃ m', d'.monitors[id]? = some m' ∧
      m'.listeners.map (·.peer) = m.listeners.map (·.peer) :=
    lasting_of_monitor d.now fun hp hl _ => ((Monitor.later_set hl _).peers).trans hp
  rw [shutdownMonitor_eq hm]
  obtain ⟨hnow, m', hm', hended⟩ :=
    settleWith_ends ⟨rfl, _, hcancelled, rfl⟩ (stride - 1) (.farewell id)
  obtain ⟨-, m'', hm'', hsame⟩ := hpeers.settleWith stride (d := d.cancelMonitor id)
    ⟨rfl, _, hcancelled, rfl⟩ (.farewell id)
  cases hm'.symm.trans hm''
  exact ⟨hnow, m', hm', hsame, hended⟩

/-- From listeners that have terminated nothing is heard any more, whatever else happens. -/
theorem Listens.silent {meanwhile : Deployment → Deployment → Prop} {notes : List Note}
    (h : Listens meanwhile id d d' notes) (hkeeps : Keeps id meanwhile)
    (hm : d.monitors[id]? = some m) (hended : ∀ l ∈ m.listeners, l.phase = .terminated) :
    notes = [] ∧ ∃ m', d'.monitors[id]? = some m' ∧ m'.listeners = m.listeners := by
  induction h with
  | here => exact ⟨rfl, m, hm, rfl⟩
  | move _ hmove ih =>
    obtain ⟨-, m', hm', hsame⟩ := ih
    obtain ⟨m₁, l, d₁, phase, hm₁, hl, -, -, hsteps, -⟩ := moveListener_steps hmove
    cases hm'.symm.trans hm₁
    rw [hsame] at hl
    exact absurd (hended l (List.mem_of_getElem? hl)) hsteps.goes
  | meanwhile _ hmean ih =>
    obtain ⟨hnone, m', hm', hsame⟩ := ih
    obtain ⟨isCancelled, hm''⟩ := hkeeps hmean hm'
    exact ⟨hnone, _, hm'', hsame⟩

end Holdfast.Deployment
