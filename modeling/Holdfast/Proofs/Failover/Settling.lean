import Holdfast.Proofs.Failover.Drive
import Holdfast.Proofs.Failover.Journey

namespace Holdfast.Deployment

open Failover Store

/-- The listeners of a monitor go on, and others beside them. -/
def Proceeds (id n : Nat) (d d' : Deployment) : Prop :=
  ∃ notes, Listens (Aside Alike id n) id d d' notes

variable {d d' d'' : Deployment} {id n : Nat}

theorem Proceeds.refl (d : Deployment) : Proceeds id n d d := ⟨[], .here⟩

theorem Proceeds.trans (h : Proceeds id n d d') (h' : Proceeds id n d' d'') :
    Proceeds id n d d'' := by
  obtain ⟨notes, hrun⟩ := h
  obtain ⟨notes', hrun'⟩ := h'
  exact ⟨_, hrun.trans hrun'⟩

/-- The work of a job does not come between a router and its listeners. -/
theorem Works.proceeds (h : Works d d') : Proceeds id n d d' := by
  refine ⟨[], Listens.here.meanwhile ⟨Nat.le_of_eq h.now.symm, ?_, ?_, ?_, ?_⟩⟩
  · intro s hs
    exact ⟨s, h.sentinel hs, .refl s⟩
  · rw [h.monitors]
  · rw [h.routers]
  · intro r _
    exact h.pools.elsewhere r

/-- Where there is no other monitor, whatever anybody does is a run of its listeners. -/
theorem lasting_proceeds (n : Nat) (d : Deployment) :
    Lasting fun d' => Proceeds 0 n d d' ∧ d'.monitors.length = 1 where
  works := by
    intro d₁ d₂ hworks h
    exact ⟨h.1.trans hworks.proceeds, by rw [hworks.monitors]; exact h.2⟩
  moves := by
    intro d₁ d₂ id index note hmove h
    obtain ⟨m, l, d₃, phase, hm, -, -, -, -, rfl⟩ := moveListener_steps hmove
    have hone : id < 1 := by
      rw [← h.2]
      exact (List.getElem?_eq_some_iff.mp hm).1
    cases Nat.lt_one_iff.mp hone
    exact ⟨h.1.trans ⟨_, Listens.here.move hmove⟩, by simpa using h.2⟩

/-- So is the passage of time, which nobody in front waits for. -/
theorem founded_proceeds (n : Nat) (d : Deployment) :
    Founded (fun d' => Proceeds 0 n d d' ∧ d'.monitors.length = 1) (· = .idle) := by
  refine .of_still (lasting_proceeds n d) ?_ fun _ => rfl
  intro d' now hlater h
  have haside : Aside Alike 0 n d' { d' with now := now } :=
    ⟨Nat.le_of_lt hlater, fun s hs => ⟨s, hs, .refl s⟩, rfl, rfl,
      fun {r} _ => (Pools.Used.refl d'.pools).elsewhere r⟩
  exact ⟨h.1.trans ⟨_, Listens.here.meanwhile haside⟩, h.2⟩

theorem proceeds_settle (hone : d.monitors.length = 1) :
    Proceeds 0 n d d.settle ∧ d.settle.monitors.length = 1 :=
  (lasting_proceeds n d).settleWith stride ⟨.refl d, hone⟩ .idle

theorem proceeds_advance (hone : d.monitors.length = 1) (ms : Nat) :
    Proceeds 0 n d (d.advance ms) ∧ (d.advance ms).monitors.length = 1 := by
  obtain ⟨hrun, hidle⟩ := (founded_proceeds n d).runJob horizon ⟨.refl d, hone⟩ rfl
    (some (d.now + ms))
  unfold advance performFor
  generalize d.runJob horizon .idle (some (d.now + ms)) = out at hrun hidle ⊢
  obtain ⟨d', j⟩ := out
  dsimp only at hrun hidle
  subst hidle
  exact (lasting_proceeds n d).settleWith stride hrun .idle

/-- Whether no listener of a monitor can go on. -/
def isQuiet (d : Deployment) (id : Nat) : Bool :=
  d.monitors[id]?.any fun m => m.listeners.all fun l =>
    (d.stepListener m l).isNone && (d.carryOn m l).isNone

theorem quiet_of_isQuiet (h : d.isQuiet id = true) : Quiet id d := by
  unfold isQuiet at h
  cases hm : d.monitors[id]? with
  | none => simp [hm] at h
  | some m =>
    rw [hm, Option.any_some, List.all_eq_true] at h
    apply moveListener_of_waiting hm
    intro l hl
    simpa using h l hl

/-- What comes of some events, after each of which some milliseconds pass, and the failovers among
them; none if the listeners do not come to rest. -/
def travel : List (Event × Nat) → Deployment → List Switch → Option (Deployment × List Switch)
  | [], d, switches => some (d, switches)
  | (e, ms) :: events, d, switches =>
    match d.directory with
    | .sentinel s =>
      let d' := advance { d with directory := .sentinel (e.apply s) } ms
      if d'.isQuiet 0 then travel events d' (switches ++ (e.switch? (d.isHeeded 0)).toList)
      else none
    | .script _ => none

/-- A journey from the start, where the listeners first come to rest. -/
def tour (events : List (Event × Nat)) (d : Deployment) : Option (Deployment × List Switch) :=
  if d.settle.isQuiet 0 then travel events d.settle [] else none

theorem Journey.of_travel {d₁ d₂ : Deployment} {events : List (Event × Nat)}
    {switches switches' : List Switch} (hbefore : Journey 0 n d d₁ switches)
    (hone : d₁.monitors.length = 1) (h : travel events d₁ switches = some (d₂, switches')) :
    Journey 0 n d d₂ switches' := by
  induction events generalizing d₁ switches with
  | nil =>
    cases h
    exact hbefore
  | cons first events ih =>
    obtain ⟨e, ms⟩ := first
    unfold travel at h
    split at h
    · next s hs =>
      obtain ⟨⟨notes, hrun⟩, halone⟩ := proceeds_advance (n := n)
        (d := { d₁ with directory := .sentinel (e.apply s) }) hone ms
      dsimp only at h
      split at h
      · next hquiet => exact ih (hbefore.event e hs hrun (quiet_of_isQuiet hquiet)) halone h
      · cases h
    · cases h

theorem Journey.of_tour {events : List (Event × Nat)} {switches : List Switch}
    (hone : d.monitors.length = 1) (h : tour events d = some (d', switches)) :
    Journey 0 n d d' switches := by
  obtain ⟨⟨notes, hrun⟩, halone⟩ := proceeds_settle (n := n) hone
  unfold tour at h
  split at h
  · next hquiet => exact .of_travel (.settle hrun (quiet_of_isQuiet hquiet)) halone h
  · cases h

end Holdfast.Deployment
