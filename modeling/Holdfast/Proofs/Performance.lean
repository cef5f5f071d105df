import Holdfast.Proofs.Acquisition.Errand
import Holdfast.Proofs.Turns
import Holdfast.Proofs.Waiting.Run

namespace Holdfast.Deployment

variable {l : PlacedLock} {limit flag : Option Nat} {d₀ d d' : Deployment} {j : Job}

/-- An attempt under way in front. -/
def Trying (l : PlacedLock) (d₀ d : Deployment) (j : Job) : Prop :=
  ∃ e began xs, j = .errand e ∧ Attempts l d₀ d e began xs

theorem carried_trying (l : PlacedLock) (d₀ : Deployment) : Carried (Trying l d₀) where
  step := by
    rintro d d' _ j' ⟨e, began, xs, rfl, so⟩ hstep
    obtain ⟨⟨d₁, e₁⟩, herrand, h⟩ := Option.map_eq_some_iff.mp hstep
    cases h
    exact ⟨e₁, _, _, rfl, so.step herrand⟩
  beside := by
    rintro d d' j ⟨e, began, xs, hj, so⟩ hbeside
    exact ⟨e, began, xs, hj, so.beside hbeside.onward.owners⟩

/-- An attempt that is performed takes its turns one after the other, whoever works beside it. -/
theorem perform_attempts (l : PlacedLock) (d : Deployment) : ∃ d' e began xs,
    (d.startAttempt l).1.perform (.errand (d.startAttempt l).2) = (d', .errand e) ∧
    Attempts l d d' e began xs := by
  have hcarried := (carried_trying l d).runJob
    (fun ⟨e, began, xs, hj, so⟩ _ => ⟨e, began, xs, hj, so.beside (Nat.le_refl _)⟩) horizon
    ⟨_, _, _, rfl, .start⟩ none
  obtain ⟨e, began, xs, hj, so⟩ := hcarried
  exact ⟨_, e, began, xs, Prod.ext rfl hj, so⟩

/-- A wait under way in front. -/
def Abiding (l : PlacedLock) (limit flag : Option Nat) (d₀ d : Deployment) (j : Job) : Prop :=
  ∃ w ns, j = .wait w ∧ Waits l limit flag d₀ d w ns

/-- What leaves the flags alone is no news for a caller. -/
theorem Waits.still {w : Waiting} {ns : List Waiting.Note} (so : Waits l limit flag d₀ d w ns)
    (hflags : d'.flags = d.flags) (haside : w.Aside d d') : Waits l limit flag d₀ d' w ns := by
  have h := so.aside haside
  rw [raised_eq_nil hflags, List.append_nil] at h
  exact h

theorem Beside.aside (h : Beside d d') (w : Waiting) : w.Aside d d' where
  now := Nat.le_of_eq h.now.symm
  waits hlt := absurd h.now (Nat.ne_of_gt hlt)
  pause _ _ hlt := absurd h.now (Nat.ne_of_gt hlt)
  flag hraised := (Waiting.isRaised_congr h.onward.flags w.flag).trans hraised

theorem carried_abiding (l : PlacedLock) (limit flag : Option Nat) (d₀ : Deployment) :
    Carried (Abiding l limit flag d₀) where
  step := by
    rintro d d' _ j' ⟨w, ns, rfl, so⟩ hstep
    obtain ⟨⟨d₁, w₁⟩, hwait, h⟩ := Option.map_eq_some_iff.mp hstep
    cases h
    exact ⟨w₁, _, rfl, so.step hwait⟩
  beside := by
    rintro d d' j ⟨w, ns, hj, so⟩ hbeside
    exact ⟨w, ns, hj, so.still hbeside.onward.flags (hbeside.aside w)⟩

/-- Time passes for a caller that had nothing to do when the others went on. -/
theorem aside_nextMoment {w : Waiting} {now : Nat} {bound : Option Nat}
    (hidle : d.stepWaiting w = none) (hbeside : Beside d d')
    (h : d'.nextMoment? (.wait w) bound = some now) : w.Aside d { d' with now } where
  now := Nat.le_trans (Nat.le_of_eq hbeside.now.symm) (Nat.le_of_lt (lt_of_nextMoment? h))
  waits _ := hidle
  pause := by
    intro due hphase _
    obtain ⟨r, hover⟩ | ⟨due', hpause, -, hlt⟩ | ⟨e, htry, -⟩ := Waiting.idle_cases hidle
    · rw [hover] at hphase
      cases hphase
    · obtain rfl : due' = due := by
        rw [hpause] at hphase
        cases hphase
        rfl
      have hdue : w.due? = some due' := by rw [Waiting.due?, hpause]
      exact le_of_nextMoment? h (by simp [dues, Job.due?, hdue]) (hbeside.now ▸ hlt)
    · rw [htry] at hphase
      cases hphase
  flag hraised := (Waiting.isRaised_congr hbeside.onward.flags w.flag).trans hraised

theorem Abiding.runJob {fuel : Nat} {bound : Option Nat} (h : Abiding l limit flag d₀ d j)
    (hrests : alwaysRests bound fuel d j = true) :
    Abiding l limit flag d₀ (d.runJob fuel j bound).1 (d.runJob fuel j bound).2 := by
  refine (carried_abiding l limit flag d₀).runJob_of_rests ?_ h hrests
  rintro d d' _ bound now ⟨w, ns, rfl, so⟩ hidle hbeside hnext
  have hwaits : d.stepWaiting w = none := Option.map_eq_none_iff.mp hidle
  exact ⟨w, ns, rfl, so.still hbeside.onward.flags (aside_nextMoment hwaits hbeside hnext)⟩

/-- A wait that is performed is a run of its caller, as long as everybody comes to rest before the
clock moves. -/
theorem perform_waits
    (hrests : alwaysRests none horizon (d.startWaiting l limit flag).1
      (.wait (d.startWaiting l limit flag).2) = true) : ∃ d' w ns,
    (d.startWaiting l limit flag).1.perform (.wait (d.startWaiting l limit flag).2) =
      (d', .wait w) ∧ Waits l limit flag d d' w ns := by
  obtain ⟨w, ns, hj, so⟩ := Abiding.runJob ⟨_, _, rfl, .start⟩ hrests
  exact ⟨_, w, ns, Prod.ext rfl hj, so⟩

example : alwaysRests none horizon
    (startWaiting {} ⟨⟨"L", 30, 10⟩, 0⟩ (some 25) none).1
    (.wait (startWaiting {} ⟨⟨"L", 30, 10⟩, 0⟩ (some 25) none).2) = true := by
  decide +kernel

end Holdfast.Deployment
