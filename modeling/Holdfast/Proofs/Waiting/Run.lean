import Holdfast.Proofs.Waiting.Course
import Holdfast.Proofs.Works

namespace Holdfast

open Store

namespace Waiting

/-- What is seen of a caller that comes to where it stands. -/
def entered (now : Nat) (w : Waiting) : List Note :=
  match w.phase with
  | .attempting _ => [⟨now, .began⟩]
  | .pausing _ => []
  | .over r => [⟨now, .returned r⟩]

/-- What is seen of a step of a caller to where it stands next. -/
def seen (now : Nat) (w w' : Waiting) : List Note :=
  match w.phase with
  | .attempting e =>
    match e.talk? with
    | some talk => ⟨now, .ended talk.acquired⟩ :: w'.entered now
    | none => []
  | .pausing _ | .over _ => w'.entered now

def isOver (w : Waiting) : Bool :=
  match w.phase with
  | .over _ => true
  | _ => false

/-- What is seen of a cancellation; nothing, once the call is over. -/
def raised (d d' : Deployment) (w : Waiting) : List Note :=
  if !w.isOver && !d.isRaised w.flag && d'.isRaised w.flag then [⟨d'.now, .cancelled⟩] else []

/-- What may happen beside a waiting caller. Time passes only while the caller can do nothing, and
not past the end of its pause; a flag that has been raised stays so. Nothing else is said. -/
structure Aside (w : Waiting) (d d' : Deployment) : Prop where
  now : d.now ≤ d'.now
  waits : d.now < d'.now → d.stepWaiting w = none
  pause : ∀ due, w.phase = .pausing due → d.now < d'.now → d'.now ≤ due
  flag : d.isRaised w.flag = true → d'.isRaised w.flag = true

end Waiting

namespace Deployment

open Waiting

/-- What is asked of a wait that begins now. -/
def waitFrom (d : Deployment) (l : PlacedLock) (limit : Option Nat) : Lock.Wait :=
  ⟨limit.map (d.now + ·), l.lock.sleep⟩

/-- What is seen when a caller begins to wait. -/
def seenFirst (d : Deployment) (l : PlacedLock) (limit flag : Option Nat) : List Note :=
  (if d.isRaised flag then [⟨d.now, .cancelled⟩] else []) ++
    (d.startWaiting l limit flag).2.entered d.now

/-- A wait for a lock that begins in a deployment, with what is seen of it. -/
inductive Waits (l : PlacedLock) (limit flag : Option Nat) (d₀ : Deployment) :
    Deployment → Waiting → List Note → Prop
  | start : Waits l limit flag d₀ (d₀.startWaiting l limit flag).1
      (d₀.startWaiting l limit flag).2 (d₀.seenFirst l limit flag)
  | step {d d' : Deployment} {w w' : Waiting} {ns : List Note} (so : Waits l limit flag d₀ d w ns)
      (step : d.stepWaiting w = some (d', w')) :
      Waits l limit flag d₀ d' w' (ns ++ w.seen d.now w')
  | aside {d d' : Deployment} {w : Waiting} {ns : List Note} (so : Waits l limit flag d₀ d w ns)
      (aside : w.Aside d d') : Waits l limit flag d₀ d' w (ns ++ w.raised d d')

end Deployment

namespace Waiting

open Deployment

/-- What a step of a waiting caller is, with what is seen of it. -/
inductive Moves (d : Deployment) (w : Waiting) : Deployment → Waiting → List Note → Prop
  | stopped {due : Nat} (phase : w.phase = .pausing due) (flag : d.isRaised w.flag = true) :
      Moves d w d { w with phase := .over (.error .cancelled) }
        [⟨d.now, .returned (.error .cancelled)⟩]
  | woken {due : Nat} (phase : w.phase = .pausing due) (flag : d.isRaised w.flag = false)
      (due : due ≤ d.now) :
      Moves d w (d.startAttempt w.lock).1
        { w with phase := .attempting (d.startAttempt w.lock).2 } [⟨d.now, .began⟩]
  | finished {e : Errand} {talk : Lock.Talk} {v : Except LockError (Option Lock.Handle)}
      (phase : w.phase = .attempting e) (ended : e.talk? = some talk)
      (verdict : w.wait.verdict? d.now talk.acquired = some v) :
      Moves d w d { w with phase := .over v } [⟨d.now, .ended talk.acquired⟩, ⟨d.now, .returned v⟩]
  | lost {e : Errand} {talk : Lock.Talk} (phase : w.phase = .attempting e)
      (ended : e.talk? = some talk) (verdict : w.wait.verdict? d.now talk.acquired = none) :
      Moves d w d { w with phase := .pausing (w.wait.wakes d.now) } [⟨d.now, .ended talk.acquired⟩]
  | worked {e e' : Errand} {d' : Deployment} (phase : w.phase = .attempting e)
      (under : e.talk? = none) (step : d.stepErrand e = some (d', e')) :
      Moves d w d' { w with phase := .attempting e' } []

variable {d d' : Deployment} {w w' : Waiting}

theorem moves_of_step (h : d.stepWaiting w = some (d', w')) :
    Moves d w d' w' (w.seen d.now w') := by
  obtain ⟨lock, wait, flag, phase⟩ := w
  match phase, h with
  | .over r, h => cases h
  | .pausing due, h =>
    simp only [stepWaiting] at h
    obtain ⟨phase, hwake, h⟩ := Option.bind_eq_some_iff.mp h
    simp only [Lock.Wait.wake?] at hwake
    split at hwake
    · next hflag =>
      cases hwake
      cases h
      exact .stopped rfl hflag
    · next hflag =>
      split at hwake
      · next hdue =>
        cases hwake
        cases h
        exact .woken rfl (Bool.eq_false_iff.mpr hflag) hdue
      · cases hwake
  | .attempting e, h =>
    simp only [stepWaiting] at h
    split at h
    · next talk htalk =>
      rw [wait.attempted_eq] at h
      split at h
      · next v hv =>
        cases h
        simp only [seen, htalk]
        exact .finished rfl htalk hv
      · next hv =>
        cases h
        simp only [seen, htalk]
        exact .lost rfl htalk hv
    · next htalk =>
      obtain ⟨⟨d₁, e'⟩, hstep, h⟩ := Option.bind_eq_some_iff.mp h
      cases h
      simp only [seen, htalk]
      exact .worked rfl htalk hstep

theorem step_of_raised {due : Nat} (hphase : w.phase = .pausing due)
    (hflag : d.isRaised w.flag = true) :
    d.stepWaiting w = some (d, { w with phase := .over (.error .cancelled) }) := by
  simp [stepWaiting, hphase, Lock.Wait.wake?, hflag, enterPhase]

theorem step_of_due {due : Nat} (hphase : w.phase = .pausing due)
    (hflag : d.isRaised w.flag = false) (hdue : due ≤ d.now) :
    d.stepWaiting w = some ((d.startAttempt w.lock).1,
      { w with phase := .attempting (d.startAttempt w.lock).2 }) := by
  simp [stepWaiting, hphase, Lock.Wait.wake?, hflag, hdue, enterPhase]

/-- A caller can do nothing where it is over, its pause lasts, or its attempt waits. -/
theorem idle_cases (h : d.stepWaiting w = none) :
    (∃ r, w.phase = .over r) ∨
    (∃ due, w.phase = .pausing due ∧ d.isRaised w.flag = false ∧ d.now < due) ∨
    ∃ e, w.phase = .attempting e ∧ e.talk? = none ∧ d.stepErrand e = none := by
  match hphase : w.phase with
  | .over r => exact .inl ⟨r, rfl⟩
  | .pausing due =>
    refine .inr (.inl ⟨due, rfl, ?_⟩)
    cases hflag : d.isRaised w.flag with
    | true => rw [step_of_raised hphase hflag] at h; cases h
    | false =>
      refine ⟨rfl, Nat.lt_of_not_le ?_⟩
      intro hdue
      rw [step_of_due hphase hflag hdue] at h
      cases h
  | .attempting e =>
    refine .inr (.inr ⟨e, rfl, ?_⟩)
    simp only [stepWaiting, hphase] at h
    split at h
    · cases h
    · next htalk =>
      refine ⟨htalk, ?_⟩
      cases hstep : d.stepErrand e with
      | none => rfl
      | some next => rw [hstep] at h; cases h

/-- A caller that stands in a stage of its call, cancelled or not. -/
inductive IsAt (d : Deployment) (w : Waiting) (c : Option Nat) : Stage → Prop
  | attempting {e : Errand} {b : Nat} (phase : w.phase = .attempting e) (since : b ≤ d.now)
      (flag : d.isRaised w.flag = c.isSome) (cancelled : ∀ x ∈ c, x ≤ d.now) :
      IsAt d w c (.attempting b)
  | pausing {e : Nat} (phase : w.phase = .pausing (w.wait.wakes e)) (since : e ≤ d.now)
      (due : d.now ≤ w.wait.wakes e) (flag : d.isRaised w.flag = c.isSome)
      (cancelled : ∀ x ∈ c, d.now = max e x) : IsAt d w c (.pausing e)
  | done {t : Nat} {r : Except LockError (Option Lock.Handle)} (phase : w.phase = .over r)
      (since : t ≤ d.now) (flag : c.isSome = true → d.isRaised w.flag = true) :
      IsAt d w c (.done t r)

namespace IsAt

variable {c : Option Nat} {stage : Stage}

/-- A caller that pauses has paused since some time, and just until it was cancelled. -/
theorem pause {due : Nat} (so : IsAt d w c stage) (h : w.phase = .pausing due) :
    ∃ e, stage = .pausing e ∧ due = w.wait.wakes e ∧ e ≤ d.now ∧ d.now ≤ w.wait.wakes e ∧
      d.isRaised w.flag = c.isSome ∧ ∀ x ∈ c, d.now = max e x := by
  cases so with
  | @pausing e phase since due flag cancelled =>
    rw [phase] at h
    cases h
    exact ⟨e, rfl, rfl, since, due, flag, cancelled⟩
  | attempting phase => rw [phase] at h; cases h
  | done phase => rw [phase] at h; cases h

theorem attempt {e : Errand} (so : IsAt d w c stage) (h : w.phase = .attempting e) :
    ∃ b, stage = .attempting b ∧ b ≤ d.now ∧ d.isRaised w.flag = c.isSome ∧ ∀ x ∈ c, x ≤ d.now := by
  cases so with
  | @attempting _ b _ since flag cancelled => exact ⟨b, rfl, since, flag, cancelled⟩
  | pausing phase => rw [phase] at h; cases h
  | done phase => rw [phase] at h; cases h

theorem isRaised_of_cancelled (so : IsAt d w c stage) (h : c.isSome = true) :
    d.isRaised w.flag = true := by
  cases so with
  | attempting _ _ flag => exact flag.trans h
  | pausing _ _ _ flag => exact flag.trans h
  | done _ _ flag => exact flag h

end IsAt

theorem isRaised_congr (h : d'.flags = d.flags) (flag : Option Nat) :
    d'.isRaised flag = d.isRaised flag := by
  unfold isRaised
  rw [h]

variable {start : Nat} {ns : List Note} {c : Option Nat} {stage : Stage}

/-- What a caller does next is what its call comes to next. -/
theorem IsAt.step (so : IsAt d w c stage) (course : Course w.wait start ns c stage)
    (h : d.stepWaiting w = some (d', w')) :
    ∃ stage', Course w.wait start (ns ++ w.seen d.now w') c stage' ∧ IsAt d' w' c stage' := by
  have hnow := (spans_works.stepWaiting h).now
  have hflags (flag : Option Nat) := isRaised_congr (spans_onward.stepWaiting h).flags flag
  have hmoves := moves_of_step h
  generalize w.seen d.now w' = seen at hmoves
  cases hmoves with
  | stopped phase flag =>
    obtain ⟨e, rfl, -, -, -, raised, cancelled⟩ := so.pause phase
    obtain ⟨x, rfl⟩ := Option.isSome_iff_exists.mp (raised.symm.trans flag)
    refine ⟨_, ?_, .done rfl (Nat.le_refl _) fun _ => flag⟩
    rw [cancelled x rfl]
    exact .stop course
  | woken phase flag hdue =>
    obtain ⟨e, rfl, rfl, since, due, raised, -⟩ := so.pause phase
    obtain rfl : c = none := by simpa [flag] using raised
    have hwakes : d.now = w.wait.wakes e := Nat.le_antisymm due hdue
    refine ⟨_, ?_, .attempting rfl (Nat.le_of_eq hnow.symm) ((hflags _).trans flag) nofun⟩
    rw [hwakes]
    exact .retry course
  | finished phase ended verdict =>
    obtain ⟨b, rfl, since, raised, cancelled⟩ := so.attempt phase
    exact ⟨_, .finish course since cancelled verdict, .done rfl (Nat.le_refl _) raised.trans⟩
  | lost phase ended verdict =>
    obtain ⟨b, rfl, since, raised, cancelled⟩ := so.attempt phase
    obtain ⟨-, hpast⟩ := Lock.Wait.verdict?_eq_none.mp verdict
    refine ⟨_, .lose course since cancelled verdict, .pausing rfl (Nat.le_refl _)
      (Lock.Wait.le_wakes hpast) raised ?_⟩
    intro x hx
    exact (Nat.max_eq_left (cancelled x hx)).symm
  | worked phase under hstep =>
    obtain ⟨b, rfl, since, raised, cancelled⟩ := so.attempt phase
    rw [List.append_nil]
    exact ⟨_, course, .attempting rfl (hnow.symm ▸ since) ((hflags _).trans raised)
      (hnow.symm ▸ cancelled)⟩

/-- Beside a caller whose call is not over, its flag stays as it is or is raised, which is seen. -/
theorem raised_cases (hopen : w.isOver = false) (h : w.Aside d d') :
    (w.raised d d' = [] ∧ d'.isRaised w.flag = d.isRaised w.flag) ∨
      (w.raised d d' = [⟨d'.now, .cancelled⟩] ∧ d.isRaised w.flag = false ∧
        d'.isRaised w.flag = true) := by
  cases hbefore : d.isRaised w.flag with
  | true => exact .inl ⟨by simp [raised, hbefore], h.flag hbefore⟩
  | false =>
    cases hafter : d'.isRaised w.flag with
    | false => exact .inl ⟨by simp [raised, hafter], rfl⟩
    | true => exact .inr ⟨by simp [raised, hopen, hbefore, hafter], rfl, rfl⟩

/-- Whoever is cancelled in a pause has something to do, so that no time passes. -/
theorem Aside.now_eq {due : Nat} (h : w.Aside d d') (hphase : w.phase = .pausing due)
    (hflag : d.isRaised w.flag = true) : d'.now = d.now := by
  rcases Nat.eq_or_lt_of_le h.now with hsame | hlt
  · exact hsame.symm
  · have hidle := h.waits hlt
    rw [step_of_raised hphase hflag] at hidle
    cases hidle

/-- What happens beside a caller lets time pass, and may cancel it. -/
theorem IsAt.aside (so : IsAt d w c stage) (course : Course w.wait start ns c stage)
    (h : w.Aside d d') :
    ∃ c', Course w.wait start (ns ++ w.raised d d') c' stage ∧ IsAt d' w c' stage := by
  cases so with
  | @done t r phase since flag =>
    have hnone : w.raised d d' = [] := by simp [raised, isOver, phase]
    rw [hnone, List.append_nil]
    exact ⟨c, course, .done phase (Nat.le_trans since h.now) fun hc => h.flag (flag hc)⟩
  | @attempting e b phase since flag cancelled =>
    have hsince := Nat.le_trans since h.now
    rcases raised_cases (by simp [isOver, phase]) h with ⟨hnone, hsame⟩ | ⟨hone, hbefore, hafter⟩
    · rw [hnone, List.append_nil]
      refine ⟨c, course, .attempting phase hsince (hsame.trans flag) ?_⟩
      intro x hx
      exact Nat.le_trans (cancelled x hx) h.now
    · obtain rfl : c = none := by simpa [hbefore] using flag
      rw [hone]
      refine ⟨_, .cancel course hsince, .attempting phase hsince hafter ?_⟩
      intro x hx
      exact Nat.le_of_eq (Option.some.inj hx).symm
  | @pausing e phase since due flag cancelled =>
    have hsince := Nat.le_trans since h.now
    have hdue : d'.now ≤ w.wait.wakes e := by
      rcases Nat.eq_or_lt_of_le h.now with hsame | hlt
      · rw [← hsame]
        exact due
      · exact h.pause _ phase hlt
    rcases raised_cases (by simp [isOver, phase]) h with ⟨hnone, hsame⟩ | ⟨hone, hbefore, hafter⟩
    · rw [hnone, List.append_nil]
      refine ⟨c, course, .pausing phase hsince hdue (hsame.trans flag) ?_⟩
      rintro x rfl
      rw [h.now_eq phase flag]
      exact cancelled x rfl
    · obtain rfl : c = none := by simpa [hbefore] using flag
      rw [hone]
      refine ⟨_, .cancel course ⟨hsince, hdue⟩, .pausing phase hsince hdue hafter ?_⟩
      intro x hx
      rw [← Option.some.inj hx]
      exact (Nat.max_eq_right hsince).symm

theorem isAt_start (d : Deployment) (l : PlacedLock) (limit flag : Option Nat) :
    ∃ c stage, Course (d.waitFrom l limit) d.now (d.seenFirst l limit flag) c stage ∧
      IsAt (d.startWaiting l limit flag).1 (d.startWaiting l limit flag).2 c stage := by
  unfold seenFirst startWaiting Lock.Wait.attemptUnless
  cases hflag : d.isRaised flag with
  | true => exact ⟨_, _, .refuse, .done rfl (Nat.le_refl _) fun _ => hflag⟩
  | false =>
    have hnow := (spans_works.startAttempt d l).now
    refine ⟨_, _, .enter, .attempting rfl (Nat.le_of_eq hnow.symm) ?_ nofun⟩
    exact (isRaised_congr (spans_onward.startAttempt d l).flags flag).trans hflag

end Waiting

namespace Deployment

open Waiting

variable {l : PlacedLock} {limit flag : Option Nat} {d₀ d : Deployment} {w : Waiting}
  {ns : List Note}

theorem Waits.asked (h : Waits l limit flag d₀ d w ns) :
    w.lock = l ∧ w.wait = d₀.waitFrom l limit ∧ w.flag = flag := by
  induction h with
  | start =>
    unfold startWaiting enterPhase
    split <;> exact ⟨rfl, rfl, rfl⟩
  | @step d d' w w' ns _ hstep ih =>
    have hmoves := moves_of_step hstep
    generalize w.seen d.now w' = seen at hmoves
    cases hmoves <;> exact ih
  | aside _ _ ih => exact ih

/-- Whatever a waiting caller does is how a call may go. -/
theorem Waits.course (h : Waits l limit flag d₀ d w ns) :
    ∃ c stage, Course (d₀.waitFrom l limit) d₀.now ns c stage ∧ IsAt d w c stage := by
  induction h with
  | start => exact isAt_start d₀ l limit flag
  | step so hstep ih =>
    obtain ⟨c, stage, hcourse, hat⟩ := ih
    rw [← so.asked.2.1] at hcourse ⊢
    obtain ⟨stage', hcourse', hat'⟩ := hat.step hcourse hstep
    exact ⟨c, stage', hcourse', hat'⟩
  | aside so haside ih =>
    obtain ⟨c, stage, hcourse, hat⟩ := ih
    rw [← so.asked.2.1] at hcourse ⊢
    obtain ⟨c', hcourse', hat'⟩ := hat.aside hcourse haside
    exact ⟨c', stage, hcourse', hat'⟩

/-- How a caller goes on that is alone: it does what it can, and the clock moves to where it goes
on, up to some time. -/
def ride (till : Nat) : Nat → Deployment × Waiting × List Note → Deployment × Waiting × List Note
  | 0, s => s
  | fuel + 1, (d, w, ns) =>
    match d.stepWaiting w, w.due? with
    | some (d', w'), _ => ride till fuel (d', w', ns ++ w.seen d.now w')
    | none, some due =>
      if d.now < min due till then ride till fuel ({ d with now := min due till }, w, ns)
      else (d, w, ns)
    | none, none => (d, w, ns)

theorem aside_clock {due now : Nat} (hidle : d.stepWaiting w = none) (hdue : w.due? = some due)
    (hlt : d.now < now) (hle : now ≤ due) : w.Aside d { d with now } where
  now := Nat.le_of_lt hlt
  waits _ := hidle
  pause := by
    intro due' hphase _
    simp only [Waiting.due?, hphase, Option.some.injEq] at hdue
    rw [hdue]
    exact hle
  flag := id

theorem raised_eq_nil {d' : Deployment} (h : d'.flags = d.flags) : w.raised d d' = [] := by
  simp only [raised, isRaised_congr h]
  cases d.isRaised w.flag <;> simp

theorem Waits.ride {d' : Deployment} {w' : Waiting} {ns' : List Note} {till fuel : Nat}
    (h : Waits l limit flag d₀ d w ns) (hr : ride till fuel (d, w, ns) = (d', w', ns')) :
    Waits l limit flag d₀ d' w' ns' := by
  induction fuel generalizing d w ns with
  | zero =>
    cases hr
    exact h
  | succ fuel ih =>
    simp only [Deployment.ride] at hr
    split at hr
    · next hstep => exact ih (h.step hstep) hr
    · next due hidle hdue =>
      split at hr
      · next hlt =>
        have hnone : w.raised d { d with now := min due till } = [] := raised_eq_nil rfl
        have hclock := h.aside (aside_clock hidle hdue hlt (Nat.min_le_left _ _))
        rw [hnone, List.append_nil] at hclock
        exact ih hclock hr
      · cases hr
        exact h
    · cases hr
      exact h

end Deployment
end Holdfast
