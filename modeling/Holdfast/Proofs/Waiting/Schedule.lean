import Holdfast.Proofs.Acquisition.Errand
import Holdfast.Proofs.Waiting.Run

namespace Holdfast

open Store

namespace Lock

theorem sleep_pos {name : String} {o : Lock.Options} {l : Lock} (h : Lock.ofName name o = .ok l) :
    0 < l.sleep := by
  unfold ofName at h
  split at h
  · cases h
  · cases h
    exact o.sleepMillis_pos

/-- What may be seen next of a call that nobody cancels. -/
def Wait.Next (w : Wait) (x y : Waiting.Note) : Prop :=
  match x.deed, y.deed with
  | .began, .ended _ => x.time ≤ y.time
  | .ended r, .began => w.verdict? x.time r = none ∧ y.time = w.wakes x.time
  | .ended r, .returned v => w.verdict? x.time r = some v ∧ y.time = x.time
  | _, _ => False

end Lock

namespace Waiting

def begun (ns : List Note) : List Nat :=
  ns.filterMap fun x =>
    match x.deed with
    | .began => some x.time
    | _ => none

@[simp] theorem begun_append (ms ns : List Note) : begun (ms ++ ns) = begun ms ++ begun ns := by
  simp [begun]

/-- What was seen last of a call that nobody has cancelled. -/
inductive Stage.Shows (w : Lock.Wait) : Stage → Note → Prop
  | attempting {b : Nat} : Shows w (.attempting b) ⟨b, .began⟩
  | pausing {e : Nat} {r : Except Failure (Option Lock.Handle)} (lost : w.verdict? e r = none) :
      Shows w (.pausing e) ⟨e, .ended r⟩
  | done {t : Nat} {v : Except LockError (Option Lock.Handle)} :
      Shows w (.done t v) ⟨t, .returned v⟩

theorem chain_concat {R : Note → Note → Prop} {ns : List Note} {last x : Note}
    (h : ns.IsChain R) (hlast : ns.getLast? = some last) (hx : R last x) :
    (ns ++ [x]).IsChain R := by
  refine List.isChain_append.mpr ⟨h, .singleton _, ?_⟩
  intro y hy z hz
  rw [hlast] at hy
  cases hy
  cases hz
  exact hx

section
variable {w : Lock.Wait} {start : Nat} {ns : List Note} {c : Option Nat} {stage : Stage}

/-- A call that nobody cancels goes from each deed to one that may be seen next. -/
theorem Course.next (h : Course w start ns c stage) (hc : c = none) :
    ns.head? = some ⟨start, .began⟩ ∧ ns.IsChain w.Next ∧
      ∃ last, ns.getLast? = some last ∧ stage.Shows w last := by
  induction h with
  | enter => exact ⟨rfl, .singleton _, _, rfl, .attempting⟩
  | refuse | cancel | stop => cases hc
  | @finish ns c b e r v so began cancelled verdict ih =>
    obtain ⟨hhead, hchain, last, hlast, shows⟩ := ih hc
    cases shows
    have hended := chain_concat (x := ⟨e, .ended r⟩) hchain hlast began
    have hreturned := chain_concat (x := ⟨e, .returned v⟩) hended List.getLast?_concat
      ⟨verdict, rfl⟩
    exact ⟨by simp [hhead], by simpa using hreturned, _, by simp, .done⟩
  | lose so began cancelled verdict ih =>
    obtain ⟨hhead, hchain, last, hlast, shows⟩ := ih hc
    cases shows
    exact ⟨by simp [hhead], chain_concat hchain hlast began, _, by simp, .pausing verdict⟩
  | retry so ih =>
    obtain ⟨hhead, hchain, last, hlast, shows⟩ := ih hc
    cases shows with
    | pausing lost =>
      exact ⟨by simp [hhead], chain_concat hchain hlast ⟨lost, rfl⟩, _, by simp, .attempting⟩

theorem Course.returned (h : Course w start ns c stage) {t : Nat}
    {v : Except LockError (Option Lock.Handle)} (hx : ⟨t, .returned v⟩ ∈ ns) :
    stage = .done t v := by
  induction h with
  | enter => simp at hx
  | refuse =>
    simp only [List.mem_cons, Note.mk.injEq, reduceCtorEq, and_false, Deed.returned.injEq,
      List.not_mem_nil, or_false, false_or] at hx
    obtain ⟨rfl, rfl⟩ := hx
    rfl
  | finish so began cancelled verdict ih =>
    rcases List.mem_append.mp hx with hx | hx
    · cases ih hx
    · simp only [List.mem_cons, Note.mk.injEq, reduceCtorEq, and_false, Deed.returned.injEq,
        List.not_mem_nil, or_false, false_or] at hx
      obtain ⟨rfl, rfl⟩ := hx
      rfl
  | lose so began cancelled verdict ih | retry so ih =>
    rcases List.mem_append.mp hx with hx | hx
    · cases ih hx
    · simp at hx
  | @cancel ns stage c so admits ih =>
    rcases List.mem_append.mp hx with hx | hx
    · exact ih hx
    · simp at hx
  | stop so ih =>
    rcases List.mem_append.mp hx with hx | hx
    · cases ih hx
    · simp only [List.mem_cons, Note.mk.injEq, Deed.returned.injEq, List.not_mem_nil,
        or_false] at hx
      obtain ⟨rfl, rfl⟩ := hx
      rfl

/-- What a call returns is what its last attempt has come to, unless it was cancelled. -/
theorem Course.returns (h : Course w start ns c stage) {t : Nat}
    {v : Except LockError (Option Lock.Handle)} (hstage : stage = .done t v) :
    (v = .error .cancelled ∧ ∃ x ∈ c, x ≤ t) ∨
      ∃ r, ⟨t, .ended r⟩ ∈ ns ∧ w.verdict? t r = some v := by
  subst hstage
  cases h with
  | refuse => exact .inl ⟨rfl, start, rfl, Nat.le_refl _⟩
  | @finish ns c b _ r _ so began cancelled verdict => exact .inr ⟨r, by simp, verdict⟩
  | cancel so admits => cases admits
  | @stop ns e c so => exact .inl ⟨rfl, c, rfl, Nat.le_max_right _ _⟩

variable {limit : Nat}

/-- With a deadline, every attempt begins by then. -/
theorem Course.begun_le (h : Course w start ns c stage) (hd : w.deadline = some (start + limit)) :
    ∀ b ∈ begun ns, b ≤ start + limit := by
  induction h with
  | enter | refuse => simp [begun]
  | finish so began cancelled verdict ih | lose so began cancelled verdict ih =>
    simpa [begun] using ih
  | retry so ih =>
    intro b hb
    rw [begun_append] at hb
    rcases List.mem_append.mp hb with hb | hb
    · exact ih b hb
    · obtain rfl : b = _ := by simpa [begun] using hb
      exact Lock.Wait.wakes_le_deadline hd
  | cancel so admits ih | stop so ih => simpa [begun] using ih

/-- How far the clock is at least, after the first attempt and some more. -/
def Stage.Counts (w : Lock.Wait) (start limit n : Nat) : Stage → Prop
  | attempting b => start + min (n * w.sleep) limit ≤ b
  | pausing e => start + n * w.sleep ≤ e ∧ e < start + limit
  | done .. => True

/-- Each further attempt has taken a whole pause, but for one that begins at the deadline. -/
theorem Course.counts (h : Course w start ns c stage) (hd : w.deadline = some (start + limit))
    (hsleep : 0 < w.sleep) :
    ∃ n, (begun ns).length ≤ n + 1 ∧ n * w.sleep < limit + w.sleep ∧
      stage.Counts w start limit n := by
  induction h with
  | enter => exact ⟨0, Nat.le_refl _, by omega, by simp [Stage.Counts]⟩
  | refuse => exact ⟨0, by simp [begun], by omega, trivial⟩
  | finish so began cancelled verdict ih =>
    obtain ⟨n, hlength, hn, -⟩ := ih
    exact ⟨n, by simpa [begun] using hlength, hn, trivial⟩
  | @lose ns c b e r so began cancelled verdict ih =>
    obtain ⟨n, hlength, hn, hcounts⟩ := ih
    obtain ⟨-, hpast⟩ := Lock.Wait.verdict?_eq_none.mp verdict
    have he : e < start + limit := by simpa [Lock.Wait.isPast, hd] using hpast
    have hb : start + min (n * w.sleep) limit ≤ b := hcounts
    exact ⟨n, by simpa [begun] using hlength, hn, by omega, he⟩
  | @retry ns e so ih =>
    obtain ⟨n, hlength, hn, hcounts⟩ := ih
    obtain ⟨hpauses, he⟩ := hcounts
    have hmore : (n + 1) * w.sleep = n * w.sleep + w.sleep := Nat.succ_mul _ _
    refine ⟨n + 1, by simpa [begun] using hlength, by omega, ?_⟩
    show start + min ((n + 1) * w.sleep) limit ≤ w.wakes e
    simp only [Lock.Wait.wakes, hd]
    omega
  | @cancel ns stage c so admits ih =>
    obtain ⟨n, hlength, hn, hcounts⟩ := ih
    exact ⟨n, by simpa [begun] using hlength, hn, hcounts⟩
  | stop so ih =>
    obtain ⟨n, hlength, hn, -⟩ := ih
    exact ⟨n, by simpa [begun] using hlength, hn, trivial⟩

/-- The limit in pauses, rounded up, bounds the attempts after the first one. -/
theorem Course.begun_length_le (h : Course w start ns c stage)
    (hd : w.deadline = some (start + limit)) (hsleep : 0 < w.sleep) :
    (begun ns).length ≤ (limit + w.sleep - 1) / w.sleep + 1 := by
  obtain ⟨n, hlength, hn, -⟩ := h.counts hd hsleep
  have hpauses : n ≤ (limit + w.sleep - 1) / w.sleep := by
    rw [Nat.le_div_iff_mul_le hsleep]
    omega
  omega

end
end Waiting

namespace Deployment

open Waiting

variable {l : PlacedLock} {limit : Option Nat} {d₀ d : Deployment} {w : Waiting} {ns : List Note}

theorem Waits.uncancelled (h : Waits l limit none d₀ d w ns) :
    ∃ stage, Course (d₀.waitFrom l limit) d₀.now ns none stage ∧ IsAt d w none stage := by
  obtain ⟨c, stage, hcourse, hat⟩ := h.course
  obtain rfl : c = none := by
    cases hc : c with
    | none => rfl
    | some x =>
      have hraised := hat.isRaised_of_cancelled (by rw [hc]; rfl)
      rw [h.asked.2.2] at hraised
      cases hraised
  exact ⟨stage, hcourse, hat⟩

/-- A wait that nobody cancels begins with an attempt, and goes on from each deed to the one that is
due next: an attempt that is lost before the deadline is followed by the next one after the pause,
or at the deadline where that is nearer; the first that wins, or that is lost no earlier than at the
deadline, is what is returned, at its end. A failure is a loss and is not returned. Meanwhile a
caller idles only for its pause or for its attempt. -/
theorem attempts_keep_schedule {name : String} {o : Lock.Options}
    (hlock : Lock.ofName name o = .ok l.lock) (h : Waits l limit none d₀ d w ns) :
    ns.head? = some ⟨d₀.now, .began⟩ ∧ ns.IsChain (d₀.waitFrom l limit).Next ∧
    ((∃ e b, w.phase = .attempting e ∧ ns.getLast? = some ⟨b, .began⟩ ∧
        (d.stepWaiting w = none → e.talk? = none ∧ d.stepErrand e = none)) ∨
      (∃ e r, w.phase = .pausing ((d₀.waitFrom l limit).wakes e) ∧
        ns.getLast? = some ⟨e, .ended r⟩ ∧ (d₀.waitFrom l limit).verdict? e r = none ∧
        d.now ≤ (d₀.waitFrom l limit).wakes e ∧
        (d.stepWaiting w = none → d.now < (d₀.waitFrom l limit).wakes e)) ∨
      ∃ t v, w.phase = .over v ∧ ns.getLast? = some ⟨t, .returned v⟩) ∧
    (∀ t f, ⟨t, .returned (.error f)⟩ ∉ ns) ∧
    (∀ ms, limit = some ms →
      (∀ b ∈ begun ns, b ≤ d₀.now + ms) ∧
      (begun ns).length ≤ (ms + l.lock.sleep - 1) / l.lock.sleep + 1 ∧
      ∀ t, ⟨t, .returned (.ok none)⟩ ∈ ns → d₀.now + ms ≤ t) ∧
    (limit = none → ∀ t v, ⟨t, .returned v⟩ ∈ ns → ∃ handle, v = .ok (some handle)) := by
  obtain ⟨stage, hcourse, hat⟩ := h.uncancelled
  obtain ⟨hhead, hchain, last, hlast, shows⟩ := hcourse.next rfl
  have hreturns {t : Nat} {v : Except LockError (Option Lock.Handle)} (hx : ⟨t, .returned v⟩ ∈ ns) :
      ∃ r, (d₀.waitFrom l limit).verdict? t r = some v := by
    rcases hcourse.returns (hcourse.returned hx) with ⟨-, x, hx, -⟩ | ⟨r, -, hv⟩
    · cases hx
    · exact ⟨r, hv⟩
  refine ⟨hhead, hchain, ?_, ?_, ?_, ?_⟩
  · have hidle := @idle_cases d w
    have hwait := h.asked.2.1
    cases hat with
    | attempting phase =>
      cases shows
      refine .inl ⟨_, _, phase, hlast, ?_⟩
      intro hnone
      simpa [phase] using hidle hnone
    | pausing phase since due =>
      cases shows with
      | pausing lost =>
        rw [hwait] at phase due
        refine .inr (.inl ⟨_, _, phase, hlast, lost, due, ?_⟩)
        intro hnone
        simpa [phase, isRaised, h.asked.2.2] using hidle hnone
    | done phase =>
      cases shows
      exact .inr (.inr ⟨_, _, phase, hlast⟩)
  · intro t f hx
    obtain ⟨r, hv⟩ := hreturns hx
    exact Lock.Wait.verdict?_ne_error hv
  · rintro ms rfl
    refine ⟨hcourse.begun_le rfl, hcourse.begun_length_le rfl (Lock.sleep_pos hlock), ?_⟩
    intro t hx
    obtain ⟨r, hv⟩ := hreturns hx
    simpa [Lock.Wait.isPast, waitFrom] using Lock.Wait.isPast_of_verdict? hv
  · rintro rfl t v hx
    obtain ⟨r, hv⟩ := hreturns hx
    rcases Lock.Wait.verdict?_eq_some.mp hv with ⟨handle, -, hv⟩ | ⟨-, hpast, -⟩
    · exact ⟨handle, hv⟩
    · cases hpast

/-- The token of a holder whose time is not up. -/
def rival : Script.Value := .bytes (Lock.Token.bytes ⟨42, 99999999999999⟩)

/-- The lock is held at first, then the store fails slowly; the lock is held again, then free. -/
def contested : Deployment := scripted
  [.flag true, .flag false, .flag true, .value rival, .flag true,
    .flag true, .later 3 (.failure (.unreachable ⟨"h", 1⟩)),
    .flag true, .flag false, .flag true, .value rival, .flag true,
    .flag true, .flag true, .flag true]

/-- The third pause is cut short, and the attempt at the deadline wins. -/
theorem attempts_keep_schedule_contested : ∃ (d : Deployment) (w : Waiting) (ns : List Note)
    (handle : Lock.Handle),
    Lock.ofName "L" { hold := 30, sleep := 10 } = .ok ⟨"L", 30, 10⟩ ∧
    Waits ⟨⟨"L", 30, 10⟩, 0⟩ (some 25) none contested d w ns ∧
    ns = [⟨0, .began⟩, ⟨0, .ended (.ok none)⟩, ⟨10, .began⟩,
      ⟨13, .ended (.error (.unreachable ⟨"h", 1⟩))⟩, ⟨23, .began⟩, ⟨23, .ended (.ok none)⟩,
      ⟨25, .began⟩, ⟨25, .ended (.ok (some handle))⟩, ⟨25, .returned (.ok (some handle))⟩] ∧
    ns.IsChain (contested.waitFrom ⟨⟨"L", 30, 10⟩, 0⟩ (some 25)).Next ∧
    (begun ns).length ≤ (25 + 10 - 1) / 10 + 1 := by
  let l : PlacedLock := ⟨⟨"L", 30, 10⟩, 0⟩
  obtain ⟨s, hs, hnotes⟩ : ∃ s, ride 1000 100 ((contested.startWaiting l (some 25) none).1,
      (contested.startWaiting l (some 25) none).2, contested.seenFirst l (some 25) none) = s ∧
      s.2.2 = [⟨0, .began⟩, ⟨0, .ended (.ok none)⟩, ⟨10, .began⟩,
        ⟨13, .ended (.error (.unreachable ⟨"h", 1⟩))⟩, ⟨23, .began⟩, ⟨23, .ended (.ok none)⟩,
        ⟨25, .began⟩, ⟨25, .ended (.ok (some (Lock.handle l.lock ⟨draw 12, 1700000030000⟩)))⟩,
        ⟨25, .returned (.ok (some (Lock.handle l.lock ⟨draw 12, 1700000030000⟩)))⟩] :=
    ⟨_, rfl, by decide +kernel⟩
  obtain ⟨d, w, ns⟩ := s
  have hlock : Lock.ofName "L" { hold := 30, sleep := 10 } = .ok l.lock := by decide +kernel
  have so : Waits l (some 25) none contested d w ns := Waits.start.ride hs
  obtain ⟨-, hchain, -, -, hlimit, -⟩ := attempts_keep_schedule hlock so
  exact ⟨d, w, ns, _, hlock, so, hnotes, hchain, (hlimit 25 rfl).2.1⟩

end Deployment
end Holdfast
