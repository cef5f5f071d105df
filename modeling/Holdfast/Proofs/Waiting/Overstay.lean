import Holdfast.Proofs.Waiting.Schedule

namespace Holdfast

open Store

namespace Waiting

variable {w : Lock.Wait} {start : Nat} {ns : List Note} {c : Option Nat} {stage : Stage}

/-- An attempt that decides a call is the last one, and the call returns at its end. -/
theorem Course.decided (h : Course w start ns c stage) {e : Nat}
    {r : Except Failure (Option Lock.Handle)} {v : Except LockError (Option Lock.Handle)}
    (hx : ⟨e, .ended r⟩ ∈ ns) (hv : w.verdict? e r = some v) : ⟨e, .returned v⟩ ∈ ns := by
  induction h with
  | enter | refuse => simp at hx
  | finish so began cancelled verdict ih =>
    rcases List.mem_append.mp hx with hx | hx
    · exact List.mem_append_left _ (ih hx)
    · simp only [List.mem_cons, Note.mk.injEq, Deed.ended.injEq, reduceCtorEq, and_false,
        List.not_mem_nil, or_false] at hx
      obtain ⟨rfl, rfl⟩ := hx
      rw [verdict] at hv
      cases hv
      simp
  | lose so began cancelled verdict ih =>
    rcases List.mem_append.mp hx with hx | hx
    · exact List.mem_append_left _ (ih hx)
    · simp only [List.mem_cons, Note.mk.injEq, Deed.ended.injEq, List.not_mem_nil, or_false] at hx
      obtain ⟨rfl, rfl⟩ := hx
      rw [verdict] at hv
      cases hv
  | retry so ih | cancel so admits ih | stop so ih =>
    rcases List.mem_append.mp hx with hx | hx
    · exact List.mem_append_left _ (ih hx)
    · simp at hx

/-- What is returned of a call that nobody cancels comes right after its last attempt. -/
theorem Course.returned_suffix (h : Course w start ns none stage) {t : Nat}
    {v : Except LockError (Option Lock.Handle)} (hx : ⟨t, .returned v⟩ ∈ ns) :
    ∃ b r, [⟨b, .began⟩, ⟨t, .ended r⟩, ⟨t, .returned v⟩] <:+ ns := by
  obtain rfl := h.returned hx
  cases h with
  | @finish ns _ b _ r _ so began cancelled verdict =>
    obtain ⟨-, -, last, hlast, shows⟩ := so.next rfl
    cases shows
    obtain ⟨front, rfl⟩ := List.getLast?_eq_some_iff.mp hlast
    exact ⟨b, r, front, by simp⟩

end Waiting

namespace Deployment

open Waiting

variable {l : PlacedLock} {ms : Nat} {d₀ d : Deployment} {w : Waiting} {ns : List Note}

theorem mem_begun {b : Nat} (h : ⟨b, .began⟩ ∈ ns) : b ∈ begun ns :=
  List.mem_filterMap.mpr ⟨_, h, rfl⟩

/-- The deadline is looked at between two attempts and not during one: a wait returns after its
deadline just where an attempt that began by then ends after it, and returns at the end of that
attempt. Past its deadline a wait is over, or in its last attempt. -/
theorem late_iff_attempt_late (h : Waits l (some ms) none d₀ d w ns) :
    (∀ t v, ⟨t, .returned v⟩ ∈ ns → d₀.now + ms < t →
      ∃ b r, [⟨b, .began⟩, ⟨t, .ended r⟩, ⟨t, .returned v⟩] <:+ ns ∧ b ≤ d₀.now + ms) ∧
    ((∃ t v, ⟨t, .returned v⟩ ∈ ns ∧ d₀.now + ms < t) ↔
      ∃ b e r, [⟨b, .began⟩, ⟨e, .ended r⟩] <:+: ns ∧ b ≤ d₀.now + ms ∧ d₀.now + ms < e) ∧
    (d₀.now + ms < d.now →
      (∃ e b, w.phase = .attempting e ∧ ns.getLast? = some ⟨b, .began⟩ ∧ b ≤ d₀.now + ms) ∨
        ∃ v, w.phase = .over v) := by
  obtain ⟨stage, hcourse, hat⟩ := h.uncancelled
  have hbegun {b : Nat} (hb : ⟨b, .began⟩ ∈ ns) : b ≤ d₀.now + ms :=
    hcourse.begun_le rfl b (mem_begun hb)
  have hlate {t : Nat} {v : Except LockError (Option Lock.Handle)} (hx : ⟨t, .returned v⟩ ∈ ns) :
      ∃ b r, [⟨b, .began⟩, ⟨t, .ended r⟩, ⟨t, .returned v⟩] <:+ ns ∧ b ≤ d₀.now + ms := by
    obtain ⟨b, r, hsuffix⟩ := hcourse.returned_suffix hx
    exact ⟨b, r, hsuffix, hbegun (hsuffix.subset (by simp))⟩
  refine ⟨fun t v hx _ => hlate hx, ⟨?_, ?_⟩, ?_⟩
  · rintro ⟨t, v, hx, ht⟩
    obtain ⟨b, r, ⟨front, hfront⟩, hb⟩ := hlate hx
    exact ⟨b, t, r, ⟨front, [⟨t, .returned v⟩], by simpa using hfront⟩, hb, ht⟩
  · rintro ⟨b, e, r, hpair, -, he⟩
    have hpast : (d₀.waitFrom l (some ms)).isPast e = true := by
      simp [Lock.Wait.isPast, waitFrom, Nat.le_of_lt he]
    obtain ⟨v, hv⟩ : ∃ v, (d₀.waitFrom l (some ms)).verdict? e r = some v := by
      unfold Lock.Wait.verdict?
      split
      · exact ⟨_, rfl⟩
      · exact ⟨_, if_pos hpast⟩
    exact ⟨e, v, hcourse.decided (hpair.subset (by simp)) hv, he⟩
  · intro hnow
    obtain ⟨-, -, last, hlast, shows⟩ := hcourse.next rfl
    cases hat with
    | attempting phase =>
      cases shows
      exact .inl ⟨_, _, phase, hlast, hbegun (List.mem_of_getLast? hlast)⟩
    | @pausing e phase since due =>
      have hle : (d₀.waitFrom l (some ms)).wakes e ≤ d₀.now + ms :=
        Lock.Wait.wakes_le_deadline rfl
      rw [h.asked.2.1] at due
      omega
    | done phase => exact .inr ⟨_, phase⟩

/-- The lock is held, and the last answer of the store takes a tenth of a second. -/
def slow : Deployment := scripted
  [.flag true, .flag false, .flag true, .value rival, .later 100 (.flag true)]

/-- A wait of fifty milliseconds that lasts a hundred. -/
theorem slow_waits : ∃ (d : Deployment) (w : Waiting),
    Waits ⟨⟨"L", 30, 10⟩, 0⟩ (some 50) none slow d w
      [⟨0, .began⟩, ⟨100, .ended (.ok none)⟩, ⟨100, .returned (.ok none)⟩] := by
  let l : PlacedLock := ⟨⟨"L", 30, 10⟩, 0⟩
  obtain ⟨s, hs, hnotes⟩ : ∃ s, ride 1000 100 ((slow.startWaiting l (some 50) none).1,
      (slow.startWaiting l (some 50) none).2, slow.seenFirst l (some 50) none) = s ∧
      s.2.2 = [⟨0, .began⟩, ⟨100, .ended (.ok none)⟩, ⟨100, .returned (.ok none)⟩] :=
    ⟨_, rfl, by decide +kernel⟩
  obtain ⟨d, w, ns⟩ := s
  obtain rfl : ns = _ := hnotes
  exact ⟨d, w, Waits.start.ride hs⟩

theorem late_iff_attempt_late_slow : ∃ (d : Deployment) (w : Waiting) (ns : List Note),
    Waits ⟨⟨"L", 30, 10⟩, 0⟩ (some 50) none slow d w ns ∧
    (∃ t v, ⟨t, .returned v⟩ ∈ ns ∧ slow.now + 50 < t) ∧
    ∃ b e r, [⟨b, .began⟩, ⟨e, .ended r⟩] <:+: ns ∧ b ≤ slow.now + 50 ∧ slow.now + 50 < e := by
  obtain ⟨d, w, so⟩ := slow_waits
  obtain ⟨-, hiff, -⟩ := late_iff_attempt_late so
  have hlate : ∃ t v, (⟨t, .returned v⟩ : Note) ∈ ([⟨0, .began⟩, ⟨100, .ended (.ok none)⟩,
      ⟨100, .returned (.ok none)⟩] : List Note) ∧ slow.now + 50 < t :=
    ⟨100, .ok none, by simp, by decide⟩
  exact ⟨d, w, _, so, hlate, hiff.mp hlate⟩

/-- So a wait may last longer than it was to. -/
theorem wait_overstays : ¬ ∀ (name : String) (o : Lock.Options) (l : PlacedLock) (ms : Nat)
    (d₀ d : Deployment) (w : Waiting) (ns : List Note), Lock.ofName name o = .ok l.lock →
    Waits l (some ms) none d₀ d w ns → ∀ t v, ⟨t, .returned v⟩ ∈ ns → t ≤ d₀.now + ms := by
  intro hbound
  obtain ⟨d, w, so⟩ := slow_waits
  have hlock : Lock.ofName "L" { hold := 30, sleep := 10 } = .ok ⟨"L", 30, 10⟩ := by
    decide +kernel
  have hle := hbound "L" _ _ 50 slow d w _ hlock so 100 (.ok none) (by simp)
  exact absurd hle (by decide)

end Deployment
end Holdfast
