import Holdfast.Proofs.Failover.Attuned

namespace Holdfast.Deployment

open Failover Memory Store

variable {d d' : Deployment} {id : Nat} {m : Monitor} {l : Listener Stream} {s s' : Sentinel}
  {news : Option String} {notes : List Note}

namespace Rests

theorem same (h : Rests s l) (hsame : s.Same s') : Rests s' l := by
  cases h with
  | listening hphase hreads => exact .listening hphase (hreads.same hsame)
  | pausing hphase => exact .pausing hphase
  | terminated hphase => exact .terminated hphase

/-- When something happens to the peers, a listener that rests is attuned to it if it has no more to
read of it than is expected. -/
theorem attuned (h : Rests s l) {now : Nat} (hreads : ∀ r, l.phase = .listening (.reader r) →
    s.Reads l.peer r [] → ∃ pending, s'.Reads l.peer r pending ∧ Expected news pending) :
    Attuned s' news now l := by
  cases h with
  | @listening r hphase hread =>
    obtain ⟨pending, hread', hexpected⟩ := hreads r hphase hread
    refine ⟨?_, ?_⟩
    · intro stream hstream
      rw [Listener.stream?, hphase] at hstream
      cases hstream
      exact ⟨r, pending, rfl, hread', hexpected⟩
    · intro due answer hasking
      cases hphase.symm.trans hasking
  | pausing hphase | terminated hphase =>
    refine ⟨?_, ?_⟩
    · intro stream hstream
      rw [Listener.stream?, hphase] at hstream
      cases hstream
    · intro due answer hasking
      cases hphase.symm.trans hasking

theorem listens (h : Rests s l) (hstate : l.state = .listening) :
    ∃ r, l.phase = .listening (.reader r) ∧ s.Reads l.peer r [] := by
  cases h with
  | @listening r hphase hreads => exact ⟨r, hphase, hreads⟩
  | pausing hphase | terminated hphase =>
    rw [Listener.state, hphase] at hstate
    cases hstate

end Rests

theorem Tuned.rests (h : Tuned s news id d) (hquiet : Quiet id d) (hm : d.monitors[id]? = some m)
    (hl : l ∈ m.listeners) : Rests s l := by
  obtain ⟨s', hdirectory, hsame⟩ := h.directory
  obtain ⟨hstream, hdue⟩ := h.listener hm hl
  obtain ⟨i, hi⟩ := List.getElem?_of_mem hl
  have hstill : d.carryOn m l = none := carryOn_of_still hquiet hm hi
  unfold carryOn at hstill
  split at hstill
  · cases hstill
  · cases hstill
  · next due answer hphase =>
    rw [if_pos (hdue hphase)] at hstill
    cases hstill
  · next stream hphase =>
    obtain ⟨r, pending, rfl, hreads, hexpected⟩ := hstream (by rw [Listener.stream?, hphase])
    have hreads' := hreads.same hsame
    rw [hear_reader hdirectory] at hstill
    rcases hexpected with rfl | rfl | ⟨payload, -, rfl⟩
    · exact .listening hphase hreads
    · obtain ⟨r', hnext⟩ := hreads'.next_disconnect
      rw [hnext] at hstill
      cases hstill
    · obtain ⟨r', hnext, -⟩ := hreads'.next_message
      rw [hnext] at hstill
      cases hstill
  · next due hphase => exact .pausing hphase
  · next hphase => exact .terminated hphase

/-- A listener that has a payload to read applies it when it goes on, unless it is cancelled. -/
theorem Steps.applies {deed : Deed} {phase : Listener.Phase Stream} {r : Reader} {payload : String}
    (h : Steps d m l deed d' phase) (hdirectory : d.directory = .sentinel s)
    (hcancelled : m.isCancelled = false) (hphase : l.phase = .listening (.reader r))
    (hreads : s.Reads l.peer r [.message channel payload]) : deed = .applied payload := by
  obtain ⟨r', hnext, -⟩ := hreads.next_message
  have hnews := hear_reader hdirectory r
  rw [hnext] at hnews
  cases h with
  | stop hstopped => cases hcancelled.symm.trans hstopped
  | start hother | ask hother | accept hother | refuse hother | resume hother =>
    cases hphase.symm.trans hother
  | apply hother hhear =>
    cases hphase.symm.trans hother
    cases hnews.symm.trans hhear
    rfl
  | lose hother hhear =>
    cases hphase.symm.trans hother
    cases hnews.symm.trans hhear

/-- A listener with a payload to read stays where it is until the payload has been applied. -/
theorem Listens.hears {n : Nat} (h : Listens (Aside Alike id n) id d d' notes)
    (hsound : s.Sound) (hm : d.monitors[id]? = some m) (hmemory : m.backend = .memory)
    (hcancelled : m.isCancelled = false) (hbegin : Tuned s news id d) {i : Nat}
    (hl : m.listeners[i]? = some l) {r : Reader} (hphase : l.phase = .listening (.reader r))
    {payload : String} (hreads : s.Reads l.peer r [.message channel payload]) :
    payload ∈ applied notes ∨ ∃ m', d'.monitors[id]? = some m' ∧ m'.listeners[i]? = some l := by
  induction h with
  | here => exact .inr ⟨m, hm, hl⟩
  | @move d₁ d₂ notes index heeds note hrun hmove ih =>
    rcases ih with hold | ⟨m₁, hm₁, hl₁⟩
    · refine .inl ?_
      rw [applied_append]
      exact List.mem_append_left _ hold
    · obtain ⟨m₂, l₂, d₃, phase, hm₂, hl₂, -, -, hsteps, rfl⟩ := moveListener_steps hmove
      cases hm₁.symm.trans hm₂
      by_cases hi : index = i
      · subst hi
        cases hl₁.symm.trans hl₂
        obtain ⟨⟨s', hdirectory, hsame⟩, -⟩ := (hrun.tuned hsound hm hmemory hbegin).1
        have hdeed := hsteps.applies hdirectory ((hrun.isCancelled hm hm₁).trans hcancelled) hphase
          (hreads.same hsame)
        refine .inl ?_
        rw [applied_append]
        apply List.mem_append_right
        simp [applied, hdeed, Deed.payload?]
      · refine .inr ⟨_, List.getElem?_set_self (List.getElem?_eq_some_iff.mp hm₁).1, ?_⟩
        dsimp only
        rwa [List.getElem?_set_ne hi]
  | meanwhile _ hmean ih =>
    rcases ih with hold | ⟨m₁, hm₁, hl₁⟩
    · exact .inl hold
    · exact .inr ⟨m₁, by rwa [hmean.monitor], hl₁⟩

/-- What a listener has to read has been applied when all rest again. -/
theorem Listens.heard {n : Nat} (h : Listens (Aside Alike id n) id d d' notes)
    (hquiet : Quiet id d') (hsound : s.Sound) (hm : d.monitors[id]? = some m)
    (hmemory : m.backend = .memory) (hcancelled : m.isCancelled = false)
    (hbegin : Tuned s news id d) (hl : l ∈ m.listeners) {r : Reader}
    (hphase : l.phase = .listening (.reader r)) {payload : String}
    (hreads : s.Reads l.peer r [.message channel payload]) : payload ∈ applied notes := by
  obtain ⟨i, hi⟩ := List.getElem?_of_mem hl
  rcases h.hears hsound hm hmemory hcancelled hbegin hi hphase hreads with happlied | ⟨m', hm', hl'⟩
  · exact happlied
  · have htuned := (h.tuned hsound hm hmemory hbegin).1
    have hstate : l.state = .listening := by rw [Listener.state, hphase]
    obtain ⟨r', hphase', hread⟩ :=
      (htuned.rests hquiet hm' (List.mem_of_getElem? hl')).listens hstate
    cases hphase.symm.trans hphase'
    cases hreads.unique hread

end Holdfast.Deployment
