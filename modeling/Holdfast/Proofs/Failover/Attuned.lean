import Holdfast.Proofs.Failover.Run
import Holdfast.Proofs.Reader

namespace Holdfast.Deployment

open Failover Memory Store

/-- Where there is a sentinel, another that differs in its readers alone. -/
def Alike (a b : Directory) : Prop :=
  ∀ s : Sentinel, a = .sentinel s → ∃ s', b = .sentinel s' ∧ s.Same s'

/-- What a listener may still have to read after one thing has happened: at most the end of its
stream, or the news that there is. -/
def Expected (news : Option String) (pending : List PeerEvent) : Prop :=
  pending = [] ∨ pending = [.disconnect] ∨
    ∃ payload, news = some payload ∧ pending = [.message channel payload]

/-- A listener holds no other stream than one of its peer, where it has nothing to read but what is
expected, and waits for no answer. -/
structure Attuned (s : Sentinel) (news : Option String) (now : Nat) (l : Listener Stream) :
    Prop where
  stream : ∀ {stream}, l.stream? = some stream → ∃ r pending, stream = .reader r ∧
    s.Reads l.peer r pending ∧ Expected news pending
  due : ∀ {due answer}, l.phase = .asking due answer → due ≤ now

/-- A listener that has nothing to do: it has read all, or waits to subscribe, or has terminated. -/
inductive Rests (s : Sentinel) (l : Listener Stream) : Prop
  | listening {r : Reader} : l.phase = .listening (.reader r) → s.Reads l.peer r [] → Rests s l
  | pausing {due : Nat} : l.phase = .pausing due → Rests s l
  | terminated : l.phase = .terminated → Rests s l

/-- No listener of a monitor can go on. -/
def Quiet (id : Nat) (d : Deployment) : Prop :=
  ∀ index heeds, d.moveListener id index heeds = none

variable {d d' : Deployment} {id : Nat} {m : Monitor} {l : Listener Stream} {s s' : Sentinel}
  {news : Option String} {notes : List Note}

theorem Steps.sentinel {deed : Deed} {phase : Listener.Phase Stream}
    (h : Steps d m l deed d' phase) : Alike d.directory d'.directory := by
  have hgone : ∀ stream : Stream, Alike d.directory (d.unsubscribe stream).directory := by
    intro stream s hs
    unfold unsubscribe
    split
    · next r sentinel hsentinel =>
      rw [hs] at hsentinel
      cases hsentinel
      exact ⟨_, rfl, Sentinel.unsubscribe_same s r⟩
    · exact ⟨s, hs, .refl s⟩
  have hstays : Alike d.directory d.directory := fun s hs => ⟨s, hs, .refl s⟩
  cases h with
  | start | accept | refuse | resume => exact hstays
  | stop =>
    unfold hangUp
    split
    · exact hgone _
    · exact hstays
  | ask _ hask =>
    intro s hs
    unfold subscribe at hask
    split at hask
    · cases hask
      exact ⟨s, hs, .refl s⟩
    · next sentinel hsentinel _ =>
      rw [hs] at hsentinel
      cases hsentinel
      cases hask
      exact ⟨_, rfl, Sentinel.subscribe_same s _ _⟩
    · next script hscript _ =>
      rw [hs] at hscript
      cases hscript
  | apply =>
    rw [applySwitch_pools]
    exact hstays
  | lose => exact hgone _

theorem hear_reader (hdirectory : d.directory = .sentinel s) (r : Reader) :
    d.hear (.reader r) = ((s.next r).1, .reader (s.next r).2) := by
  unfold hear
  rw [hdirectory]

theorem subscribe_sentinel (hdirectory : d.directory = .sentinel s) (peer : Endpoint)
    (channel : String) : d.subscribe .memory peer channel =
      ({ d with directory := .sentinel (s.subscribe peer channel).1 }, d.now,
        (s.subscribe peer channel).2.map .reader) := by
  unfold subscribe
  rw [hdirectory]

/-- A listener stays attuned as it goes on, and applies nothing but the news. -/
theorem Attuned.step {deed : Deed} {phase : Listener.Phase Stream} (h : Attuned s news d.now l)
    (hsound : s.Sound) (hsteps : Steps d m l deed d' phase)
    (hdirectory : d.directory = .sentinel s') (hsame : s.Same s') (hmemory : m.backend = .memory) :
    Attuned s news d'.now { l with phase := phase } ∧
      ∀ payload, deed = .applied payload → news = some payload := by
  have hnow : d'.now = d.now := hsteps.now
  cases hsteps with
  | start | stop | refuse | lose | resume => exact ⟨⟨nofun, nofun⟩, nofun⟩
  | ask hphase hask =>
    rw [hmemory, subscribe_sentinel hdirectory] at hask
    cases hask
    refine ⟨⟨?_, ?_⟩, nofun⟩
    · intro stream hstream
      cases hanswer : (s'.subscribe l.peer channel).2 with
      | error f =>
        rw [hanswer] at hstream
        cases hstream
      | ok r =>
        rw [hanswer] at hstream
        cases hstream
        have hreads := Sentinel.Reads.of_subscribe (hsound.same hsame) (Prod.ext rfl hanswer)
        have hback := hsame.trans (Sentinel.subscribe_same s' l.peer channel)
        exact ⟨r, [], rfl, hreads.same hback.symm, .inl rfl⟩
    · intro due answer hasking
      cases hasking
      exact Nat.le_refl _
  | accept hphase _ =>
    refine ⟨⟨?_, nofun⟩, nofun⟩
    intro stream hstream
    apply h.stream
    rw [Listener.stream?, hphase]
    exact hstream
  | @apply stream stream' payload hphase hhear =>
    obtain ⟨r, pending, rfl, hreads, hexpected⟩ := h.stream (by rw [Listener.stream?, hphase])
    have hreads' := hreads.same hsame
    rw [hear_reader hdirectory] at hhear
    rcases hexpected with rfl | rfl | ⟨_, hnews, rfl⟩
    · rw [hreads'.next_nil] at hhear
      cases hhear
    · obtain ⟨_, hnext⟩ := hreads'.next_disconnect
      rw [hnext] at hhear
      cases hhear
    · obtain ⟨r', hnext, hread⟩ := hreads'.next_message
      rw [hnext] at hhear
      cases hhear
      refine ⟨⟨?_, nofun⟩, ?_⟩
      · intro stream hstream
        cases hstream
        exact ⟨r', [], rfl, hread.same hsame.symm, .inl rfl⟩
      · intro payload hdeed
        cases hdeed
        exact hnews

/-- The listeners of a monitor are attuned to a sentinel, of which no more than the readers may have
changed meanwhile. -/
structure Tuned (s : Sentinel) (news : Option String) (id : Nat) (d : Deployment) : Prop where
  directory : ∃ s', d.directory = .sentinel s' ∧ s.Same s'
  listener : ∀ {m l}, d.monitors[id]? = some m → l ∈ m.listeners → Attuned s news d.now l

theorem Tuned.move {index : Nat} {heeds : Bool} {note : Note} (h : Tuned s news id d)
    (hsound : s.Sound) (hm : d.monitors[id]? = some m) (hmemory : m.backend = .memory)
    (hmove : d.moveListener id index heeds = some (note, d')) :
    Tuned s news id d' ∧ ∀ payload, note.deed = .applied payload → news = some payload := by
  obtain ⟨s', hdirectory, hsame⟩ := h.directory
  obtain ⟨m₁, l, d₁, phase, hm₁, hl, -, -, hsteps, rfl⟩ := moveListener_steps hmove
  cases hm.symm.trans hm₁
  obtain ⟨hattuned, hnews⟩ := (h.listener hm (List.mem_of_getElem? hl)).step hsound hsteps
    hdirectory hsame hmemory
  refine ⟨⟨?_, ?_⟩, hnews⟩
  · obtain ⟨s'', hs'', hlater⟩ := hsteps.sentinel _ hdirectory
    exact ⟨s'', hs'', hsame.trans hlater⟩
  · intro m' l' hm' hl'
    dsimp only at hm'
    rw [List.getElem?_set_self (List.getElem?_eq_some_iff.mp hm).1] at hm'
    cases hm'
    rcases List.mem_or_eq_of_mem_set hl' with hold | rfl
    · have hnow : d₁.now = d.now := hsteps.now
      dsimp only
      rw [hnow]
      exact h.listener hm hold
    · exact hattuned

/-- Whatever else goes on, listeners that are attuned stay so, and apply nothing but the news. -/
theorem Listens.tuned {n : Nat} (h : Listens (Aside Alike id n) id d d' notes)
    (hsound : s.Sound) (hm : d.monitors[id]? = some m) (hmemory : m.backend = .memory)
    (hbegin : Tuned s news id d) :
    Tuned s news id d' ∧ ∀ payload ∈ applied notes, news = some payload := by
  induction h with
  | here => exact ⟨hbegin, nofun⟩
  | @move d₁ d₂ notes index heeds note hrun hmove ih =>
    obtain ⟨htuned, hold⟩ := ih
    obtain ⟨m₁, hm₁, hlater⟩ := hrun.monitor (keeps_aside _ _ n) hm
    obtain ⟨htuned', hnew⟩ := htuned.move hsound hm₁ (hlater.backend.trans hmemory) hmove
    refine ⟨htuned', ?_⟩
    intro payload hpayload
    rw [applied_append] at hpayload
    rcases List.mem_append.mp hpayload with hpayload | hpayload
    · exact hold payload hpayload
    · obtain ⟨note', hnote', hdeed⟩ := List.mem_filterMap.mp hpayload
      cases List.mem_singleton.mp hnote'
      apply hnew
      cases hd : note.deed <;> simp [hd, Deed.payload?] at hdeed
      rw [hdeed]
  | meanwhile hrun hmean ih =>
    obtain ⟨htuned, hold⟩ := ih
    refine ⟨⟨?_, ?_⟩, hold⟩
    · obtain ⟨s', hs', hsame⟩ := htuned.directory
      obtain ⟨s'', hs'', hlater⟩ := hmean.directory _ hs'
      exact ⟨s'', hs'', hsame.trans hlater⟩
    · intro m' l hm' hl
      rw [hmean.monitor] at hm'
      obtain ⟨hstream, hdue⟩ := htuned.listener hm' hl
      exact ⟨hstream, fun hasking => Nat.le_trans (hdue hasking) hmean.now⟩

end Holdfast.Deployment
