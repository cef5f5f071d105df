import Holdfast.Deployment.Clock
import Holdfast.Proofs.Failover.News

namespace Holdfast

open Failover Store

namespace Failover

/-- The payloads of a scripted stream, up to its loss. -/
def Script.messages : List Item → List String
  | [] => []
  | ⟨_, .message payload⟩ :: items => payload :: messages items
  | ⟨_, .lost⟩ :: _ => []

end Failover

/-- The payloads that are laid down for a stream; none are for one that reads a feed. -/
def Stream.messages : Stream → List String
  | .scripted s => Script.messages s.items
  | .reader _ => []

namespace Failover

/-- What a peer promises with its answer to a subscription, or none when it refuses. -/
def promise (answer : Except Failure Stream) : Option (List String) :=
  answer.toOption.map Stream.messages

/-- What can be noted of a listener: that it came to a state, that it asked for a subscription and
what it was promised then, and that it applied a payload. -/
inductive Deed
  | entered (state : ListenerState)
  | asked (promise : Option (List String))
  | applied (payload : String)
deriving DecidableEq, Repr

def Deed.payload? : Deed → Option String
  | applied payload => some payload
  | _ => none

def Deed.promise? : Deed → Option (Option (List String))
  | asked promise => some promise
  | _ => none

/-- What was noted of one of several listeners, and when. -/
structure Note where
  index : Nat
  time : Nat
  deed : Deed
deriving DecidableEq, Repr

end Failover

namespace Deployment

/-- What is to be noted of a step of a listener. -/
def deed (d : Deployment) (l l' : Listener Stream) : Deed :=
  match l.phase, l'.phase with
  | .subscribing, .asking _ answer => .asked (promise answer)
  | .listening s, .listening _ =>
    match d.hear s with
    | (.message payload, _) => .applied payload
    | _ => .entered l'.state
  | _, _ => .entered l'.state

/-- Everything that a step of a listener can come to: what is noted, what becomes of the deployment,
and where the listener stands then. -/
inductive Steps (d : Deployment) (m : Monitor) (l : Listener Stream) :
    Deed → Deployment → Listener.Phase Stream → Prop
  | start : l.phase = .starting → Steps d m l (.entered .subscribing) d .subscribing
  | stop : m.isCancelled = true → l.isWaiting = true →
    Steps d m l (.entered .terminated) (d.hangUp l) .terminated
  | ask {d' : Deployment} {due : Nat} {answer : Except Failure Stream} : l.phase = .subscribing →
    d.subscribe m.backend l.peer channel = (d', due, answer) →
    Steps d m l (.asked (promise answer)) d' (.asking due answer)
  | accept {due : Nat} {s : Stream} : l.phase = .asking due (.ok s) → due ≤ d.now →
    Steps d m l (.entered .listening) d (.listening s)
  | refuse {due : Nat} {f : Failure} : l.phase = .asking due (.error f) → due ≤ d.now →
    Steps d m l (.entered .disconnected) d (.pausing (d.now + m.backoff))
  | apply {s s' : Stream} {payload : String} : l.phase = .listening s →
    d.hear s = (.message payload, s') →
    Steps d m l (.applied payload) (d.applySwitch m.router payload) (.listening s')
  | lose {s s' : Stream} : l.phase = .listening s → d.hear s = (.ended, s') →
    Steps d m l (.entered .disconnected) (d.unsubscribe s') (.pausing (d.now + m.backoff))
  | resume {due : Nat} : l.phase = .pausing due → due ≤ d.now →
    Steps d m l (.entered .subscribing) d .subscribing

variable {d d' : Deployment} {m : Monitor} {l l' : Listener Stream}

theorem carryOn_steps (h : d.carryOn m l = some (d', l')) :
    Steps d m l (d.deed l l') d' l'.phase ∧ l' = { l with phase := l'.phase } := by
  unfold carryOn at h
  split at h
  · next hphase =>
    cases h
    refine ⟨?_, rfl⟩
    simp only [deed, hphase]
    exact .start hphase
  · next hphase =>
    cases h
    refine ⟨?_, rfl⟩
    simp only [deed, hphase]
    exact .ask hphase rfl
  · next due answer hphase =>
    split at h
    · next hdue =>
      cases h
      refine ⟨?_, rfl⟩
      simp only [deed, hphase, Listener.subscribed, Listener.lost]
      cases answer with
      | ok s => exact .accept hphase hdue
      | error f => exact .refuse hphase hdue
    · cases h
  · next s hphase =>
    split at h
    · cases h
    · next payload s' hhear =>
      cases h
      refine ⟨?_, rfl⟩
      simp only [deed, hphase, hhear]
      exact .apply hphase hhear
    · next s' hhear =>
      cases h
      refine ⟨?_, rfl⟩
      simp only [deed, hphase, Listener.lost]
      exact .lose hphase hhear
  · next due hphase =>
    split at h
    · next hdue =>
      cases h
      refine ⟨?_, rfl⟩
      simp only [deed, hphase]
      exact .resume hphase hdue
    · cases h
  · cases h

theorem stepListener_steps (h : d.stepListener m l = some (d', l')) :
    Steps d m l (d.deed l l') d' l'.phase ∧ l' = { l with phase := l'.phase } := by
  unfold stepListener at h
  split at h
  · next hends =>
    obtain ⟨hcancelled, hwaits⟩ := Bool.and_eq_true_iff.mp hends
    cases h
    refine ⟨?_, rfl⟩
    have hdeed : d.deed l { l with phase := .terminated } = .entered .terminated := by
      unfold deed
      cases l.phase <;> rfl
    rw [hdeed]
    exact .stop hcancelled hwaits
  · exact carryOn_steps h

theorem subscribe_directory (d : Deployment) (b : Backend) (peer : Endpoint) (channel : String) :
    (d.subscribe b peer channel).1 =
      { d with directory := (d.subscribe b peer channel).1.directory } := by
  unfold subscribe
  split <;> rfl

theorem unsubscribe_directory (d : Deployment) (s : Stream) :
    d.unsubscribe s = { d with directory := (d.unsubscribe s).directory } := by
  unfold unsubscribe
  split <;> rfl

theorem hangUp_directory (d : Deployment) (l : Listener Stream) :
    d.hangUp l = { d with directory := (d.hangUp l).directory } := by
  unfold hangUp
  split
  · exact unsubscribe_directory d _
  · rfl

theorem applySwitch_pools (d : Deployment) (router : Nat) (payload : String) :
    d.applySwitch router payload = { d with
      pools := (d.applySwitch router payload).pools
      routers := (d.applySwitch router payload).routers } := by
  unfold applySwitch
  split <;> rfl

/-- A step leaves all but the directory and the router's table as it is, and only what is noted as
applied comes to the table. -/
theorem Steps.deployment {deed : Deed} {phase : Listener.Phase Stream}
    (h : Steps d m l deed d' phase) :
    d' = { (match deed.payload? with
        | some payload => d.applySwitch m.router payload
        | none => d) with directory := d'.directory } := by
  cases h with
  | start | accept | refuse | resume | apply => rfl
  | stop => exact hangUp_directory d l
  | ask _ hask =>
    have hdir := subscribe_directory d m.backend l.peer channel
    rw [hask] at hdir
    exact hdir
  | lose => exact unsubscribe_directory d _

theorem Steps.monitors {deed : Deed} {phase : Listener.Phase Stream}
    (h : Steps d m l deed d' phase) : d'.monitors = d.monitors := by
  rw [h.deployment]
  cases deed.payload? with
  | none => rfl
  | some payload =>
    dsimp only
    rw [applySwitch_pools]

theorem Steps.now {deed : Deed} {phase : Listener.Phase Stream}
    (h : Steps d m l deed d' phase) : d'.now = d.now := by
  rw [h.deployment]
  cases deed.payload? with
  | none => rfl
  | some payload =>
    dsimp only
    rw [applySwitch_pools]

theorem Steps.goes {deed : Deed} {phase : Listener.Phase Stream} (h : Steps d m l deed d' phase) :
    l.phase ≠ .terminated := by
  intro hphase
  cases h <;> simp_all [Listener.isWaiting]

theorem Steps.terminated {deed : Deed} (h : Steps d m l deed d' .terminated) :
    deed = .entered .terminated ∧ m.isCancelled = true ∧ d' = d.hangUp l := by
  cases h with
  | stop hcancelled => exact ⟨rfl, hcancelled, rfl⟩

/-- The next step of a listener, which need not heed its cancellation as long as something else lets
it go on. -/
def nextStep (d : Deployment) (heeds : Bool) (m : Monitor) (l : Listener Stream) :
    Option (Deployment × Listener Stream) :=
  if heeds then d.stepListener m l else d.carryOn m l

theorem nextStep_steps {heeds : Bool} (h : d.nextStep heeds m l = some (d', l')) :
    Steps d m l (d.deed l l') d' l'.phase ∧ l' = { l with phase := l'.phase } := by
  cases heeds with
  | true => exact stepListener_steps h
  | false => exact carryOn_steps h

/-- One step of a listener of a monitor, and what is noted of it. -/
def moveListener (d : Deployment) (id index : Nat) (heeds : Bool) :
    Option (Note × Deployment) := do
  let m ← d.monitors[id]?
  let l ← m.listeners[index]?
  let (d', l') ← d.nextStep heeds m l
  return (⟨index, d.now, d.deed l l'⟩,
    { d' with monitors := d'.monitors.set id { m with listeners := m.listeners.set index l' } })

theorem carryOn_of_still {id : Nat} (h : ∀ index heeds, d.moveListener id index heeds = none)
    (hm : d.monitors[id]? = some m) {i : Nat} (hl : m.listeners[i]? = some l) : d.carryOn m l = none := by
  have hnone := h i false
  unfold moveListener at hnone
  rw [hm, Option.bind_eq_bind, Option.bind_some, hl, Option.bind_eq_bind, Option.bind_some] at hnone
  cases hstep : d.carryOn m l with
  | none => rfl
  | some out => simp [nextStep, hstep] at hnone

/-- Where all listeners wait none can go on. -/
theorem moveListener_of_waiting {id : Nat} (hm : d.monitors[id]? = some m)
    (h : ∀ l ∈ m.listeners, d.stepListener m l = none ∧ d.carryOn m l = none) (index : Nat)
    (heeds : Bool) : d.moveListener id index heeds = none := by
  unfold moveListener
  rw [hm, Option.bind_eq_bind, Option.bind_some]
  cases hl : m.listeners[index]? with
  | none => rfl
  | some l =>
    obtain ⟨hstep, hcarry⟩ := h l (List.mem_of_getElem? hl)
    cases heeds <;> simp [nextStep, hstep, hcarry]

/-- A step puts the listener in its new place and leaves the others where they are. -/
theorem moveListener_steps {id index : Nat} {heeds : Bool} {note : Note}
    (h : d.moveListener id index heeds = some (note, d')) :
    ∃ m l d₁ phase, d.monitors[id]? = some m ∧ m.listeners[index]? = some l ∧
      note.index = index ∧ note.time = d.now ∧ Steps d m l note.deed d₁ phase ∧
      d' = { d₁ with
        monitors := d.monitors.set id
          { m with listeners := m.listeners.set index { l with phase := phase } } } := by
  unfold moveListener at h
  obtain ⟨m, hm, h⟩ := Option.bind_eq_some_iff.mp h
  obtain ⟨l, hl, h⟩ := Option.bind_eq_some_iff.mp h
  obtain ⟨⟨d₁, l'⟩, hstep, h⟩ := Option.bind_eq_some_iff.mp h
  obtain ⟨hsteps, hl'⟩ := nextStep_steps hstep
  cases h
  refine ⟨m, l, d₁, l'.phase, hm, hl, rfl, rfl, hsteps, ?_⟩
  rw [← hl', hsteps.monitors]

/-- How a monitor stands after a step of one of its listeners. -/
theorem moveListener_monitor {id index : Nat} {heeds : Bool} {note : Note} {m' : Monitor}
    (h : d.moveListener id index heeds = some (note, d')) (hm' : d'.monitors[id]? = some m') :
    ∃ m l d₁ phase, d.monitors[id]? = some m ∧ m.listeners[index]? = some l ∧
      note.index = index ∧ note.time = d.now ∧ Steps d m l note.deed d₁ phase ∧
      d' = { d₁ with monitors := d.monitors.set id m' } ∧
      m' = { m with listeners := m.listeners.set index { l with phase := phase } } := by
  obtain ⟨m, l, d₁, phase, hm, hl, hindex, htime, hsteps, rfl⟩ := moveListener_steps h
  have hlt : id < d.monitors.length := (List.getElem?_eq_some_iff.mp hm).1
  dsimp only at hm'
  rw [List.getElem?_set_self hlt] at hm'
  cases hm'
  exact ⟨m, l, d₁, phase, hm, hl, hindex, htime, hsteps, rfl, rfl⟩

end Deployment
end Holdfast
