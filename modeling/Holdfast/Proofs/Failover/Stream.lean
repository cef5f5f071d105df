import Holdfast.Proofs.Failover.Run
import Holdfast.Proofs.Table

namespace Holdfast

open Failover Store

namespace Failover.Script

/-- What is laid down for the subscriptions to a peer that are still to come. -/
def left (s : Script) (peer : Endpoint) : List Subscription := (s.subscriptions.get? peer).getD []

def Subscription.promise (s : Subscription) : Option (List String) :=
  match s.outcome with
  | .ok items => some (messages items)
  | .error _ => none

/-- All payloads that a peer has in store, over all its subscriptions. -/
def payloads (s : Script) (peer : Endpoint) : List String :=
  (s.left peer).flatMap fun sub => sub.promise.getD []

/-- Peers with one stream each, which brings all its payloads at once. -/
def ofPayloads (payloads : Table Endpoint (List String)) : Script :=
  { subscriptions := payloads.map fun (peer, payloads) =>
      (peer, [⟨.ok (payloads.map fun payload => ⟨0, .message payload⟩), 0⟩]) }

theorem payloads_next {s s' : Script} {peer : Endpoint} (h : s'.left peer = (s.left peer).tail) :
    (((s.left peer).head?.bind Subscription.promise).getD []) ++ s'.payloads peer =
      s.payloads peer := by
  unfold payloads
  rw [h]
  cases s.left peer <;> rfl

theorem payloads_congr {s s' : Script} {peer : Endpoint} (h : s'.left peer = s.left peer) :
    s'.payloads peer = s.payloads peer := by
  unfold payloads
  rw [h]

end Failover.Script

namespace Deployment

/-- What the script has in store for the subscriptions that are still to come. -/
def inStore (d : Deployment) (peer : Endpoint) : List String :=
  match d.directory with
  | .script s => s.payloads peer
  | .sentinel _ => []

/-- What a listener has not heard yet. -/
def awaited (d : Deployment) (l : Listener Stream) : List String :=
  (l.stream?.map Stream.messages).getD [] ++ d.inStore l.peer

/-- A listener that reads no feed. -/
def IsScripted (l : Listener Stream) : Prop := ∀ r, l.stream? ≠ some (.reader r)

/-- A subscription is logged, and the peer answers with what is laid down next for it. -/
theorem subscribe_script {d d' : Deployment} {script : Failover.Script} {peer : Endpoint}
    {channel : String} {due : Nat} {answer : Except Failure Stream}
    (hscript : d.directory = .script script)
    (h : d.subscribe .memory peer channel = (d', due, answer)) :
    ∃ script', d'.directory = .script script' ∧
      script'.subscribed = script.subscribed ++ [⟨peer, channel, d.now⟩] ∧
      script'.left peer = (script.left peer).tail ∧
      (∀ other ≠ peer, script'.left other = script.left other) ∧
      promise answer = (script.left peer).head?.bind Script.Subscription.promise ∧
      ∀ s, answer = .ok s → ∃ items, s = .scripted items := by
  unfold subscribe Script.subscribe at h
  simp only [hscript] at h
  split at h
  · next next rest hnext =>
    cases h
    refine ⟨_, rfl, rfl, ?_, ?_, ?_, ?_⟩
    · simp [Script.left, hnext]
    · intro other hother
      simp [Script.left, Table.get?_set_ne _ _ hother]
    · simp only [Script.left, hnext, Option.getD_some, List.head?_cons, Option.bind_some,
        Script.Subscription.promise]
      cases next.outcome <;> rfl
    · intro s hs
      cases hoc : next.outcome with
      | error f => simp [hoc, Except.map] at hs
      | ok items =>
        simp only [hoc, Except.map, Except.ok.injEq] at hs
        exact ⟨_, hs.symm⟩
  · next hnone =>
    cases h
    have hleft : script.left peer = [] := by
      unfold Script.left
      cases hget : script.subscriptions.get? peer with
      | none => rfl
      | some later =>
        cases later with
        | nil => rfl
        | cons next rest => exact absurd hget (hnone next rest)
    refine ⟨_, rfl, rfl, ?_, fun _ _ => rfl, ?_, ?_⟩
    · change script.left peer = _
      rw [hleft]
      rfl
    · rw [hleft]
      rfl
    · intro s hs
      cases hs

/-- What is heard on a scripted stream comes from its items. -/
theorem hear_scripted {d : Deployment} {s : Failover.Script.Stream} {heard : Memory.Heard}
    {stream : Stream} (h : d.hear (.scripted s) = (heard, stream)) :
    (∃ s', stream = .scripted s') ∧
      (∀ payload, heard = .message payload → Script.messages s.items = payload :: stream.messages) ∧
      (heard = .ended → Script.messages s.items = []) := by
  obtain ⟨since, items⟩ := s
  simp only [hear, Script.Stream.next?] at h
  cases items with
  | nil =>
    cases h
    exact ⟨⟨_, rfl⟩, by simp, by simp⟩
  | cons item items =>
    obtain ⟨after, news⟩ := item
    by_cases hdue : since + after ≤ d.now
    · cases news with
      | message payload =>
        simp only [hdue, if_true, Prod.mk.injEq] at h
        obtain ⟨rfl, rfl⟩ := h
        refine ⟨⟨_, rfl⟩, ?_, by simp⟩
        intro p hp
        cases hp
        rfl
      | lost =>
        simp only [hdue, if_true, Prod.mk.injEq] at h
        obtain ⟨rfl, rfl⟩ := h
        exact ⟨⟨_, rfl⟩, by simp, fun _ => rfl⟩
    · simp only [hdue, if_false, Prod.mk.injEq] at h
      obtain ⟨rfl, rfl⟩ := h
      exact ⟨⟨_, rfl⟩, by simp, by simp⟩

variable {d d' : Deployment} {m : Monitor} {l : Listener Stream} {deed : Deed}
  {phase : Listener.Phase Stream} {script : Failover.Script}

theorem unsubscribe_script (hscript : d.directory = .script script) (s : Stream) :
    d.unsubscribe s = d := by
  unfold unsubscribe
  rw [hscript]
  cases s <;> rfl

theorem hangUp_script (hscript : d.directory = .script script) (l : Listener Stream) :
    d.hangUp l = d := by
  unfold hangUp
  split
  · exact unsubscribe_script hscript _
  · rfl

/-- Of all steps of a listener only a question concerns the script: it is logged, and what is laid
down next for the peer of the listener is its answer. -/
theorem Steps.directory_script (h : Steps d m l deed d' phase)
    (hscript : d.directory = .script script) (hmemory : m.backend = .memory) :
    ∃ script', d'.directory = .script script' ∧
      script'.subscribed = script.subscribed ++
        (deed.promise?.map fun _ => ⟨l.peer, channel, d.now⟩).toList ∧
      (∀ other ≠ l.peer, script'.left other = script.left other) ∧
      script'.left l.peer = (script.left l.peer).drop deed.promise?.toList.length ∧
      ∀ promise, deed.promise? = some promise →
        promise = (script.left l.peer).head?.bind Script.Subscription.promise := by
  have hkept : d'.directory = d.directory → deed.promise? = none →
      ∃ script', d'.directory = .script script' ∧
        script'.subscribed = script.subscribed ++
          (deed.promise?.map fun _ => ⟨l.peer, channel, d.now⟩).toList ∧
        (∀ other ≠ l.peer, script'.left other = script.left other) ∧
        script'.left l.peer = (script.left l.peer).drop deed.promise?.toList.length ∧
        ∀ promise, deed.promise? = some promise →
          promise = (script.left l.peer).head?.bind Script.Subscription.promise := by
    intro hsame hnone
    exact ⟨script, hsame.trans hscript, by simp [hnone], fun _ _ => rfl, by simp [hnone],
      by simp [hnone]⟩
  cases h with
  | start | accept | refuse | resume => exact hkept rfl rfl
  | stop => exact hkept (by rw [hangUp_script hscript]) rfl
  | apply => exact hkept (by rw [applySwitch_pools]) rfl
  | lose => exact hkept (by rw [unsubscribe_script hscript]) rfl
  | ask _ hask =>
    rw [hmemory] at hask
    obtain ⟨script', hdir, hlog, hleft, hother, hpromise, -⟩ := subscribe_script hscript hask
    refine ⟨script', hdir, hlog, hother, ?_, ?_⟩
    · rw [hleft]
      exact List.drop_one.symm
    · intro promise hp
      cases hp
      exact hpromise

theorem awaited_eq {own : Option Stream} (hown : l.stream? = own) (d : Deployment) :
    d.awaited l = (own.map Stream.messages).getD [] ++ d.inStore l.peer := by
  rw [awaited, hown]

theorem inStore_congr (h : d'.directory = d.directory) (peer : Endpoint) :
    d'.inStore peer = d.inStore peer := by
  unfold inStore
  rw [h]

/-- A listener that goes on loses nothing of what it awaits and hears nothing twice. -/
theorem Steps.awaited (h : Steps d m l deed d' phase) (hscript : d.directory = .script script)
    (hmemory : m.backend = .memory) (hscripted : IsScripted l) (hgoes : phase ≠ .terminated) :
    IsScripted { l with phase := phase } ∧
      deed.payload?.toList ++ d'.awaited { l with phase := phase } = d.awaited l := by
  cases h with
  | stop => exact absurd rfl hgoes
  | start hphase | resume hphase _ | refuse hphase _ =>
    have hnone : l.stream? = none := by rw [Listener.stream?, hphase]
    refine ⟨fun _ => nofun, ?_⟩
    rw [awaited_eq hnone]
    rfl
  | @accept due s hphase =>
    have hsome : l.stream? = some s := by rw [Listener.stream?, hphase]
    refine ⟨fun r => ?_, ?_⟩
    · have hr := hscripted r
      rwa [hsome] at hr
    · rw [awaited_eq hsome]
      rfl
  | @ask _ due answer hphase hask =>
    rw [hmemory] at hask
    obtain ⟨script', hdir, -, hleft, -, hpromise, hscripted'⟩ := subscribe_script hscript hask
    have hnone : l.stream? = none := by rw [Listener.stream?, hphase]
    have hold : d.inStore l.peer = script.payloads l.peer := by rw [inStore, hscript]
    have hnew : d'.inStore l.peer = script'.payloads l.peer := by rw [inStore, hdir]
    have hnext := Script.payloads_next hleft
    rw [← hpromise] at hnext
    cases answer with
    | error f =>
      refine ⟨fun _ => nofun, ?_⟩
      rw [awaited_eq hnone, hold, ← hnext, ← hnew]
      rfl
    | ok s =>
      obtain ⟨items, rfl⟩ := hscripted' s rfl
      refine ⟨fun _ => nofun, ?_⟩
      rw [awaited_eq hnone, hold, ← hnext, ← hnew]
      rfl
  | @apply s s' payload hphase hhear =>
    have hsome : l.stream? = some s := by rw [Listener.stream?, hphase]
    cases s with
    | reader r => exact absurd hsome (hscripted r)
    | scripted s =>
      obtain ⟨⟨items, rfl⟩, hmessages, -⟩ := hear_scripted hhear
      have hkept : (d.applySwitch m.router payload).directory = d.directory := by
        rw [applySwitch_pools]
      refine ⟨fun _ => nofun, ?_⟩
      rw [awaited_eq hsome, ← inStore_congr hkept]
      simp only [Option.map_some, Option.getD_some, Stream.messages, hmessages payload rfl]
      rfl
  | @lose s s' hphase hhear =>
    have hsome : l.stream? = some s := by rw [Listener.stream?, hphase]
    cases s with
    | reader r => exact absurd hsome (hscripted r)
    | scripted s =>
      obtain ⟨-, -, hmessages⟩ := hear_scripted hhear
      refine ⟨fun _ => nofun, ?_⟩
      rw [awaited_eq hsome, unsubscribe_script hscript]
      simp only [Option.map_some, Option.getD_some, Stream.messages, hmessages rfl]
      rfl

end Deployment
end Holdfast
