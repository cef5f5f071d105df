import Holdfast.Proofs.Failover.Stream
import Mathlib.Data.List.Chain

namespace Holdfast

open Failover Store

namespace Failover

/-- Where a listener is in its story. -/
inductive Stage
  | fresh
  | subscribing (since : Nat)
  /-- A subscription was asked for, and its peer has promised some payloads or will refuse. -/
  | asked (promise : Option (List String))
  /-- The payloads of the stream that are still to come. -/
  | listening (left : List String)
  | disconnected (since : Nat)
  | terminated

def Stage.state : Stage → ListenerState
  | fresh | disconnected _ => .disconnected
  | subscribing _ | asked _ => .subscribing
  | listening _ => .listening
  | terminated => .terminated

/-- What may be noted next of a listener, and when. It asks for a subscription once each time that it
comes to subscribe and at that very time, applies what it was promised in order while it listens, and
comes to subscribe again as long after a loss as the backoff says. -/
inductive Follows (backoff : Nat) : Stage → Nat → Deed → Stage → Prop
  | start {now : Nat} : Follows backoff .fresh now (.entered .subscribing) (.subscribing now)
  | ask {now : Nat} {promise : Option (List String)} :
    Follows backoff (.subscribing now) now (.asked promise) (.asked promise)
  | accept {now : Nat} {payloads : List String} :
    Follows backoff (.asked (some payloads)) now (.entered .listening) (.listening payloads)
  | refuse {now : Nat} : Follows backoff (.asked none) now (.entered .disconnected) (.disconnected now)
  | apply {now : Nat} {payload : String} {left : List String} :
    Follows backoff (.listening (payload :: left)) now (.applied payload) (.listening left)
  | lose {now : Nat} :
    Follows backoff (.listening []) now (.entered .disconnected) (.disconnected now)
  | resume {since : Nat} : Follows backoff (.disconnected since) (since + backoff)
    (.entered .subscribing) (.subscribing (since + backoff))
  | stop {stage : Stage} {now : Nat} : stage ≠ .fresh → stage ≠ .terminated →
    Follows backoff stage now (.entered .terminated) .terminated

/-- All that was noted of a listener since it was started, and where it is after that. -/
inductive Story (backoff : Nat) : List Note → Stage → Prop
  | nil : Story backoff [] .fresh
  | snoc {notes : List Note} {note : Note} {stage stage' : Stage} : Story backoff notes stage →
    Follows backoff stage note.time note.deed stage' → Story backoff (notes ++ [note]) stage'

/-- The states that a listener may come to from another. -/
inductive ListenerState.Leads : ListenerState → ListenerState → Prop
  | begin : Leads .disconnected .subscribing
  | accept : Leads .subscribing .listening
  | refuse : Leads .subscribing .disconnected
  | lose : Leads .listening .disconnected
  | stop {state : ListenerState} : state ≠ .terminated → Leads state .terminated

def Deed.state? : Deed → Option ListenerState
  | entered state => some state
  | _ => none

/-- A note of a listener leaves it in its state or publishes the next one. -/
theorem Follows.state {backoff now : Nat} {stage stage' : Stage} {deed : Deed}
    (h : Follows backoff stage now deed stage') :
    (deed.state? = none ∧ stage'.state = stage.state) ∨
      (deed.state? = some stage'.state ∧ stage.state.Leads stage'.state) := by
  cases h with
  | ask | apply => exact .inl ⟨rfl, rfl⟩
  | start | resume => exact .inr ⟨rfl, .begin⟩
  | accept => exact .inr ⟨rfl, .accept⟩
  | refuse => exact .inr ⟨rfl, .refuse⟩
  | lose => exact .inr ⟨rfl, .lose⟩
  | stop _ hgoes =>
    refine .inr ⟨rfl, .stop ?_⟩
    intro hstate
    apply hgoes
    cases stage <;> first | rfl | cases hstate

end Failover

namespace Deployment

/-- What the place of a listener on a scripted peer has to do with its story. A listener that is about
to subscribe became so just now, and no pause is over. -/
inductive Stands (backoff now : Nat) : Listener.Phase Stream → Stage → Prop
  | starting : Stands backoff now .starting .fresh
  | subscribing : Stands backoff now .subscribing (.subscribing now)
  | asking {due : Nat} {answer : Except Failure Stream} :
    (∀ s, answer = .ok s → ∃ items, s = .scripted items) →
    Stands backoff now (.asking due answer) (.asked (promise answer))
  | listening {s : Script.Stream} :
    Stands backoff now (.listening (.scripted s)) (.listening (Script.messages s.items))
  | pausing {since : Nat} : now ≤ since + backoff →
    Stands backoff now (.pausing (since + backoff)) (.disconnected since)
  | terminated : Stands backoff now .terminated .terminated

variable {d d' : Deployment} {m : Monitor} {l : Listener Stream} {stage : Stage} {backoff : Nat}

theorem Stands.state {now : Nat} (h : Stands backoff now l.phase stage) :
    l.state = stage.state := by
  generalize hphase : l.phase = phase at h
  unfold Listener.state
  rw [hphase]
  cases h <;> rfl

theorem Stands.fresh {now : Nat} {phase : Listener.Phase Stream}
    (h : Stands backoff now phase .fresh) : phase = .starting := by
  cases h
  rfl

theorem Stands.over {now : Nat} {phase : Listener.Phase Stream}
    (h : Stands backoff now phase .terminated) : phase = .terminated := by
  cases h
  rfl

/-- A step of a listener is the next thing in its story. -/
theorem Stands.step {deed : Deed} {phase : Listener.Phase Stream} {script : Failover.Script}
    (h : Stands m.backoff d.now l.phase stage) (hsteps : Steps d m l deed d' phase)
    (hscript : d.directory = .script script) (hmemory : m.backend = .memory) :
    ∃ stage', Follows m.backoff stage d.now deed stage' ∧ Stands m.backoff d.now phase stage' := by
  cases hsteps with
  | start hphase =>
    rw [hphase] at h
    cases h
    exact ⟨_, .start, .subscribing⟩
  | stop _ hwaits =>
    refine ⟨_, .stop ?_ ?_, .terminated⟩
    · intro hstage
      subst hstage
      simp [Listener.isWaiting, h.fresh] at hwaits
    · intro hstage
      subst hstage
      simp [Listener.isWaiting, h.over] at hwaits
  | ask hphase hask =>
    rw [hphase] at h
    cases h
    rw [hmemory] at hask
    obtain ⟨-, -, -, -, -, -, hscripted⟩ := subscribe_script hscript hask
    exact ⟨_, .ask, .asking hscripted⟩
  | accept hphase hdue =>
    rw [hphase] at h
    cases h with
    | asking hscripted =>
      obtain ⟨items, rfl⟩ := hscripted _ rfl
      exact ⟨_, .accept, .listening⟩
  | refuse hphase hdue =>
    rw [hphase] at h
    cases h
    exact ⟨_, .refuse, .pausing (Nat.le_add_right _ _)⟩
  | apply hphase hhear =>
    rw [hphase] at h
    cases h
    obtain ⟨⟨s', rfl⟩, hmessages, -⟩ := hear_scripted hhear
    rw [hmessages _ rfl]
    exact ⟨_, .apply, .listening⟩
  | lose hphase hhear =>
    rw [hphase] at h
    cases h
    obtain ⟨-, -, hmessages⟩ := hear_scripted hhear
    rw [hmessages rfl]
    exact ⟨_, .lose, .pausing (Nat.le_add_right _ _)⟩
  | resume hphase hdue =>
    rw [hphase] at h
    cases h with
    | @pausing since hle =>
      have hnow : d.now = since + m.backoff := by omega
      rw [hnow]
      exact ⟨_, .resume, .subscribing⟩

end Deployment
end Holdfast
