import Holdfast.Proofs.Failover.Story

namespace Holdfast

open Failover Store

namespace Failover

/-- What was promised on subscriptions to one of the peers, in order. -/
def promises (peers : List Endpoint) (peer : Endpoint) (notes : List Note) :
    List (Option (List String)) :=
  notes.filterMap fun note => if peers[note.index]? = some peer then note.deed.promise? else none

/-- The subscriptions that were asked for, as the script of the peers logs them. -/
def subscriptions (peers : List Endpoint) (notes : List Note) : List Script.Subscribed :=
  notes.filterMap fun note => note.deed.promise?.bind fun _ =>
    peers[note.index]?.map fun peer => ⟨peer, channel, note.time⟩

end Failover

namespace Deployment

/-- What may happen beside the listeners of a monitor: time passes, though not beyond a moment at
which one of them can go on, and somebody may cancel them. All else leaves them and their peers
alone. -/
structure Prompt (id : Nat) (d d' : Deployment) : Prop where
  directory : d'.directory = d.directory
  monitor : ∃ isCancelled, d'.monitors[id]? = d.monitors[id]?.map fun m =>
    { m with isCancelled := m.isCancelled || isCancelled }
  now : d.now ≤ d'.now
  still : d.now < d'.now → ∀ index heeds, d.moveListener id index heeds = none
  due : d.now < d'.now → ∀ {m l due}, d.monitors[id]? = some m → l ∈ m.listeners →
    Monitor.listenerDue? l = some due → d'.now ≤ due

/-- What listeners on some peers have done so far. Each is in a story of its own. Their questions are
all that the peers were asked, and each was answered by what was laid down next for its peer. -/
structure Conduct (script : Failover.Script) (peers : List Endpoint) (backoff id : Nat)
    (d : Deployment) (notes : List Note) : Prop where
  story : ∀ {m i l}, d.monitors[id]? = some m → m.listeners[i]? = some l → ∃ stage,
    Story backoff (notesOf i notes) stage ∧ Stands backoff d.now l.phase stage
  asked : ∃ script', d.directory = .script script' ∧
    script'.subscribed = script.subscribed ++ subscriptions peers notes ∧
    (∀ peer, script'.left peer = (script.left peer).drop (promises peers peer notes).length) ∧
    ∀ {peer : Endpoint} {j : Nat} {promise : Option (List String)},
      (promises peers peer notes)[j]? = some promise →
      promise = (script.left peer)[j]?.bind Script.Subscription.promise

variable {script : Failover.Script} {peers : List Endpoint} {backoff id : Nat}
  {d d' : Deployment} {notes : List Note} {m : Monitor}

/-- Time that passes while nobody can go on changes nothing in the stories. -/
theorem Stands.later {l : Listener Stream} {stage : Stage} {now : Nat}
    (h : Stands backoff d.now l.phase stage) (hstill : d.carryOn m l = none)
    (hdue : ∀ {due}, Monitor.listenerDue? l = some due → now ≤ due) :
    Stands backoff now l.phase stage := by
  unfold carryOn at hstill
  unfold Monitor.listenerDue? at hdue
  generalize hphase : l.phase = phase at h hstill hdue
  cases h with
  | starting => cases hstill
  | subscribing => cases hstill
  | asking hscripted => exact .asking hscripted
  | listening => exact .listening
  | pausing _ => exact .pausing (hdue rfl)
  | terminated => exact .terminated

theorem promises_snoc (peer : Endpoint) (note : Note) :
    promises peers peer (notes ++ [note]) = promises peers peer notes ++
      (if peers[note.index]? = some peer then note.deed.promise?.toList else []) := by
  unfold promises
  rw [List.filterMap_append]
  congr 1
  split <;> cases hp : note.deed.promise? <;> simp_all

theorem subscriptions_snoc (note : Note) : Failover.subscriptions peers (notes ++ [note]) =
    Failover.subscriptions peers notes ++ (note.deed.promise?.bind fun _ =>
      peers[note.index]?.map fun peer => ⟨peer, channel, note.time⟩).toList := by
  unfold Failover.subscriptions
  rw [List.filterMap_append]
  rfl

namespace Conduct

/-- A step of one listener goes on with its own story. -/
theorem story_move {index i : Nat} {heeds : Bool} {note : Note} {m' : Monitor}
    {l' : Listener Stream} (h : Conduct script peers backoff id d notes)
    (hm : d.monitors[id]? = some m) (hmemory : m.backend = .memory) (hbackoff : m.backoff = backoff)
    (hmove : d.moveListener id index heeds = some (note, d')) (hm' : d'.monitors[id]? = some m')
    (hl' : m'.listeners[i]? = some l') : ∃ stage,
      Story backoff (notesOf i (notes ++ [note])) stage ∧ Stands backoff d'.now l'.phase stage := by
  obtain ⟨script', hscript, -⟩ := h.asked
  obtain ⟨m₁, l, d₁, phase, hm₁, hl, hindex, htime, hsteps, rfl, rfl⟩ :=
    moveListener_monitor hmove hm'
  rw [hm] at hm₁
  cases hm₁
  have hnow : d₁.now = d.now := hsteps.now
  by_cases hi : i = index
  · subst hi
    dsimp only at hl'
    rw [List.getElem?_set_self (List.getElem?_eq_some_iff.mp hl).1] at hl'
    cases hl'
    obtain ⟨stage, hstory, hstands⟩ := h.story hm hl
    subst hbackoff
    obtain ⟨stage', hfollows, hstands'⟩ := hstands.step hsteps hscript hmemory
    refine ⟨stage', ?_, by rwa [← hnow] at hstands'⟩
    rw [notesOf_append, notesOf_singleton, if_pos hindex]
    rw [← htime] at hfollows
    exact hstory.snoc hfollows
  · dsimp only at hl'
    rw [List.getElem?_set_ne (Ne.symm hi)] at hl'
    obtain ⟨stage, hstory, hstands⟩ := h.story hm hl'
    refine ⟨stage, ?_, by rwa [← hnow] at hstands⟩
    rwa [notesOf_append, notesOf_singleton, if_neg (by omega), List.append_nil]

/-- What a step of one listener asks for is answered by what was laid down next for its peer. -/
theorem asked_move {index : Nat} {heeds : Bool} {note : Note}
    (h : Conduct script peers backoff id d notes) (hm : d.monitors[id]? = some m)
    (hmemory : m.backend = .memory) (hpeers : m.listeners.map (·.peer) = peers)
    (hmove : d.moveListener id index heeds = some (note, d')) :
    ∃ script', d'.directory = .script script' ∧
      script'.subscribed = script.subscribed ++ Failover.subscriptions peers (notes ++ [note]) ∧
      (∀ peer, script'.left peer =
        (script.left peer).drop (promises peers peer (notes ++ [note])).length) ∧
      ∀ {peer : Endpoint} {j : Nat} {promise : Option (List String)},
        (promises peers peer (notes ++ [note]))[j]? = some promise →
        promise = (script.left peer)[j]?.bind Script.Subscription.promise := by
  obtain ⟨script₁, hscript, hlog, hleft, hpromises⟩ := h.asked
  obtain ⟨m₁, l, d₁, phase, hm₁, hl, hindex, htime, hsteps, rfl⟩ := moveListener_steps hmove
  rw [hm] at hm₁
  cases hm₁
  have hpeer : peers[note.index]? = some l.peer := by
    rw [← hpeers, hindex, List.getElem?_map, hl]
    rfl
  obtain ⟨script₂, hscript₂, hlog₂, hothers, hown, hpromise⟩ :=
    hsteps.directory_script hscript hmemory
  refine ⟨script₂, hscript₂, ?_, ?_, ?_⟩
  · rw [hlog₂, hlog, subscriptions_snoc, hpeer, htime, List.append_assoc]
    cases note.deed.promise? <;> rfl
  · intro peer
    rw [promises_snoc, hpeer]
    by_cases hp : peer = l.peer
    · subst hp
      rw [if_pos rfl, hown, hleft, List.drop_drop, List.length_append]
    · rw [hothers peer hp, hleft, if_neg (by simpa using Ne.symm hp), List.append_nil]
  · intro peer j promise hj
    rw [promises_snoc, hpeer] at hj
    by_cases hp : peer = l.peer
    · subst hp
      rw [if_pos rfl] at hj
      rcases Nat.lt_or_ge j (promises peers l.peer notes).length with hlt | hge
      · rw [List.getElem?_append_left hlt] at hj
        exact hpromises hj
      · rw [List.getElem?_append_right hge] at hj
        cases hnew : note.deed.promise? with
        | none => simp [hnew] at hj
        | some promise' =>
          rw [hnew, Option.toList_some, List.getElem?_singleton] at hj
          split at hj
          · cases hj
            rw [hpromise promise hnew, hleft, List.head?_drop]
            congr 2
            omega
          · cases hj
    · rw [if_neg (by simpa using Ne.symm hp), List.append_nil] at hj
      exact hpromises hj

theorem move {index : Nat} {heeds : Bool} {note : Note}
    (h : Conduct script peers backoff id d notes) (hm : d.monitors[id]? = some m)
    (hmemory : m.backend = .memory) (hbackoff : m.backoff = backoff)
    (hpeers : m.listeners.map (·.peer) = peers)
    (hmove : d.moveListener id index heeds = some (note, d')) :
    Conduct script peers backoff id d' (notes ++ [note]) where
  story := h.story_move hm hmemory hbackoff hmove
  asked := h.asked_move hm hmemory hpeers hmove

theorem meanwhile (h : Conduct script peers backoff id d notes) (hprompt : Prompt id d d')
    (hm : d.monitors[id]? = some m) : Conduct script peers backoff id d' notes := by
  refine ⟨?_, by rw [hprompt.directory]; exact h.asked⟩
  intro m' i l hm' hl
  obtain ⟨isCancelled, hmonitor⟩ := hprompt.monitor
  rw [hmonitor, hm] at hm'
  cases hm'
  obtain ⟨stage, hstory, hstands⟩ := h.story hm hl
  refine ⟨stage, hstory, ?_⟩
  rcases Nat.lt_or_ge d.now d'.now with hlt | hge
  · exact hstands.later (carryOn_of_still (hprompt.still hlt) hm hl)
      (hprompt.due hlt hm (List.mem_of_getElem? hl))
  · have hnow : d'.now = d.now := Nat.le_antisymm hge hprompt.now
    rwa [hnow]

end Conduct

end Deployment
end Holdfast
