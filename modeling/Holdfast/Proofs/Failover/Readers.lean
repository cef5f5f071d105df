import Holdfast.Proofs.Failover.Ending
import Holdfast.Proofs.Subscription
import Mathlib.Algebra.Ring.Nat

namespace Holdfast

open Failover Memory Store

namespace Memory.Sentinel

/-- The subscriptions to a feed that have not ended. -/
def readersAt (s : Sentinel) (feed : Nat) : Nat := ((s.feeds.map Feed.readers)[feed]?).getD 0

theorem readersAt_congr {s s' : Sentinel}
    (h : s'.feeds.map Feed.readers = s.feeds.map Feed.readers) (feed : Nat) :
    s'.readersAt feed = s.readersAt feed := by
  rw [readersAt, h, readersAt]

theorem map_readers_modify (feeds : List Feed) (feed : Nat) {f : Feed → Feed}
    (h : ∀ x : Feed, (f x).readers = x.readers) :
    (feeds.modify feed f).map Feed.readers = feeds.map Feed.readers := by
  apply List.ext_getElem?
  intro i
  rw [List.getElem?_map, List.getElem?_map, List.getElem?_modify]
  cases feeds[i]? with
  | none => rfl
  | some x => by_cases hi : feed = i <;> simp [hi, h]

theorem readersAt_publish (s : Sentinel) (channel payload : String) (feed : Nat) :
    (s.publish channel payload).readersAt feed = s.readersAt feed := by
  refine readersAt_congr ?_ feed
  rw [publish_feeds]
  refine List.foldlRecOn (motive := fun feeds : List Feed =>
    feeds.map Feed.readers = s.feeds.map Feed.readers) _ _ rfl fun feeds h p _ => ?_
  unfold sent
  split
  · refine (map_readers_modify feeds _ ?_).trans h
    exact fun _ => rfl
  · exact h

theorem readersAt_setUp (s : Sentinel) (e : Endpoint) (up : Bool) (feed : Nat) :
    (s.setUp e up).readersAt feed = s.readersAt feed := by
  unfold setUp
  split
  · rfl
  · refine readersAt_congr ?_ feed
    dsimp only
    split
    · rfl
    · exact map_readers_modify _ _ fun _ => rfl

/-- A feed begins without readers. -/
theorem readersAt_addPeer (s : Sentinel) (e : Endpoint) (feed : Nat) :
    (s.addPeer e).readersAt feed = s.readersAt feed := by
  have hnew (feeds : List Feed) (h : feeds.map Feed.readers = s.feeds.map Feed.readers) :
      (((feeds ++ [({} : Feed)]).map Feed.readers)[feed]?).getD 0 = s.readersAt feed := by
    rw [List.map_append, h, readersAt, List.getElem?_append]
    split
    · rfl
    · next hge =>
      rw [List.getElem?_eq_none (Nat.le_of_not_lt hge)]
      cases feed - (s.feeds.map Feed.readers).length <;> rfl
  unfold Sentinel.addPeer
  dsimp only
  split
  · exact hnew _ (map_readers_modify _ _ fun _ => rfl)
  · exact hnew _ rfl

theorem readersAt_countReader {s : Sentinel} {feed : Nat} (h : feed < s.feeds.length)
    (count : Nat → Nat) (i : Nat) : (s.countReader feed count).readersAt i =
      if feed = i then count (s.readersAt i) else s.readersAt i := by
  simp only [readersAt, countReader, List.getElem?_map, List.getElem?_modify]
  by_cases hi : feed = i
  · subst hi
    simp [List.getElem?_eq_getElem h]
  · cases s.feeds[i]? <;> simp [hi]

/-- A feed that somebody reads is there. -/
theorem lt_of_readersAt {s : Sentinel} {feed : Nat} (h : 0 < s.readersAt feed) :
    feed < s.feeds.length := by
  by_contra hge
  rw [readersAt, List.getElem?_eq_none (by simpa using hge)] at h
  cases h

theorem Sound.readersAt_subscribe {s : Sentinel} (hs : s.Sound) (e : Endpoint) (channel : String)
    (feed : Nat) : (s.subscribe e channel).1.readersAt feed = s.readersAt feed +
      match (s.subscribe e channel).2 with
      | .ok r => if r.feed = feed then 1 else 0
      | .error _ => 0 := by
  unfold subscribe
  cases hpeer : s.upPeer? e with
  | error f => rfl
  | ok peer =>
    have hmem : (e, peer) ∈ s.peers := by
      unfold upPeer? at hpeer
      split at hpeer
      · next found hfound =>
        split at hpeer
        · cases hpeer
          exact Table.mem_of_get? hfound
        · cases hpeer
      · cases hpeer
    dsimp only
    rw [readersAt_countReader (hs.lt hmem)]
    split <;> rfl

end Memory.Sentinel

/-- How many subscriptions to a feed of a peer a stream is. -/
def Stream.holds (feed : Nat) : Stream → Nat
  | .reader r => if r.feed = feed then 1 else 0
  | .scripted _ => 0

namespace Deployment

def holds (feed : Nat) (l : Listener Stream) : Nat := (l.stream?.map (Stream.holds feed)).getD 0

/-- The subscriptions to a feed that the listeners of some monitors hold. -/
def held (ms : List Monitor) (feed : Nat) : Nat :=
  (ms.map fun m => (m.listeners.map (holds feed)).sum).sum

/-- Every subscription to a peer is held by a listener or is one of the others that there are. -/
def Counts (others : Nat → Nat) (d : Deployment) : Prop :=
  ∃ s : Sentinel, d.directory = .sentinel s ∧ s.Sound ∧
    ∀ feed, s.readersAt feed = others feed + held d.monitors feed

variable {d d' : Deployment} {id index : Nat} {m : Monitor} {l : Listener Stream} {s : Sentinel}
  {others : Nat → Nat}

theorem sum_map_set {α : Type} {as : List α} {i : Nat} {a : α} (h : as[i]? = some a)
    (f : α → Nat) (b : α) : ((as.set i b).map f).sum + f a = (as.map f).sum + f b := by
  induction as generalizing i with
  | nil => cases h
  | cons x as ih =>
    cases i with
    | zero =>
      cases h
      simp only [List.set_cons_zero, List.map_cons, List.sum_cons]
      omega
    | succ i =>
      have hrest := ih h
      simp only [List.set_cons_succ, List.map_cons, List.sum_cons]
      omega

theorem sum_map_eraseIdx {α : Type} {as : List α} {i : Nat} {a : α} (h : as[i]? = some a)
    (f : α → Nat) : ((as.eraseIdx i).map f).sum + f a = (as.map f).sum := by
  induction as generalizing i with
  | nil => cases h
  | cons x as ih =>
    cases i with
    | zero =>
      cases h
      simp only [List.eraseIdx_cons_zero, List.map_cons, List.sum_cons]
      omega
    | succ i =>
      have hrest := ih h
      simp only [List.eraseIdx_cons_succ, List.map_cons, List.sum_cons]
      omega

theorem held_set (hm : d.monitors[id]? = some m) (hl : m.listeners[index]? = some l)
    (l' : Listener Stream) (feed : Nat) :
    held (d.monitors.set id { m with listeners := m.listeners.set index l' }) feed +
      holds feed l = held d.monitors feed + holds feed l' := by
  have houter := sum_map_set hm (fun m => (m.listeners.map (holds feed)).sum)
    { m with listeners := m.listeners.set index l' }
  have hinner := sum_map_set hl (holds feed) l'
  simp only [held]
  dsimp only at houter
  omega

theorem holds_le_held (hm : d.monitors[id]? = some m) (hl : m.listeners[index]? = some l)
    (feed : Nat) : holds feed l ≤ held d.monitors feed := by
  have hset := held_set hm hl { l with phase := .terminated } feed
  have hnone : holds feed ({ l with phase := .terminated } : Listener Stream) = 0 := rfl
  omega

/-- Giving up a subscription takes one reader from its feed. -/
theorem unsubscribe_readers (hs : d.directory = .sentinel s) (stream : Stream)
    (hheld : ∀ feed, stream.holds feed ≤ s.readersAt feed) : ∃ s',
      (d.unsubscribe stream).directory = .sentinel s' ∧ s.Same s' ∧
      ∀ feed, s'.readersAt feed + stream.holds feed = s.readersAt feed := by
  cases stream with
  | scripted t => exact ⟨s, by simp [unsubscribe, hs], .refl s, fun _ => rfl⟩
  | reader r =>
    refine ⟨s.unsubscribe r, by simp [unsubscribe, hs], Sentinel.unsubscribe_same s r, ?_⟩
    have hone : 1 ≤ s.readersAt r.feed := by simpa [Stream.holds] using hheld r.feed
    intro feed
    rw [Sentinel.unsubscribe, Sentinel.readersAt_countReader (Sentinel.lt_of_readersAt hone),
      Stream.holds]
    split
    · next hf =>
      subst hf
      omega
    · rfl

/-- A subscription that is granted is one reader more of its feed. -/
theorem subscribe_readers (hs : d.directory = .sentinel s) (hsound : s.Sound) {b : Backend}
    {peer : Endpoint} {channel : String} {due : Nat} {answer : Except Failure Stream}
    (h : d.subscribe b peer channel = (d', due, answer)) : ∃ s',
      d'.directory = .sentinel s' ∧ s.Same s' ∧
      ∀ feed, s'.readersAt feed = s.readersAt feed + holds feed ⟨peer, .asking due answer⟩ := by
  unfold subscribe at h
  split at h
  · -- a Redis server is no peer of the sentinel
    dsimp only at h
    cases h
    refine ⟨s, hs, .refl s, fun feed => ?_⟩
    cases (askRedis (Redis.subscribe channel)).2 <;> rfl
  · next sentinel _ hsentinel =>
    cases hs.symm.trans hsentinel
    cases h
    refine ⟨_, rfl, Sentinel.subscribe_same s _ _, fun feed => ?_⟩
    have hholds : holds feed ⟨peer, .asking d.now ((s.subscribe peer channel).2.map .reader)⟩ =
        match (s.subscribe peer channel).2 with
        | .ok r => if r.feed = feed then 1 else 0
        | .error _ => 0 := by
      cases (s.subscribe peer channel).2 <;> rfl
    exact (hsound.readersAt_subscribe peer channel feed).trans (congrArg _ hholds.symm)
  · next script _ hscript =>
    cases hs.symm.trans hscript

/-- Whoever hears of a stream reads the same feed as before. -/
theorem hear_holds (d : Deployment) (stream : Stream) (feed : Nat) :
    (d.hear stream).2.holds feed = stream.holds feed := by
  unfold hear
  split
  · next r sentinel _ =>
    have hfeed : (sentinel.next r).2.feed = r.feed := by
      unfold Sentinel.next
      split <;> rfl
    simp only [Stream.holds, hfeed]
  · split <;> rfl
  · rfl

/-- What a listener has more after a step, its peers have more readers. -/
theorem Steps.readers {deed : Deed} {phase : Listener.Phase Stream}
    (h : Steps d m l deed d' phase) (hs : d.directory = .sentinel s) (hsound : s.Sound)
    (hheld : ∀ feed, holds feed l ≤ s.readersAt feed) : ∃ s', d'.directory = .sentinel s' ∧
      s.Same s' ∧ ∀ feed, s'.readersAt feed + holds feed l =
        s.readersAt feed + holds feed { l with phase := phase } := by
  cases h with
  | start hphase | refuse hphase | resume hphase =>
    refine ⟨s, hs, .refl s, fun feed => ?_⟩
    simp [holds, Listener.stream?, hphase]
  | accept hphase =>
    refine ⟨s, hs, .refl s, fun feed => ?_⟩
    simp [holds, Listener.stream?, hphase]
  | stop =>
    cases hstream : l.stream? with
    | none =>
      refine ⟨s, by simpa [hangUp, hstream] using hs, .refl s, fun feed => ?_⟩
      have hnone : holds feed l = 0 := by simp [holds, hstream]
      rw [hnone]
      rfl
    | some stream =>
      have hown (feed : Nat) : holds feed l = stream.holds feed := by simp [holds, hstream]
      obtain ⟨s', hs', hsame, hcount⟩ :=
        unsubscribe_readers hs stream fun feed => hown feed ▸ hheld feed
      refine ⟨s', by simpa [hangUp, hstream] using hs', hsame, fun feed => ?_⟩
      rw [hown, hcount]
      rfl
  | ask hphase hask =>
    obtain ⟨s', hs', hsame, hcount⟩ := subscribe_readers hs hsound hask
    refine ⟨s', hs', hsame, fun feed => ?_⟩
    have hnone : holds feed l = 0 := by simp [holds, Listener.stream?, hphase]
    rw [hnone, hcount]
    rfl
  | @apply stream stream' payload hphase hhear =>
    refine ⟨s, by rw [applySwitch_pools]; exact hs, .refl s, fun feed => ?_⟩
    have hsame := hear_holds d stream feed
    rw [hhear] at hsame
    simp [holds, Listener.stream?, hphase, hsame]
  | @lose stream stream' hphase hhear =>
    have hown (feed : Nat) : stream'.holds feed = holds feed l := by
      have hsame := hear_holds d stream feed
      rw [hhear] at hsame
      simp [holds, Listener.stream?, hphase, hsame]
    obtain ⟨s', hs', hsame, hcount⟩ :=
      unsubscribe_readers hs stream' fun feed => (hown feed).symm ▸ hheld feed
    refine ⟨s', hs', hsame, fun feed => ?_⟩
    rw [← hown, hcount]
    rfl

/-- The account of the subscriptions holds on, whatever a listener does. -/
theorem Counts.move {heeds : Bool} {note : Note} (h : d.Counts others)
    (hmove : d.moveListener id index heeds = some (note, d')) : d'.Counts others := by
  obtain ⟨s, hs, hsound, hcount⟩ := h
  obtain ⟨m, l, d₁, phase, hm, hl, -, -, hsteps, rfl⟩ := moveListener_steps hmove
  have hheld (feed : Nat) : holds feed l ≤ s.readersAt feed := by
    have hle := holds_le_held hm hl feed
    rw [hcount]
    omega
  obtain ⟨s', hs', hsame, hcount'⟩ := hsteps.readers hs hsound hheld
  refine ⟨s', hs', hsound.same hsame, fun feed => ?_⟩
  have hset := held_set hm hl { l with phase := phase } feed
  have hbefore := hcount feed
  have hafter := hcount' feed
  dsimp only
  omega

theorem lasting_counts (others : Nat → Nat) : Lasting (Counts others) where
  works := by
    rintro d d' hworks ⟨s, hs, hsound, hcount⟩
    refine ⟨s, hworks.sentinel hs, hsound, ?_⟩
    rwa [hworks.monitors]
  moves hmove h := h.move hmove

/-- What may go on around the listeners of a monitor, at a sentinel: time passes, work is done, other
listeners go on or begin, somebody cancels, and anything happens to the peers but subscriptions. -/
inductive Amid (id : Nat) (d : Deployment) : Deployment → Prop
  | wait {now : Nat} : d.now ≤ now → Amid id d { d with now }
  | work {d' : Deployment} : Works d d' → Amid id d d'
  | move {d' : Deployment} {other index : Nat} {heeds : Bool} {note : Note} : other ≠ id →
    d.moveListener other index heeds = some (note, d') → Amid id d d'
  | watch (b : Backend) (router : Nat) (peers : List Endpoint) (backoff : Nat) :
    Amid id d (d.watch b router peers backoff).1
  | cancel (other : Nat) : Amid id d (d.cancelMonitor other)
  | peers {s : Sentinel} {move : Sentinel.Move} : d.directory = .sentinel s →
    (∀ e channel, move ≠ .subscribe e channel) → (∀ r, move ≠ .unsubscribe r) →
    Amid id d { d with directory := .sentinel (move.apply s) }

namespace Counts

theorem peers {move : Sentinel.Move} (h : d.Counts others) (hs : d.directory = .sentinel s)
    (hsubscribe : ∀ e channel, move ≠ .subscribe e channel)
    (hunsubscribe : ∀ r, move ≠ .unsubscribe r) :
    Counts others { d with directory := .sentinel (move.apply s) } := by
  obtain ⟨s', hs', hsound, hcount⟩ := h
  cases hs.symm.trans hs'
  refine ⟨_, rfl, hsound.move move, fun feed => ?_⟩
  rw [← hcount]
  cases move with
  | publish channel payload => exact s.readersAt_publish channel payload feed
  | failover name master => exact (s.setMaster name master).readersAt_publish _ _ feed
  | reach e up => exact s.readersAt_setUp e up feed
  | setMaster name master => rfl
  | addPeer e => exact s.readersAt_addPeer e feed
  | subscribe e channel => exact absurd rfl (hsubscribe e channel)
  | unsubscribe r => exact absurd rfl (hunsubscribe r)

/-- New listeners begin without subscriptions. -/
theorem watch (h : d.Counts others) (b : Backend) (router : Nat) (peers : List Endpoint)
    (backoff : Nat) : (d.watch b router peers backoff).1.Counts others := by
  obtain ⟨s, hs, hsound, hcount⟩ := h
  refine ⟨s, hs, hsound, fun feed => ?_⟩
  have hnone : ((peers.map fun peer => ({ peer } : Listener Stream)).map (holds feed)).sum = 0 := by
    induction peers with
    | nil => rfl
    | cons peer peers ih => simpa [holds, Listener.stream?] using ih
  rw [hcount]
  simp only [Deployment.watch, held, List.map_append, List.sum_append, List.map_cons, List.map_nil,
    List.sum_cons, List.sum_nil, hnone]
  rfl

theorem cancel (h : d.Counts others) (id : Nat) : (d.cancelMonitor id).Counts others := by
  obtain ⟨s, hs, hsound, hcount⟩ := h
  refine ⟨s, hs, hsound, fun feed => ?_⟩
  have hsame : ((d.monitors.modify id fun m => { m with isCancelled := true }).map fun m =>
      (m.listeners.map (holds feed)).sum) =
        d.monitors.map fun m => (m.listeners.map (holds feed)).sum := by
    apply List.ext_getElem?
    intro i
    rw [List.getElem?_map, List.getElem?_map, List.getElem?_modify]
    cases d.monitors[i]? with
    | none => rfl
    | some m => by_cases hi : id = i <;> simp [hi]
  rw [hcount]
  simp only [cancelMonitor, held, hsame]

theorem amid (h : d.Counts others) (hamid : Amid id d d') : d'.Counts others := by
  cases hamid with
  | wait => exact h
  | work hworks => exact (lasting_counts others).works hworks h
  | move _ hmove => exact h.move hmove
  | watch b router peers backoff => exact h.watch b router peers backoff
  | cancel other => exact h.cancel other
  | peers hs hsubscribe hunsubscribe => exact h.peers hs hsubscribe hunsubscribe

theorem listens {notes : List Note} (h : d.Counts others)
    (hrun : Listens (Amid id) id d d' notes) : d'.Counts others := by
  induction hrun with
  | here => exact h
  | move _ hmove ih => exact ih.move hmove
  | meanwhile _ hamid ih => exact ih.amid hamid

/-- After the shutdown of a monitor its subscriptions are gone from the peers: all that are left are
held by other listeners, or are those of others. -/
theorem shutdown (h : d.Counts others) (hm : d.monitors[id]? = some m) : ∃ s,
    (d.shutdownMonitor id).directory = .sentinel s ∧ ∀ feed, s.readersAt feed =
      others feed + held ((d.shutdownMonitor id).monitors.eraseIdx id) feed := by
  obtain ⟨-, m', hm', -, hended⟩ := shutdownMonitor_stops hm
  have hafter : (d.shutdownMonitor id).Counts others := by
    rw [shutdownMonitor_eq hm]
    exact (lasting_counts others).settleWith stride (h.cancel id) _
  obtain ⟨s, hs, -, hcount⟩ := hafter
  refine ⟨s, hs, fun feed => ?_⟩
  have hnone : (m'.listeners.map (holds feed)).sum = 0 := by
    rw [List.sum_eq_zero_iff_forall_eq_nat]
    intro n hn
    obtain ⟨l, hl, rfl⟩ := List.mem_map.mp hn
    simp [holds, Listener.stream?, hended l hl]
  have hothers := sum_map_eraseIdx hm' fun m => (m.listeners.map (holds feed)).sum
  rw [hnone, Nat.add_zero] at hothers
  rw [hcount, held, held, hothers]

end Counts

end Deployment
end Holdfast
