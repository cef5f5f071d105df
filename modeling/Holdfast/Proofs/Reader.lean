import Holdfast.Proofs.Sentinel

namespace Holdfast.Memory

/-- As long as little is pending nothing of it is lost. -/
theorem Feed.next_eq {f : Feed} {r : Reader} {past pending : List PeerEvent}
    (hopen : f.isOpen = true) (hevents : f.events = past ++ pending)
    (hposition : r.position = past.length) (hfew : pending.length ≤ Feed.capacity) :
    f.next r = ((Feed.scan r.channel .nothing pending r.position).1,
      { r with position := (Feed.scan r.channel .nothing pending r.position).2 }) := by
  have hstart : max r.position f.oldest = past.length := by
    have hlength : f.events.length = past.length + pending.length := by simp [hevents]
    unfold Feed.oldest
    omega
  unfold Feed.next
  rw [hstart, hevents]
  dsimp only
  rw [List.drop_left, hopen, hposition]
  rfl

namespace Sentinel

open Store

/-- A reader has passed all events of a peer's feed but those that are pending. A peer that is down
has told so since. -/
structure Trails (s : Sentinel) (e : Endpoint) (r : Reader) (pending : List PeerEvent) : Prop where
  peer : ∃ isUp, s.peers.get? e = some ⟨isUp, r.feed⟩ ∧ (isUp = false → .disconnect ∈ pending)
  feed : ∃ f past, s.feeds[r.feed]? = some f ∧ f.isOpen = true ∧ f.events = past ++ pending ∧
    r.position = past.length

/-- A reader of the switches that a peer announces: it has passed all events of the peer's feed but
those that are pending. A peer that is down has told so last. -/
structure Reads (s : Sentinel) (e : Endpoint) (r : Reader) (pending : List PeerEvent) : Prop where
  channel : r.channel = Failover.channel
  peer : ∃ isUp, s.peers.get? e = some ⟨isUp, r.feed⟩ ∧ (isUp = false → .disconnect ∈ pending)
  feed : ∃ f past, s.feeds[r.feed]? = some f ∧ f.isOpen = true ∧ f.events = past ++ pending ∧
    r.position = past.length

variable {s s' : Sentinel} {e : Endpoint} {r r' : Reader} {pending : List PeerEvent}
  {channel payload : String}

namespace Trails

theorem same (h : s.Trails e r pending) (hsame : s.Same s') : s'.Trails e r pending := by
  obtain ⟨f, past, hf, hopen, hevents, hposition⟩ := h.feed
  obtain ⟨f', hf', hevents', hopen'⟩ := hsame.feed hf
  refine ⟨?_, f', past, hf', hopen'.trans hopen, hevents'.trans hevents, hposition⟩
  rw [hsame.peers]
  exact h.peer

theorem unique {pending' : List PeerEvent} (h : s.Trails e r pending)
    (h' : s.Trails e r pending') : pending = pending' := by
  obtain ⟨f, past, hf, -, hevents, hposition⟩ := h.feed
  obtain ⟨f', past', hf', -, hevents', hposition'⟩ := h'.feed
  cases hf.symm.trans hf'
  exact (List.append_inj (hevents.symm.trans hevents') (hposition.symm.trans hposition')).2

theorem next_eq (h : s.Trails e r pending) (hfew : pending.length ≤ Feed.capacity) :
    s.next r = ((Feed.scan r.channel .nothing pending r.position).1,
      { r with position := (Feed.scan r.channel .nothing pending r.position).2 }) := by
  obtain ⟨f, past, hf, hopen, hevents, hposition⟩ := h.feed
  unfold Sentinel.next
  rw [hf]
  exact Feed.next_eq hopen hevents hposition hfew

/-- A new subscription has nothing to read yet. -/
theorem of_subscribe (hs : s.Sound) (h : s.subscribe e channel = (s', .ok r)) :
    r.channel = channel ∧ s'.Trails e r [] := by
  have hsame := subscribe_same s e channel
  rw [h] at hsame
  unfold subscribe at h
  split at h
  · cases h
  · next peer hup =>
    cases h
    unfold upPeer? at hup
    split at hup
    · next p hget =>
      split at hup
      · next hisUp =>
        cases hup
        obtain ⟨f, hf, hopen⟩ := hs.isOpen (Table.mem_of_get? hget)
        dsimp only at hf
        have htrails : s.Trails e ⟨peer.feed, channel, f.events.length⟩ [] :=
          ⟨⟨peer.isUp, hget, by simp [hisUp]⟩, f, f.events, hf, hopen, by simp, rfl⟩
        rw [hf]
        exact ⟨rfl, htrails.same hsame⟩
      · cases hup
    · cases hup

/-- What is published is pending, unless the peer is down and so has disconnected its readers. -/
theorem publish (hs : s.Sound) (h : s.Trails e r pending) (channel payload : String) :
    (s.publish channel payload).Trails e r (pending ++ [.message channel payload]) ∨
      .disconnect ∈ pending ∧ (s.publish channel payload).Trails e r pending := by
  obtain ⟨f, past, hf, hopen, hevents, hposition⟩ := h.feed
  obtain ⟨isUp, hpeer, hdown⟩ := h.peer
  have hsent := hs.publish_feed (Table.mem_of_get? hpeer) channel payload
  dsimp only at hsent
  rw [hf] at hsent
  cases isUp with
  | true =>
    refine .inl ⟨⟨true, hpeer, nofun⟩, _, past, hsent, hopen, ?_, hposition⟩
    simp [Feed.push, hevents]
  | false => exact .inr ⟨hdown rfl, ⟨false, hpeer, hdown⟩, f, past, hsent, hopen, hevents, hposition⟩

/-- A peer that goes away disconnects its readers. -/
theorem setUp_self (h : s.Trails e r pending) (up : Bool) :
    (s.setUp e up).Trails e r (pending ++ if up then [] else [.disconnect]) := by
  obtain ⟨f, past, hf, hopen, hevents, hposition⟩ := h.feed
  obtain ⟨isUp, hpeer, -⟩ := h.peer
  unfold Sentinel.setUp
  rw [hpeer]
  cases up with
  | true =>
    refine ⟨⟨true, by simp, nofun⟩, f, past, hf, hopen, ?_, hposition⟩
    simp [hevents]
  | false =>
    refine ⟨⟨false, by simp, fun _ => by simp⟩, f.push .disconnect, past, ?_, hopen, ?_, hposition⟩
    · simp [hf]
    · simp [Feed.push, hevents]

/-- Other peers have feeds of their own. -/
theorem apart (hs : s.Sound) (h : s.Trails e r pending) {other : Endpoint} {peer : Peer}
    (hne : other ≠ e) (hother : s.peers.get? other = some peer) : peer.feed ≠ r.feed := by
  obtain ⟨isUp, hpeer, -⟩ := h.peer
  intro hsame
  exact hne (congrArg Prod.fst (hs.distinct (Table.mem_of_get? hother) (Table.mem_of_get? hpeer)
    hsame))

theorem setUp_other (hs : s.Sound) (h : s.Trails e r pending) {other : Endpoint} (hne : other ≠ e)
    (up : Bool) : (s.setUp other up).Trails e r pending := by
  obtain ⟨f, past, hf, hopen, hevents, hposition⟩ := h.feed
  obtain ⟨isUp, hpeer, hdown⟩ := h.peer
  unfold Sentinel.setUp
  split
  · exact h
  · next peer hother =>
    refine ⟨⟨isUp, ?_, hdown⟩, f, past, ?_, hopen, hevents, hposition⟩
    · dsimp only
      rw [Table.get?_set_ne _ _ (Ne.symm hne)]
      exact hpeer
    · cases up with
      | true => exact hf
      | false =>
        dsimp only
        rw [if_neg Bool.false_ne_true, List.getElem?_modify_ne _ _ (h.apart hs hne hother)]
        exact hf

theorem addPeer_other (hs : s.Sound) (h : s.Trails e r pending) {other : Endpoint}
    (hne : other ≠ e) : (s.addPeer other).Trails e r pending := by
  obtain ⟨f, past, hf, hopen, hevents, hposition⟩ := h.feed
  obtain ⟨isUp, hpeer, hdown⟩ := h.peer
  have hlt := (List.getElem?_eq_some_iff.mp hf).1
  refine ⟨⟨isUp, ?_, hdown⟩, f, past, ?_, hopen, hevents, hposition⟩
  · unfold Sentinel.addPeer
    dsimp only
    rw [Table.get?_set_ne _ _ (Ne.symm hne)]
    exact hpeer
  · unfold Sentinel.addPeer
    dsimp only
    split
    · next peer hother =>
      rw [List.getElem?_append_left (by rwa [List.length_modify]),
        List.getElem?_modify_ne _ _ (h.apart hs hne hother)]
      exact hf
    · rw [List.getElem?_append_left hlt]
      exact hf

end Trails

namespace Reads

theorem trails (h : s.Reads e r pending) : s.Trails e r pending := ⟨h.peer, h.feed⟩

theorem of_trails (hchannel : r.channel = Failover.channel) (h : s.Trails e r pending) :
    s.Reads e r pending := ⟨hchannel, h.peer, h.feed⟩

theorem same (h : s.Reads e r pending) (hsame : s.Same s') : s'.Reads e r pending :=
  of_trails h.channel (h.trails.same hsame)

theorem unique {pending' : List PeerEvent} (h : s.Reads e r pending) (h' : s.Reads e r pending') :
    pending = pending' := h.trails.unique h'.trails

theorem next_eq (h : s.Reads e r pending) (hfew : pending.length ≤ Feed.capacity) :
    s.next r = ((Feed.scan Failover.channel .nothing pending r.position).1,
      { r with position := (Feed.scan Failover.channel .nothing pending r.position).2 }) := by
  rw [h.trails.next_eq hfew, h.channel]

theorem next_nil (h : s.Reads e r []) : s.next r = (.nothing, r) := h.next_eq (Nat.zero_le _)

theorem next_message (h : s.Reads e r [.message Failover.channel payload]) :
    ∃ r', s.next r = (.message payload, r') ∧ s.Reads e r' [] := by
  obtain ⟨f, past, hf, hopen, hevents, hposition⟩ := h.feed
  obtain ⟨isUp, hpeer, hdown⟩ := h.peer
  refine ⟨{ r with position := r.position + 1 }, h.next_eq (Nat.le_of_ble_eq_true rfl), ?_⟩
  refine ⟨h.channel, ⟨isUp, hpeer, ?_⟩, f, f.events, hf, hopen, by simp, ?_⟩
  · intro hnot
    simpa using hdown hnot
  · simp [hevents, hposition]

theorem next_disconnect (h : s.Reads e r [.disconnect]) : ∃ r', s.next r = (.ended, r') :=
  ⟨_, h.next_eq (Nat.le_of_ble_eq_true rfl)⟩

theorem of_subscribe (hs : s.Sound) (h : s.subscribe e Failover.channel = (s', .ok r)) :
    s'.Reads e r [] := by
  obtain ⟨hchannel, htrails⟩ := Trails.of_subscribe hs h
  exact of_trails hchannel htrails

theorem setMaster (h : s.Reads e r pending) (name : String) (master : Endpoint) :
    (s.setMaster name master).Reads e r pending := ⟨h.channel, h.peer, h.feed⟩

/-- A reader that has read all gets to read what is published. -/
theorem publish (hs : s.Sound) (h : s.Reads e r []) (payload : String) :
    (s.publish Failover.channel payload).Reads e r [.message Failover.channel payload] := by
  rcases h.trails.publish hs Failover.channel payload with htrails | ⟨hdown, -⟩
  · exact of_trails h.channel htrails
  · cases hdown

theorem failover (hs : s.Sound) (h : s.Reads e r []) (name : String) (master : Endpoint) :
    (s.failover name master).Reads e r
      [.message Failover.channel (Failover.Announcement.payload name (s.master? name) master)] :=
  (h.setMaster name master).publish (hs.setMaster name master) _

/-- A reader that has read all is disconnected when its peer goes away, and by nothing else. -/
theorem setUp (hs : s.Sound) (h : s.Reads e r []) (other : Endpoint) (up : Bool) :
    (s.setUp other up).Reads e r [] ∨ (s.setUp other up).Reads e r [.disconnect] := by
  by_cases he : other = e
  · subst he
    have htrails := h.trails.setUp_self up
    cases up with
    | true => exact .inl (of_trails h.channel htrails)
    | false => exact .inr (of_trails h.channel htrails)
  · exact .inl (of_trails h.channel (h.trails.setUp_other hs he up))

end Reads

end Sentinel
end Holdfast.Memory
