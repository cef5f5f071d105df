import Holdfast.Proofs.Reader

namespace Holdfast.Memory

open Store

/-- The payloads on a channel that are told before the peer disconnects. -/
def PeerEvent.legible (channel : String) : List PeerEvent → List String
  | [] | .disconnect :: _ => []
  | .message c payload :: events =>
    if c = channel then payload :: legible channel events else legible channel events

namespace PeerEvent

variable {channel : String} {events later : List PeerEvent}

theorem legible_append (h : .disconnect ∉ events) :
    legible channel (events ++ later) = legible channel events ++ legible channel later := by
  induction events with
  | nil => rfl
  | cons event events ih =>
    obtain ⟨hhead, htail⟩ := not_or.mp (mt List.mem_cons.mpr h)
    cases event with
    | disconnect => exact absurd rfl hhead
    | message c payload =>
      simp only [List.cons_append, legible, ih htail]
      split <;> rfl

theorem legible_append_of_mem (h : .disconnect ∈ events) :
    legible channel (events ++ later) = legible channel events := by
  induction events with
  | nil => cases h
  | cons event events ih =>
    cases event with
    | disconnect => rfl
    | message c payload =>
      simp only [List.cons_append, legible, ih ((List.mem_cons.mp h).resolve_left nofun)]

end PeerEvent

namespace Feed

open PeerEvent

/-- What a look brings that passes some events and leaves others. -/
inductive Finds (channel : String) (passed left : List PeerEvent) : Heard → Prop
  | message {payload : String} : .disconnect ∉ passed →
      legible channel (passed ++ left) = payload :: legible channel left →
      Finds channel passed left (.message payload)
  | ended : .disconnect ∈ passed → legible channel (passed ++ left) = [] →
      Finds channel passed left .ended
  | nothing : .disconnect ∉ passed → left = [] → legible channel (passed ++ left) = [] →
      Finds channel passed left .nothing

/-- What is told on another channel is passed over. -/
theorem Finds.pass {channel c payload : String} {passed left : List PeerEvent} {heard : Heard}
    (h : Finds channel passed left heard) (hc : c ≠ channel) :
    Finds channel (.message c payload :: passed) left heard := by
  have hsame : legible channel (.message c payload :: passed ++ left) =
      legible channel (passed ++ left) := by
    rw [List.cons_append, legible, if_neg hc]
  cases h with
  | message hnot hlegible => exact .message (by simpa using hnot) (hsame.trans hlegible)
  | ended hmem hnone => exact .ended (List.mem_cons_of_mem _ hmem) (hsame.trans hnone)
  | nothing hnot hleft hnone => exact .nothing (by simpa using hnot) hleft (hsame.trans hnone)

theorem scan_finds (channel : String) (pending : List PeerEvent) (position : Nat) :
    ∃ passed left, pending = passed ++ left ∧
      (scan channel .nothing pending position).2 = position + passed.length ∧
      Finds channel passed left (scan channel .nothing pending position).1 := by
  induction pending generalizing position with
  | nil => exact ⟨[], [], rfl, rfl, .nothing nofun rfl rfl⟩
  | cons event pending ih =>
    cases event with
    | disconnect => exact ⟨[.disconnect], pending, rfl, rfl, .ended List.mem_cons_self rfl⟩
    | message c payload =>
      by_cases hc : c = channel
      · simp only [scan, if_pos hc]
        refine ⟨[.message c payload], pending, rfl, rfl, .message (by simp) ?_⟩
        rw [List.singleton_append, legible, if_pos hc]
      · simp only [scan, if_neg hc]
        obtain ⟨passed, left, hpending, hposition, hfinds⟩ := ih (position + 1)
        refine ⟨.message c payload :: passed, left, by rw [hpending, List.cons_append], ?_,
          hfinds.pass hc⟩
        rw [hposition, List.length_cons]
        omega

end Feed

def Heard.payload? : Heard → Option String
  | .message payload => some payload
  | .ended | .nothing => none

namespace Sentinel

/-- What is done with a sentinel. -/
inductive Move
  | publish (channel payload : String)
  | failover (name : String) (master : Endpoint)
  | reach (e : Endpoint) (up : Bool)
  | setMaster (name : String) (master : Endpoint)
  | addPeer (e : Endpoint)
  | subscribe (e : Endpoint) (channel : String)
  | unsubscribe (r : Reader)
deriving DecidableEq, Repr

namespace Move

def apply (s : Sentinel) : Move → Sentinel
  | publish channel payload => s.publish channel payload
  | failover name master => s.failover name master
  | reach e up => s.setUp e up
  | setMaster name master => s.setMaster name master
  | addPeer e => s.addPeer e
  | subscribe e channel => (s.subscribe e channel).1
  | unsubscribe r => s.unsubscribe r

/-- The channel and the payload that are published. -/
def sends (s : Sentinel) : Move → Option (String × String)
  | publish channel payload => some (channel, payload)
  | failover name master =>
    some (Failover.channel, Failover.Announcement.payload name (s.master? name) master)
  | _ => none

def sendsOn (s : Sentinel) (channel : String) (m : Move) : List String :=
  match m.sends s with
  | some (c, payload) => if c = channel then [payload] else []
  | none => []

/-- What the readers of a peer that is up are told. -/
def tells (s : Sentinel) (e : Endpoint) (m : Move) : List PeerEvent :=
  if m = .reach e false then [.disconnect]
  else match m.sends s with
    | some (c, payload) => [.message c payload]
    | none => []

variable {s : Sentinel} {e : Endpoint} {m : Move}

theorem mem_tells : .disconnect ∈ m.tells s e ↔ m = .reach e false := by
  unfold tells
  split
  · next hm => simp [hm]
  · next hm => split <;> simp [hm]

theorem legible_tells (hm : m ≠ .reach e false) (channel : String) :
    PeerEvent.legible channel (m.tells s e) = m.sendsOn s channel := by
  unfold tells sendsOn
  rw [if_neg hm]
  cases m.sends s with
  | none => rfl
  | some sent => rfl

theorem legible_tells_reach (channel : String) :
    PeerEvent.legible channel (Move.tells s e (.reach e false)) = [] := by
  rw [tells, if_pos rfl]
  rfl

end Move

def applyAll (s : Sentinel) (ms : List Move) : Sentinel := ms.foldl Move.apply s

/-- All that is published on a channel before a peer goes away. -/
def spoken (s : Sentinel) (e : Endpoint) (channel : String) : List Move → List String
  | [] => []
  | m :: ms =>
    if m = .reach e false then [] else m.sendsOn s channel ++ (m.apply s).spoken e channel ms

/-- The events of its peer that a reader has not passed. -/
def waiting (s : Sentinel) (r : Reader) : Nat :=
  match s.feeds[r.feed]? with
  | some f => f.events.length - r.position
  | none => 0

/-- One look at a subscription after the other. -/
def looks (s : Sentinel) (r : Reader) : Nat → List Heard
  | 0 => []
  | n + 1 => (s.next r).1 :: s.looks (s.next r).2 n

/-- Moves, and looks at a subscription in between until it has ended. Its peer is not added again,
and as long as it is looked at no more events wait than are kept. -/
inductive Follows (e : Endpoint) (s₀ : Sentinel) (r₀ : Reader) :
    List Move → List Heard → Sentinel → Reader → Prop
  | start : Follows e s₀ r₀ [] [] s₀ r₀
  | move {ms : List Move} {seen : List Heard} {s : Sentinel} {r : Reader} (m : Move) :
      Follows e s₀ r₀ ms seen s r → m ≠ .addPeer e →
      (.ended ∉ seen → (m.apply s).waiting r ≤ Feed.capacity) →
      Follows e s₀ r₀ (ms ++ [m]) seen (m.apply s) r
  | look {ms : List Move} {seen : List Heard} {s : Sentinel} {r : Reader} :
      Follows e s₀ r₀ ms seen s r → .ended ∉ seen →
      Follows e s₀ r₀ ms (seen ++ [(s.next r).1]) s (s.next r).2

variable {s s₀ s' : Sentinel} {e : Endpoint} {r r₀ : Reader} {m : Move} {ms ms' : List Move}
  {channel : String} {pending : List PeerEvent} {seen : List Heard}

theorem applyAll_concat : s.applyAll (ms ++ [m]) = m.apply (s.applyAll ms) := by
  simp [applyAll]

theorem spoken_append (h : .reach e false ∉ ms) : s.spoken e channel (ms ++ ms') =
    s.spoken e channel ms ++ (s.applyAll ms).spoken e channel ms' := by
  induction ms generalizing s with
  | nil => rfl
  | cons m ms ih =>
    obtain ⟨hhead, htail⟩ := not_or.mp (mt List.mem_cons.mpr h)
    simp only [List.cons_append, spoken, if_neg (Ne.symm hhead), ih htail, List.append_assoc]
    rfl

theorem spoken_append_of_mem (h : .reach e false ∈ ms) :
    s.spoken e channel (ms ++ ms') = s.spoken e channel ms := by
  induction ms generalizing s with
  | nil => cases h
  | cons m ms ih =>
    simp only [List.cons_append, spoken]
    split
    · rfl
    · next hm => rw [ih ((List.mem_cons.mp h).resolve_left (Ne.symm hm))]

/-- What is published by a move is what readers of the peer are told of it. -/
theorem spoken_singleton : s.spoken e channel [m] = PeerEvent.legible channel (m.tells s e) := by
  simp only [spoken, List.append_nil]
  split
  · next hm => rw [hm, Move.legible_tells_reach]
  · next hm => rw [Move.legible_tells hm]

theorem Sound.move (hs : s.Sound) (m : Move) : (m.apply s).Sound := by
  cases m with
  | publish channel payload => exact hs.publish channel payload
  | failover name master => exact hs.failover name master
  | reach e up => exact hs.setUp e up
  | setMaster name master => exact hs.setMaster name master
  | addPeer e => exact hs.addPeer e
  | subscribe e channel => exact hs.same (subscribe_same s e channel)
  | unsubscribe r => exact hs.same (unsubscribe_same s r)

theorem Sound.applyAll (hs : s.Sound) (ms : List Move) : (s.applyAll ms).Sound := by
  induction ms generalizing s with
  | nil => exact hs
  | cons m ms ih => exact ih (hs.move m)

namespace Trails

/-- What a move tells the readers of a peer is pending, unless the peer has disconnected them. -/
theorem apply (hs : s.Sound) (h : s.Trails e r pending) (hm : m ≠ .addPeer e) :
    (m.apply s).Trails e r (pending ++ m.tells s e) ∨
      .disconnect ∈ pending ∧ (m.apply s).Trails e r pending := by
  have hquiet {s' : Sentinel} (h' : s'.Trails e r pending) (hnone : m.tells s e = []) :
      s'.Trails e r (pending ++ m.tells s e) := by
    rwa [hnone, List.append_nil]
  cases m with
  | publish channel payload => exact h.publish hs channel payload
  | failover name master =>
    have hmaster : (s.setMaster name master).Trails e r pending := ⟨h.peer, h.feed⟩
    exact hmaster.publish (hs.setMaster name master) _ _
  | reach other up =>
    by_cases he : other = e
    · subst he
      have hself := h.setUp_self up
      cases up <;> exact .inl (by simpa [Move.apply, Move.tells, Move.sends] using hself)
    · exact .inl (hquiet (h.setUp_other hs he up) (by simp [Move.tells, Move.sends, he]))
  | setMaster name master => exact .inl (hquiet ⟨h.peer, h.feed⟩ rfl)
  | addPeer other =>
    have hne : other ≠ e := by
      rintro rfl
      exact hm rfl
    exact .inl (hquiet (h.addPeer_other hs hne) rfl)
  | subscribe other channel => exact .inl (hquiet (h.same (subscribe_same s other channel)) rfl)
  | unsubscribe other => exact .inl (hquiet (h.same (unsubscribe_same s other)) rfl)

theorem waiting_eq (h : s.Trails e r pending) : s.waiting r = pending.length := by
  obtain ⟨f, past, hf, -, hevents, hposition⟩ := h.feed
  simp only [waiting, hf, hevents, hposition, List.length_append, Nat.add_sub_cancel_left]

theorem pass {passed left : List PeerEvent} (h : s.Trails e r (passed ++ left))
    (hnot : .disconnect ∉ passed) :
    s.Trails e { r with position := r.position + passed.length } left := by
  obtain ⟨f, past, hf, hopen, hevents, hposition⟩ := h.feed
  obtain ⟨isUp, hpeer, hdown⟩ := h.peer
  refine ⟨⟨isUp, hpeer, ?_⟩, f, past ++ passed, hf, hopen, ?_, ?_⟩
  · intro hisUp
    exact (List.mem_append.mp (hdown hisUp)).resolve_left hnot
  · rw [hevents, List.append_assoc]
  · rw [hposition, List.length_append]

/-- A look at a subscription. -/
theorem look (h : s.Trails e r pending) (hfew : pending.length ≤ Feed.capacity) :
    ∃ heard r' passed left, s.next r = (heard, r') ∧ r'.channel = r.channel ∧
      pending = passed ++ left ∧ Feed.Finds r.channel passed left heard ∧
      (.disconnect ∉ passed → s.Trails e r' left) := by
  obtain ⟨passed, left, hpending, hposition, hfinds⟩ :=
    Feed.scan_finds r.channel pending r.position
  have hnext := h.next_eq hfew
  rw [hposition] at hnext
  subst hpending
  exact ⟨_, _, passed, left, hnext, rfl, rfl, hfinds, h.pass⟩

/-- Whoever goes on looking gets all that is pending, and then the end if the peer has
disconnected. -/
theorem looks_eq (h : s.Trails e r pending) (hfew : pending.length ≤ Feed.capacity)
    {rest : List String} (hrest : PeerEvent.legible r.channel pending = rest) :
    s.looks r (rest.length + 1) =
      rest.map Heard.message ++ [if .disconnect ∈ pending then .ended else .nothing] := by
  induction rest generalizing r pending with
  | nil =>
    obtain ⟨heard, r', passed, left, hnext, -, rfl, hfinds, -⟩ := h.look hfew
    cases hfinds with
    | message _ hlegible => cases hrest.symm.trans hlegible
    | ended hmem => simp [looks, hnext, hmem]
    | nothing hnot hleft => simp [looks, hnext, hnot, hleft]
  | cons payload rest ih =>
    obtain ⟨heard, r', passed, left, hnext, hchannel, rfl, hfinds, hmore⟩ := h.look hfew
    cases hfinds with
    | message hnot hlegible =>
      cases hrest.symm.trans hlegible
      have hleft : left.length ≤ Feed.capacity := by
        rw [List.length_append] at hfew
        omega
      have hlooks := ih (hmore hnot) hleft (by rw [hchannel])
      simp only [List.length_cons, List.map_cons, List.cons_append]
      rw [looks, hnext, hlooks]
      simp [hnot]
    | ended _ hnone => cases hrest.symm.trans hnone
    | nothing _ _ hnone => cases hrest.symm.trans hnone

end Trails

/-- Where a subscription stands: it has yielded what was spoken but for what is pending, or it has
ended with all of it. -/
inductive Stands (e : Endpoint) (channel : String) (s₀ : Sentinel) (ms : List Move)
    (seen : List Heard) (s : Sentinel) (r : Reader) : Prop
  | goes {pending : List PeerEvent} : .ended ∉ seen → r.channel = channel → s.Trails e r pending →
      pending.length ≤ Feed.capacity → (.disconnect ∈ pending ↔ .reach e false ∈ ms) →
      seen.filterMap Heard.payload? ++ PeerEvent.legible channel pending = s₀.spoken e channel ms →
      Stands e channel s₀ ms seen s r
  | ended : .ended ∈ seen → .reach e false ∈ ms →
      seen.filterMap Heard.payload? = s₀.spoken e channel ms → Stands e channel s₀ ms seen s r

namespace Stands

theorem move (hsound : (s₀.applyAll ms).Sound)
    (h : Stands e channel s₀ ms seen (s₀.applyAll ms) r) (hm : m ≠ .addPeer e)
    (hfew : .ended ∉ seen → (m.apply (s₀.applyAll ms)).waiting r ≤ Feed.capacity) :
    Stands e channel s₀ (ms ++ [m]) seen (m.apply (s₀.applyAll ms)) r := by
  cases h with
  | ended hended hdown hall =>
    refine .ended hended (List.mem_append_left _ hdown) ?_
    rw [hall, spoken_append_of_mem hdown]
  | @goes pending hon hchannel htrails _ hdown hspoken =>
    rcases htrails.apply hsound hm with htrails' | ⟨hmem, htrails'⟩
    · have hfew' := htrails'.waiting_eq ▸ hfew hon
      refine .goes hon hchannel htrails' hfew' ?_ ?_
      · rw [List.mem_append, Move.mem_tells, hdown, List.mem_append, List.mem_singleton, eq_comm]
      · by_cases hmem : .disconnect ∈ pending
        · rw [PeerEvent.legible_append_of_mem hmem, hspoken, spoken_append_of_mem (hdown.mp hmem)]
        · rw [PeerEvent.legible_append hmem, ← List.append_assoc, hspoken,
            spoken_append (mt hdown.mpr hmem), spoken_singleton]
    · have hfew' := htrails'.waiting_eq ▸ hfew hon
      refine .goes hon hchannel htrails' hfew' ?_ ?_
      · simp [hmem, hdown.mp hmem]
      · rw [hspoken, spoken_append_of_mem (hdown.mp hmem)]

theorem look (h : Stands e channel s₀ ms seen s r) (hon : .ended ∉ seen) :
    Stands e channel s₀ ms (seen ++ [(s.next r).1]) s (s.next r).2 := by
  cases h with
  | ended hended => exact absurd hended hon
  | goes _ hchannel htrails hfew hdown hspoken =>
    obtain ⟨heard, r', passed, left, hnext, hchannel', rfl, hfinds, hmore⟩ := htrails.look hfew
    subst hchannel
    have hleft : left.length ≤ Feed.capacity := by
      rw [List.length_append] at hfew
      omega
    rw [hnext]
    cases hfinds with
    | message hnot hlegible =>
      refine .goes (by simpa using hon) hchannel' (hmore hnot) hleft ?_ ?_
      · rw [← hdown]
        simp [hnot]
      · rw [← hspoken, hlegible]
        simp [Heard.payload?]
    | ended hmem hnone =>
      refine .ended (by simp) (hdown.mp (List.mem_append_left _ hmem)) ?_
      rw [← hspoken, hnone]
      simp [Heard.payload?]
    | nothing hnot hnil hnone =>
      refine .goes (by simpa using hon) hchannel' (hmore hnot) hleft ?_ ?_
      · rw [← hdown]
        simp [hnot]
      · rw [← hspoken, hnone, hnil]
        simp [Heard.payload?, PeerEvent.legible]

end Stands

theorem Follows.stands (hsound : s₀.Sound) (hchannel : r₀.channel = channel)
    (htrails : s₀.Trails e r₀ []) (h : Follows e s₀ r₀ ms seen s r) :
    s = s₀.applyAll ms ∧ Stands e channel s₀ ms seen s r := by
  induction h with
  | start => exact ⟨rfl, .goes nofun hchannel htrails (Nat.zero_le _) (by simp) rfl⟩
  | move m _ hm hfew ih =>
    obtain ⟨rfl, hstands⟩ := ih
    exact ⟨applyAll_concat.symm, hstands.move (hsound.applyAll _) hm hfew⟩
  | look _ hon ih => exact ⟨ih.1, ih.2.look hon⟩

/-- A subscription yields what is published on its channel before its peer goes away for the first
time, each payload once and in order, and ends just then. Until then the peer is up. What a reader
has not looked at by now it gets by looking on, whether or not the peer has come back. -/
theorem subscription_yields_all {earlier : List Move}
    (hsubscribe : (applyAll {} earlier).subscribe e channel = (s₀, .ok r₀))
    (h : Follows e s₀ r₀ ms seen s r) :
    ∃ rest, seen.filterMap Heard.payload? ++ rest = s₀.spoken e channel ms ∧
      (.reach e false ∉ ms → ∃ peer, s.upPeer? e = .ok peer) ∧
      if .ended ∈ seen then rest = [] ∧ .reach e false ∈ ms
      else s.looks r (rest.length + 1) =
        rest.map Heard.message ++ [if .reach e false ∈ ms then .ended else .nothing] := by
  have hsound : (applyAll {} earlier).Sound := Sound.empty.applyAll earlier
  have hsound₀ : s₀.Sound := by
    have hsame := subscribe_same (applyAll {} earlier) e channel
    rw [hsubscribe] at hsame
    exact hsound.same hsame
  obtain ⟨hchannel, htrails⟩ := Trails.of_subscribe hsound hsubscribe
  obtain ⟨-, hstands⟩ := h.stands hsound₀ hchannel htrails
  cases hstands with
  | ended hended hdown hall =>
    refine ⟨[], by rw [List.append_nil, hall], fun hup => absurd hdown hup, ?_⟩
    rw [if_pos hended]
    exact ⟨rfl, hdown⟩
  | @goes pending hon hchannel htrails hfew hdown hspoken =>
    refine ⟨PeerEvent.legible channel pending, hspoken, ?_, ?_⟩
    · intro hup
      obtain ⟨isUp, hpeer, htold⟩ := htrails.peer
      cases isUp with
      | true => exact ⟨_, by rw [upPeer?, hpeer]; rfl⟩
      | false => exact absurd (hdown.mp (htold rfl)) hup
    · rw [if_neg hon, htrails.looks_eq hfew (by rw [hchannel])]
      simp only [hdown]

/-- A sentinel of one peer, which has one subscriber. -/
def joined : Sentinel :=
  ((applyAll {} [.addPeer ⟨"p", 1⟩]).subscribe ⟨"p", 1⟩ "news").1

theorem subscription_yields_all_before_outage : ∃ s r,
    (applyAll {} [.addPeer ⟨"p", 1⟩]).subscribe ⟨"p", 1⟩ "news" = (joined, .ok ⟨0, "news", 0⟩) ∧
    Follows ⟨"p", 1⟩ joined ⟨0, "news", 0⟩
      [.publish "news" "1", .publish "other" "2", .publish "news" "3", .reach ⟨"p", 1⟩ false,
        .reach ⟨"p", 1⟩ true, .publish "news" "4"] [.message "1"] s r ∧
    s.looks r 2 = [.message "3", .ended] := by
  have hsubscribe : (applyAll {} [.addPeer ⟨"p", 1⟩]).subscribe ⟨"p", 1⟩ "news" =
      (joined, .ok ⟨0, "news", 0⟩) := rfl
  have hstart : Follows ⟨"p", 1⟩ joined ⟨0, "news", 0⟩ [] [] joined ⟨0, "news", 0⟩ := .start
  have hlooked := (hstart.move (.publish "news" "1") nofun fun _ => by decide).look nofun
  have hspoken := (hlooked.move (.publish "other" "2") nofun fun _ => by decide).move
    (.publish "news" "3") nofun fun _ => by decide
  have hdown := hspoken.move (.reach ⟨"p", 1⟩ false) nofun fun _ => by decide
  have hagain := (hdown.move (.reach ⟨"p", 1⟩ true) nofun fun _ => by decide).move
    (.publish "news" "4") nofun fun _ => by decide
  obtain ⟨rest, hall, -, hlooks⟩ := subscription_yields_all hsubscribe hagain
  obtain ⟨-, rfl⟩ := List.cons.inj hall
  exact ⟨_, _, hsubscribe, hagain, hlooks⟩

end Sentinel
end Holdfast.Memory
