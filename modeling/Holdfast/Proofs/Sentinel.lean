import Holdfast.Memory.Sentinel
import Holdfast.Proofs.Table
import Mathlib.Data.List.Nodup

namespace Holdfast.Memory

open Store

/-- What readers learn from a feed, however many there are. -/
def Feed.told (f : Feed) : List PeerEvent × Bool := (f.events, f.isOpen)

namespace Sentinel

/-- Every peer has an open feed of its own. -/
structure Sound (s : Sentinel) : Prop where
  keys : (s.peers.map Prod.fst).Nodup
  distinct : ∀ {p q}, p ∈ s.peers → q ∈ s.peers → p.2.feed = q.2.feed → p = q
  isOpen : ∀ {p}, p ∈ s.peers → ∃ f, s.feeds[p.2.feed]? = some f ∧ f.isOpen = true

/-- The same but for the number of readers. -/
structure Same (s s' : Sentinel) : Prop where
  masters : s'.masters = s.masters
  peers : s'.peers = s.peers
  told : s'.feeds.map Feed.told = s.feeds.map Feed.told

theorem Same.refl (s : Sentinel) : s.Same s := ⟨rfl, rfl, rfl⟩

theorem Same.trans {s₁ s₂ s₃ : Sentinel} (h : s₁.Same s₂) (h' : s₂.Same s₃) : s₁.Same s₃ :=
  ⟨h'.masters.trans h.masters, h'.peers.trans h.peers, h'.told.trans h.told⟩

theorem Same.symm {s s' : Sentinel} (h : s.Same s') : s'.Same s :=
  ⟨h.masters.symm, h.peers.symm, h.told.symm⟩

variable {s s' : Sentinel} {channel payload : String}

theorem Same.master?_eq (h : s.Same s') (name : String) : s'.master? name = s.master? name := by
  unfold master?
  rw [h.masters]

theorem Same.feed (h : s.Same s') {id : Nat} {f : Feed} (hf : s.feeds[id]? = some f) :
    ∃ f', s'.feeds[id]? = some f' ∧ f'.events = f.events ∧ f'.isOpen = f.isOpen := by
  have htold : (s'.feeds.map Feed.told)[id]? = some f.told := by
    rw [h.told, List.getElem?_map, hf]
    rfl
  rw [List.getElem?_map] at htold
  obtain ⟨f', hf', hsame⟩ := Option.map_eq_some_iff.mp htold
  exact ⟨f', hf', congrArg Prod.fst hsame, congrArg Prod.snd hsame⟩

theorem countReader_same (s : Sentinel) (feed : Nat) (count : Nat → Nat) :
    s.Same (s.countReader feed count) := by
  refine ⟨rfl, rfl, ?_⟩
  apply List.ext_getElem?
  intro i
  simp only [countReader, List.getElem?_map, List.getElem?_modify]
  cases s.feeds[i]? with
  | none => rfl
  | some f => by_cases h : feed = i <;> simp [h, Feed.told]

theorem subscribe_same (s : Sentinel) (e : Endpoint) (channel : String) :
    s.Same (s.subscribe e channel).1 := by
  unfold subscribe
  split
  · exact .refl s
  · exact countReader_same s _ _

theorem unsubscribe_same (s : Sentinel) (r : Reader) : s.Same (s.unsubscribe r) :=
  countReader_same s _ _

/-- Sends a payload through one peer, if it is up. -/
def sent (channel payload : String) (feeds : List Feed) (p : Endpoint × Peer) : List Feed :=
  if p.2.isUp then feeds.modify p.2.feed (·.push (.message channel payload)) else feeds

theorem publish_feeds (s : Sentinel) (channel payload : String) :
    (s.publish channel payload).feeds = s.peers.foldl (sent channel payload) s.feeds := rfl

theorem getElem?_sent (feeds : List Feed) (p : Endpoint × Peer) (id : Nat) :
    (sent channel payload feeds p)[id]? = feeds[id]?.map fun f =>
      if p.2.feed = id && p.2.isUp then f.push (.message channel payload) else f := by
  unfold sent
  cases p.2.isUp with
  | false => simp
  | true => by_cases hid : p.2.feed = id <;> simp [hid]

/-- A payload comes into the feeds of those peers that are up, once. -/
theorem getElem?_foldl_sent {ps : List (Endpoint × Peer)} (hd : (ps.map (·.2.feed)).Nodup)
    (feeds : List Feed) (id : Nat) : (ps.foldl (sent channel payload) feeds)[id]? =
      feeds[id]?.map fun f => if ps.any fun p => p.2.feed = id && p.2.isUp then
        f.push (.message channel payload) else f := by
  induction ps generalizing feeds with
  | nil => simp
  | cons p ps ih =>
    obtain ⟨hnot, hd'⟩ := List.nodup_cons.mp hd
    rw [List.foldl_cons, ih hd', getElem?_sent, Option.map_map]
    congr 1
    funext f
    rw [Function.comp_apply, List.any_cons]
    by_cases hid : p.2.feed = id
    · have hnone : (ps.any fun p => p.2.feed = id && p.2.isUp) = false := by
        apply List.any_eq_false.mpr
        intro q hq
        have hne : q.2.feed ≠ id := by
          intro he
          exact hnot (List.mem_map.mpr ⟨q, hq, he.trans hid.symm⟩)
        simp [hne]
      simp [hnone]
    · rw [decide_eq_false hid, Bool.false_and, Bool.false_or]
      rfl

namespace Sound

theorem empty : Sound {} := ⟨.nil, nofun, nofun⟩

theorem same (hs : s.Sound) (h : s.Same s') : s'.Sound := by
  refine ⟨?_, ?_, ?_⟩
  · rw [h.peers]
    exact hs.keys
  · rw [h.peers]
    exact hs.distinct
  · intro p hp
    rw [h.peers] at hp
    obtain ⟨f, hf, hopen⟩ := hs.isOpen hp
    obtain ⟨f', hf', -, hsame⟩ := h.feed hf
    exact ⟨f', hf', hsame.trans hopen⟩

theorem setMaster (hs : s.Sound) (name : String) (master : Endpoint) :
    (s.setMaster name master).Sound := ⟨hs.keys, hs.distinct, hs.isOpen⟩

theorem lt (hs : s.Sound) {p : Endpoint × Peer} (hp : p ∈ s.peers) :
    p.2.feed < s.feeds.length := by
  obtain ⟨f, hf, -⟩ := hs.isOpen hp
  exact (List.getElem?_eq_some_iff.mp hf).1

/-- What a publication leaves in the feed of a peer. -/
theorem publish_feed (hs : s.Sound) {p : Endpoint × Peer} (hp : p ∈ s.peers)
    (channel payload : String) :
    (s.publish channel payload).feeds[p.2.feed]? = s.feeds[p.2.feed]?.map fun f =>
      if p.2.isUp then f.push (.message channel payload) else f := by
  have hd : (s.peers.map (·.2.feed)).Nodup :=
    hs.keys.of_map.map_on fun p hp q hq he => hs.distinct hp hq he
  have hany : (s.peers.any fun q => q.2.feed = p.2.feed && q.2.isUp) = p.2.isUp := by
    cases hup : p.2.isUp with
    | true => exact List.any_eq_true.mpr ⟨p, hp, by simp [hup]⟩
    | false =>
      apply List.any_eq_false.mpr
      intro q hq
      by_cases he : q.2.feed = p.2.feed
      · rw [hs.distinct hq hp he]
        simp [hup]
      · simp [he]
  rw [publish_feeds, getElem?_foldl_sent hd, hany]

theorem publish (hs : s.Sound) (channel payload : String) :
    (s.publish channel payload).Sound := by
  refine ⟨hs.keys, hs.distinct, ?_⟩
  intro p hp
  obtain ⟨f, hf, hopen⟩ := hs.isOpen hp
  rw [hs.publish_feed hp channel payload, hf]
  refine ⟨_, rfl, ?_⟩
  dsimp only
  split <;> exact hopen

theorem failover (hs : s.Sound) (name : String) (master : Endpoint) :
    (s.failover name master).Sound := (hs.setMaster name master).publish _ _

/-- A peer that goes away or comes back keeps its feed. -/
theorem setUp (hs : s.Sound) (e : Endpoint) (up : Bool) : (s.setUp e up).Sound := by
  unfold Sentinel.setUp
  split
  · exact hs
  · next peer hpeer =>
    have hold := Table.mem_of_get? hpeer
    refine ⟨Table.nodup_set hs.keys _ _, ?_, ?_⟩
    · intro p q hp hq he
      rcases Table.mem_set hs.keys hp with rfl | ⟨hp, hpe⟩
      · rcases Table.mem_set hs.keys hq with rfl | ⟨hq, hqe⟩
        · rfl
        · exact absurd (congrArg Prod.fst (hs.distinct hold hq he)).symm hqe
      · rcases Table.mem_set hs.keys hq with rfl | ⟨hq, hqe⟩
        · exact absurd (congrArg Prod.fst (hs.distinct hp hold he)) hpe
        · exact hs.distinct hp hq he
    · intro p hp
      have hfeed := hs.isOpen hold
      obtain ⟨f, hf, hopen⟩ : ∃ f, s.feeds[p.2.feed]? = some f ∧ f.isOpen = true := by
        rcases Table.mem_set hs.keys hp with rfl | ⟨hp, -⟩
        · exact hfeed
        · exact hs.isOpen hp
      cases up with
      | true => exact ⟨f, hf, hopen⟩
      | false =>
        simp only [Bool.false_eq_true, if_false, List.getElem?_modify, hf]
        refine ⟨_, rfl, ?_⟩
        split <;> exact hopen

/-- A peer that is added has a feed that there was not before. -/
theorem addPeer (hs : s.Sound) (e : Endpoint) : (s.addPeer e).Sound := by
  obtain ⟨feeds, hs', hlength, hothers⟩ : ∃ feeds, s.addPeer e =
      { s with peers := s.peers.set e { feed := feeds.length }, feeds := feeds ++ [{}] } ∧
      feeds.length = s.feeds.length ∧
      ∀ p ∈ s.peers, p.1 ≠ e → feeds[p.2.feed]? = s.feeds[p.2.feed]? := by
    cases hpeer : s.peers.get? e with
    | none => exact ⟨s.feeds, by simp only [Sentinel.addPeer, hpeer], rfl, fun _ _ _ => rfl⟩
    | some peer =>
      refine ⟨s.feeds.modify peer.feed fun f => { f with isOpen := false },
        by simp only [Sentinel.addPeer, hpeer], List.length_modify .., ?_⟩
      intro p hp hne
      have hother : peer.feed ≠ p.2.feed := by
        intro he
        exact hne (congrArg Prod.fst (hs.distinct (Table.mem_of_get? hpeer) hp he)).symm
      rw [List.getElem?_modify_ne _ _ hother]
  rw [hs']
  refine ⟨Table.nodup_set hs.keys _ _, ?_, ?_⟩
  · intro p q hp hq he
    rcases Table.mem_set hs.keys hp with rfl | ⟨hp, -⟩
    · rcases Table.mem_set hs.keys hq with rfl | ⟨hq, -⟩
      · rfl
      · have hlt := hs.lt hq
        dsimp only at he
        omega
    · rcases Table.mem_set hs.keys hq with rfl | ⟨hq, -⟩
      · have hlt := hs.lt hp
        dsimp only at he
        omega
      · exact hs.distinct hp hq he
  · intro p hp
    rcases Table.mem_set hs.keys hp with rfl | ⟨hp, hne⟩
    · exact ⟨{}, List.getElem?_concat_length, rfl⟩
    · obtain ⟨f, hf, hopen⟩ := hs.isOpen hp
      refine ⟨f, ?_, hopen⟩
      dsimp only
      rw [List.getElem?_append_left (by rw [hlength]; exact hs.lt hp), hothers p hp hne, hf]

end Sound

end Sentinel
end Holdfast.Memory
