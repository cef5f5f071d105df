import Holdfast.Proofs.Failover.Delivery
import Mathlib.Data.List.Induction

namespace Holdfast

open Failover Store

namespace Failover

/-- The master that a step of a listener brings to a shard of the router. -/
def Note.master? (names : List String) (name : String) (note : Note) : Option Endpoint := do
  let payload ← note.deed.payload?
  let a ← known? names payload
  if a.shard = name then some a.new else none

theorem mastersOf_applied (names : List String) (name : String) (notes : List Note) :
    mastersOf name (announced names (applied notes)) = notes.filterMap (Note.master? names name) := by
  induction notes with
  | nil => rfl
  | cons note notes ih =>
    have hcons : applied (note :: notes) = note.deed.payload?.toList ++ applied notes := by
      cases hp : note.deed.payload? <;> simp [applied, hp]
    rw [hcons, announced_append, mastersOf_append, ih, List.filterMap_cons]
    cases hp : note.deed.payload? with
    | none => simp [Note.master?, hp, announced, mastersOf]
    | some payload =>
      cases ha : known? names payload with
      | none => simp [Note.master?, hp, ha, announced, mastersOf]
      | some a => by_cases hname : a.shard = name <;>
          simp [Note.master?, hp, ha, hname, announced, mastersOf]

/-- The last thing that was noted of all listeners was noted of one of them, and was the last one
there too. -/
theorem last_of_one {β : Type} {f : Note → Option β} {notes : List Note} {b : β}
    (h : (notes.filterMap f).getLast? = some b) :
    ∃ note ∈ notes, ((notesOf note.index notes).filterMap f).getLast? = some b := by
  induction notes using List.reverseRecOn with
  | nil => cases h
  | append_singleton notes note ih =>
    rw [List.filterMap_append, List.getLast?_append] at h
    cases hf : f note with
    | some b' =>
      refine ⟨note, by simp, ?_⟩
      rw [notesOf_append, notesOf_singleton, if_pos rfl, List.filterMap_append, List.getLast?_append]
      simpa [hf] using h
    | none =>
      obtain ⟨first, hmem, hlast⟩ := ih (by simpa [hf] using h)
      refine ⟨first, List.mem_append_left _ hmem, ?_⟩
      rw [notesOf_append, notesOf_singleton]
      split <;> simpa [hf] using hlast

/-- Where all listeners hear the same news of a shard, the last news of it that any of them hears is
the last news of it. -/
theorem last_master {names : List String} {name : String} {notes : List Note} {count : Nat}
    {masters : List Endpoint} (hlt : ∀ note ∈ notes, note.index < count)
    (hsame : ∀ i < count,
      mastersOf name (announced names (applied (notesOf i notes))) = masters)
    (hnone : count = 0 → masters = []) :
    (mastersOf name (announced names (applied notes))).getLast? = masters.getLast? := by
  cases hlast : (mastersOf name (announced names (applied notes))).getLast? with
  | some e =>
    rw [mastersOf_applied] at hlast
    obtain ⟨note, hmem, hone⟩ := last_of_one hlast
    rw [← mastersOf_applied, hsame _ (hlt note hmem)] at hone
    exact hone.symm
  | none =>
    rw [mastersOf_applied] at hlast
    have hquiet := List.getLast?_eq_none_iff.mp hlast
    have hmasters : masters = [] := by
      cases count with
      | zero => exact hnone rfl
      | succ count =>
        rw [← hsame 0 (Nat.succ_pos _), mastersOf_applied]
        have hsub : ((notesOf 0 notes).filterMap (Note.master? names name)).Sublist
            (notes.filterMap (Note.master? names name)) := List.filter_sublist.filterMap _
        rw [hquiet] at hsub
        exact List.sublist_nil.mp hsub
    rw [hmasters]
    rfl

end Failover

namespace Deployment

/-- Several peers send the same announcements, each with noise of its own. However their deliveries
are mixed, once all is delivered each shard is at the last master that was announced for it. -/
theorem topology_converges {names : List String} {t : Topology} {o : PoolOptions} {b : Backend}
    {ps₀ ps : Pools Link} {r : Router} (hnew : Router.new names t o b ps₀ = .ok (ps, r))
    (hnames : names.Nodup) {s : Router.Site Link} {isOpen : Bool}
    (hlife : Router.Lives ⟨ps, r⟩ s isOpen) {d d' : Deployment} {n : Nat} (hs : d.site? n = some s)
    {script : Failover.Script} (hscript : d.directory = .script script) {peers : List Endpoint}
    (hpeers : peers.Nodup) {news : List Announcement}
    (hsame : ∀ peer ∈ peers, announced names (script.payloads peer) = news)
    (hnone : peers = [] → news = []) {backoff : Nat} {notes : List Note}
    (hrun : Listens (Aside Eq d.monitors.length n) d.monitors.length
      (d.watch .memory n peers backoff).1 d' notes)
    (hdone : ∀ m l, d'.monitors[d.monitors.length]? = some m → l ∈ m.listeners →
      d'.awaited l = []) :
    ∃ s', d'.site? n = some s' ∧ s'.router.topology = s.router.topology.following names news ∧
      ∀ {i name e}, names[i]? = some name → s.router.topology.master? i = some e →
        s'.router.topology.master? i = some ((mastersOf name news).getLast?.getD e) := by
  obtain ⟨hsound, hr⟩ := Router.new_sound hnew
  have hsn : s.router.names = names := hlife.names.trans hr
  have hsize : s.router.topology.size = s.router.names.length := (hlife.staffed hsound).size
  have hm := watch_monitor d .memory n peers backoff
  obtain ⟨s', -, hs', -, -, htopology⟩ := hrun.site hm rfl hs hlife (by rwa [hsn]) hsize
  rw [hsn] at htopology hsize
  have hlast : ∀ name, (mastersOf name (announced names (applied notes))).getLast? =
      (mastersOf name news).getLast? := by
    intro name
    refine last_master (?_ : ∀ note ∈ notes, note.index < peers.length) ?_ ?_
    · simpa using hrun.index_lt (keeps_aside _ _ n) hm
    · intro i hi
      obtain ⟨peer, hpeer, m', l, hm', hl, hheard⟩ := heard_and_awaited hscript hpeers hrun i hi
      rw [hdone m' l hm' hl, List.append_nil] at hheard
      rw [hheard, hsame peer hpeer]
    · intro hcount
      rw [hnone (List.length_eq_zero_iff.mp hcount)]
      rfl
  have heq : s'.router.topology = s.router.topology.following names news := by
    rw [htopology]
    apply Topology.ext_masters (Topology.size_following _ _ hsize) (Topology.size_following _ _ hsize)
    intro i name hi
    rw [Topology.master?_following hi, Topology.master?_following hi, hlast]
  refine ⟨s', hs', heq, ?_⟩
  intro i name e hi he
  rw [heq, Topology.master?_following hi, he]
  rfl

/-- Two peers that announce the same switches of the shard `a`, and other things besides. -/
def gossip : Failover.Script := .ofPayloads
  [(⟨"p", 1⟩, ["a h 1 h 2", "junk", "a h 2 h 3"]),
    (⟨"p", 2⟩, ["c h 5 h 6", "a h 1 h 2", "a h 2 h 3"])]

theorem topology_converges_late : ∃ (ps : Pools Link) (r : Router),
    Router.new ["a", "b"] ⟨[⟨"h", 1⟩, ⟨"h", 2⟩]⟩ {} .memory [] = .ok (ps, r) ∧
    ∃ notes d' s', moves 0 [0, 0, 0, 0, 0, 0, 1, 1, 1, 1, 1, 1]
        (watch { Router.Site.deployed ⟨ps, r⟩ with directory := .script gossip }
          .memory 0 [⟨"p", 1⟩, ⟨"p", 2⟩] 10).1 = some (notes, d') ∧
      d'.site? 0 = some s' ∧ s'.router.topology = ⟨[⟨"h", 3⟩, ⟨"h", 2⟩]⟩ := by
  obtain ⟨ps, r, hnew, hr, hend⟩ : ∃ ps r,
      @Router.new Link ["a", "b"] ⟨[⟨"h", 1⟩, ⟨"h", 2⟩]⟩ {} .memory [] = .ok (ps, r) ∧
      r.topology = ⟨[⟨"h", 1⟩, ⟨"h", 2⟩]⟩ ∧
      (moves 0 [0, 0, 0, 0, 0, 0, 1, 1, 1, 1, 1, 1]
        (watch { Router.Site.deployed ⟨ps, r⟩ with directory := .script gossip }
          .memory 0 [⟨"p", 1⟩, ⟨"p", 2⟩] 10).1).map (fun out =>
        out.2.monitors[0]?.map fun m => m.listeners.map out.2.awaited) = some (some [[], []]) :=
    ⟨_, _, rfl, rfl, rfl⟩
  obtain ⟨⟨notes, d'⟩, hmoves, hawaited⟩ := Option.map_eq_some_iff.mp hend
  have hdone : ∀ m l, d'.monitors[0]? = some m → l ∈ m.listeners → d'.awaited l = [] := by
    intro m l hm hl
    have hlist : m.listeners.map d'.awaited = [[], []] := by simpa [hm] using hawaited
    have hmem : d'.awaited l ∈ m.listeners.map d'.awaited := List.mem_map_of_mem hl
    simpa [hlist] using hmem
  have hsame : ∀ peer ∈ [⟨"p", 1⟩, ⟨"p", 2⟩], announced ["a", "b"] (gossip.payloads peer) =
      [⟨"a", ⟨"h", 1⟩, ⟨"h", 2⟩⟩, ⟨"a", ⟨"h", 2⟩, ⟨"h", 3⟩⟩] := by decide
  obtain ⟨s', hs', htopology, -⟩ := topology_converges hnew (by decide) .here
    (d := { Router.Site.deployed ⟨ps, r⟩ with directory := .script gossip }) (n := 0) rfl rfl
    (by decide) hsame (by decide) (.of_moves hmoves) hdone
  refine ⟨ps, r, hnew, notes, d', s', hmoves, hs', htopology.trans ?_⟩
  rw [hr]
  rfl

end Deployment
end Holdfast
