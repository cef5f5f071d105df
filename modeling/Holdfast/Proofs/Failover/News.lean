import Holdfast.Failover.Switch
import Holdfast.Proofs.Router.Shutdown

namespace Holdfast

open Failover

namespace Failover

/-- The announcement in a payload that is about one of the shards. -/
def known? (names : List String) (payload : String) : Option Announcement :=
  match Announcement.parse payload with
  | .ok a => if a.shard ∈ names then some a else none
  | .error _ => none

/-- What payloads announce of the shards of a router, in order. -/
def announced (names payloads : List String) : List Announcement := payloads.filterMap (known? names)

/-- The masters that are announced for one shard, in order. -/
def mastersOf (name : String) (news : List Announcement) : List Endpoint :=
  (news.filter (·.shard = name)).map (·.new)

theorem shard_of_known {names : List String} {payload : String} {a : Announcement}
    (h : known? names payload = some a) : a.shard ∈ names := by
  unfold known? at h
  split at h
  · split at h
    · cases h
      assumption
    · cases h
  · cases h

@[simp] theorem announced_append (names ps qs : List String) :
    announced names (ps ++ qs) = announced names ps ++ announced names qs := by
  simp [announced]

@[simp] theorem mastersOf_append (name : String) (as bs : List Announcement) :
    mastersOf name (as ++ bs) = mastersOf name as ++ mastersOf name bs := by
  simp [mastersOf]

end Failover

/-- The topology after some announcements, where each shard is at the last master announced for it. -/
def Topology.following (t : Topology) (names : List String) (news : List Announcement) : Topology :=
  ⟨List.zipWith (fun name e => (mastersOf name news).getLast?.getD e) names t.masters⟩

namespace Topology

variable {names : List String}

@[simp] theorem size_following (t : Topology) (news : List Announcement)
    (h : t.size = names.length) : (t.following names news).size = names.length := by
  simp only [following, size, List.length_zipWith] at h ⊢
  omega

theorem master?_following {i : Nat} {name : String} (hi : names[i]? = some name) (t : Topology)
    (news : List Announcement) : (t.following names news).master? i =
      (t.master? i).map fun e => (mastersOf name news).getLast?.getD e := by
  unfold following master?
  rw [List.getElem?_zipWith, hi]
  cases t.masters[i]? <;> rfl

/-- Topologies over the same shards are the same when each shard has the same master. -/
theorem ext_masters {t t' : Topology} (h : t.size = names.length) (h' : t'.size = names.length)
    (hmasters : ∀ {i name}, names[i]? = some name → t.master? i = t'.master? i) : t = t' := by
  have heq : t.masters = t'.masters := by
    apply List.ext_getElem?
    intro i
    by_cases hi : i < names.length
    · exact hmasters (List.getElem?_eq_getElem hi)
    · have hlen : t.masters.length = names.length := h
      have hlen' : t'.masters.length = names.length := h'
      rw [List.getElem?_eq_none (by omega), List.getElem?_eq_none (by omega)]
  exact congrArg mk heq

theorem following_nil {t : Topology} (h : t.size = names.length) : t.following names [] = t := by
  apply ext_masters (size_following t [] h) h
  intro i name hi
  rw [master?_following hi]
  cases t.master? i <;> rfl

theorem following_append {t : Topology} (h : t.size = names.length) (as bs : List Announcement) :
    (t.following names as).following names bs = t.following names (as ++ bs) := by
  apply ext_masters (size_following _ _ (size_following _ _ h)) (size_following _ _ h)
  intro i name hi
  simp only [master?_following hi, Option.map_map, mastersOf_append, List.getLast?_append]
  congr 1
  funext e
  cases (mastersOf name bs).getLast? <;> simp

theorem following_singleton {t : Topology} (h : t.size = names.length) (hd : names.Nodup)
    {a : Announcement} {i : Nat} (hi : names[i]? = some a.shard) :
    t.following names [a] = ⟨t.masters.set i a.new⟩ := by
  have hlen : t.masters.length = names.length := h
  have hset : (⟨t.masters.set i a.new⟩ : Topology).size = names.length := by simp [size, hlen]
  apply ext_masters (size_following t [a] h) hset
  intro j name hj
  obtain ⟨hjlt, hjname⟩ := List.getElem?_eq_some_iff.mp hj
  obtain ⟨hilt, hiname⟩ := List.getElem?_eq_some_iff.mp hi
  have hjlt' : j < t.masters.length := by omega
  rw [master?_following hj]
  by_cases hij : i = j
  · subst hij
    have hname : a.shard = name := hiname.symm.trans hjname
    simp [mastersOf, master?, hname, hjlt']
  · have hname : a.shard ≠ name := by
      intro he
      apply hij
      exact hd.getElem_inj_iff.mp (hiname.trans (he.trans hjname.symm))
    simp [mastersOf, master?, hname, hij, hjlt']

end Topology

namespace Router

variable {κ : Type}

/-- Applies a payload to a router and its pools. -/
def Site.hear (s : Site κ) (payload : String) : Site κ :=
  ⟨(s.router.applySwitch s.pools payload).1, (s.router.applySwitch s.pools payload).2⟩

theorem applySwitch_noise {r : Router} {payload : String} (h : known? r.names payload = none)
    (ps : Pools κ) : r.applySwitch ps payload = (ps, r) := by
  unfold known? at h
  unfold applySwitch
  split at h
  · next a ha =>
    have hnot : a.shard ∉ r.names := by
      intro hmem
      simp [hmem] at h
    have hnone : r.shardIndex? a.shard = none := by
      apply List.findIdx?_eq_none_iff.mpr
      intro name hname
      simp only [decide_eq_false_iff_not]
      intro he
      exact hnot (he ▸ hname)
    simp [ha, hnone]
  · next ha => simp [ha]

theorem Site.hear_noise {s : Site κ} {payload : String}
    (h : known? s.router.names payload = none) : s.hear payload = s := by
  simp [hear, applySwitch_noise h]

/-- News of a shard moves it to its new master, as a caller could do it. -/
theorem Site.hear_news {s : Site κ} {payload : String} {a : Announcement}
    (h : known? s.router.names payload = some a) :
    ∃ i, s.router.names[i]? = some a.shard ∧ (∀ j < i, s.router.names[j]? ≠ some a.shard) ∧
      s.hear payload = (s.change (.update i a.new)).1 := by
  have hmem := shard_of_known h
  have hparse : Announcement.parse payload = .ok a := by
    unfold known? at h
    split at h
    · split at h <;> simp_all
    · cases h
  obtain ⟨i, hi⟩ : ∃ i, s.router.names.findIdx? (· = a.shard) = some i := by
    apply Option.isSome_iff_exists.mp
    rw [List.findIdx?_isSome]
    exact List.any_eq_true.mpr ⟨a.shard, hmem, by simp⟩
  obtain ⟨hlt, hname, hfirst⟩ := List.findIdx?_eq_some_iff_getElem.mp hi
  refine ⟨i, ?_, ?_, ?_⟩
  · rw [List.getElem?_eq_getElem hlt]
    simpa using hname
  · intro j hj he
    have hj' := (List.getElem?_eq_some_iff.mp he).2
    have := hfirst j hj
    simp [hj'] at this
  · have hindex : s.router.shardIndex? a.shard = some i := hi
    unfold hear Site.change apply applySwitch
    simp only [hparse, hindex]
    split <;> simp_all

section Heard

variable {s : Site κ}

@[simp] theorem Site.names_hear (s : Site κ) (payload : String) :
    (s.hear payload).router.names = s.router.names := by
  cases h : known? s.router.names payload with
  | none => rw [s.hear_noise h]
  | some a =>
    obtain ⟨i, -, -, heq⟩ := s.hear_news h
    rw [heq]
    exact (Leads.change _ .here : Leads s _).names

/-- A change of one master, whether it finds the shard there already or not. -/
theorem Site.topology_update {i : Nat} (hi : i < s.router.topology.size)
    (hsize : s.router.topology.size = s.router.names.length) (e : Endpoint) :
    (s.change (.update i e)).1.router.topology = ⟨s.router.topology.masters.set i e⟩ := by
  have htarget : (Change.update i e).target s.router =
      .ok ⟨s.router.topology.masters.set i e⟩ := by
    simp [Change.target, Topology.withMaster, hi]
  rcases s.change_cases (.update i e) with ⟨e', -, hno⟩ | ⟨hsame, h⟩ | ⟨t, ht, -, -, h⟩
  · have := hno _ htarget
    simp [Topology.size] at this hsize
    exact absurd hsize this
  · rw [h]
    simpa [htarget] using hsame.symm
  · rw [h]
    rw [htarget] at ht
    cases ht
    rfl

/-- What a payload leaves as the topology, where each shard has a name of its own. -/
theorem Site.topology_hear (hd : s.router.names.Nodup)
    (hsize : s.router.topology.size = s.router.names.length) (payload : String) :
    (s.hear payload).router.topology =
      s.router.topology.following s.router.names (announced s.router.names [payload]) := by
  cases h : known? s.router.names payload with
  | none =>
    have hnone : announced s.router.names [payload] = [] := by simp [announced, h]
    rw [s.hear_noise h, hnone, Topology.following_nil hsize]
  | some a =>
    have hone : announced s.router.names [payload] = [a] := by simp [announced, h]
    obtain ⟨i, hi, -, heq⟩ := s.hear_news h
    have hlt : i < s.router.topology.size := by
      rw [hsize]
      exact (List.getElem?_eq_some_iff.mp hi).1
    rw [heq, s.topology_update hlt hsize, hone, Topology.following_singleton hsize hd hi]

theorem Site.size_hear (hd : s.router.names.Nodup)
    (hsize : s.router.topology.size = s.router.names.length) (payload : String) :
    (s.hear payload).router.topology.size = (s.hear payload).router.names.length := by
  rw [s.topology_hear hd hsize, s.names_hear, Topology.size_following _ _ hsize]

theorem Lives.hear {s₀ : Site κ} {isOpen : Bool} (h : Lives s₀ s isOpen) (payload : String) :
    ∃ isOpen', Lives s₀ (s.hear payload) isOpen' := by
  cases hknown : known? s.router.names payload with
  | none =>
    rw [s.hear_noise hknown]
    exact ⟨isOpen, h⟩
  | some a =>
    obtain ⟨i, -, -, heq⟩ := s.hear_news hknown
    rw [heq]
    by_cases htook : (s.change (.update i a.new)).2 = .ok true
    · exact ⟨true, h.opens _ htook⟩
    · exact ⟨isOpen, h.stays _ htook⟩

/-- A router and its pools after some payloads. -/
def Site.hearAll (s : Site κ) (payloads : List String) : Site κ := payloads.foldl Site.hear s

@[simp] theorem Site.hearAll_append (s : Site κ) (ps qs : List String) :
    s.hearAll (ps ++ qs) = (s.hearAll ps).hearAll qs := List.foldl_append

@[simp] theorem Site.names_hearAll (s : Site κ) (payloads : List String) :
    (s.hearAll payloads).router.names = s.router.names := by
  induction payloads generalizing s with
  | nil => rfl
  | cons payload payloads ih => exact (ih _).trans (s.names_hear payload)

/-- Whatever payloads a router hears, the announcements among them decide where its shards are. -/
theorem Site.topology_hearAll (hd : s.router.names.Nodup)
    (hsize : s.router.topology.size = s.router.names.length) (payloads : List String) :
    (s.hearAll payloads).router.topology =
      s.router.topology.following s.router.names (announced s.router.names payloads) := by
  induction payloads generalizing s with
  | nil => exact (Topology.following_nil hsize).symm
  | cons payload payloads ih =>
    have hd' : (s.hear payload).router.names.Nodup := by rwa [s.names_hear]
    have hrest := ih hd' (s.size_hear hd hsize payload)
    change ((s.hear payload).hearAll payloads).router.topology = _
    rw [hrest, s.names_hear, s.topology_hear hd hsize, Topology.following_append hsize,
      ← announced_append, List.singleton_append]

theorem Lives.hearAll {s₀ : Site κ} {isOpen : Bool} (h : Lives s₀ s isOpen)
    (payloads : List String) : ∃ isOpen', Lives s₀ (s.hearAll payloads) isOpen' := by
  induction payloads generalizing s isOpen with
  | nil => exact ⟨isOpen, h⟩
  | cons payload payloads ih =>
    obtain ⟨_, h'⟩ := h.hear payload
    exact ih h'

end Heard

end Router
end Holdfast
