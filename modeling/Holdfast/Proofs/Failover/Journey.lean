import Holdfast.Proofs.Failover.Discovery
import Holdfast.Proofs.Failover.Payload
import Holdfast.Proofs.Failover.Settled

namespace Holdfast

open Failover Memory Store Text

namespace Failover

/-- What happens to the discovery service: a shard is given another master, a peer goes away or comes
back, or nothing but time passes. -/
inductive Event
  | failover (shard : String) (master : Endpoint)
  | reach (peer : Endpoint) (up : Bool)
  | wait

def Event.apply (s : Sentinel) : Event → Sentinel
  | failover shard master => s.failover shard master
  | reach peer up => s.setUp peer up
  | wait => s

/-- A failover, and whether any listener was listening when it was called. -/
structure Switch where
  shard : String
  master : Endpoint
  isHeard : Bool
deriving DecidableEq, Repr

def Event.switch? (isHeard : Bool) : Event → Option Switch
  | failover shard master => some ⟨shard, master, isHeard⟩
  | _ => none

/-- The payload that listeners get to read of an event, if any is listening. -/
def Event.news? (s : Sentinel) (isHeard : Bool) : Event → Option String
  | failover shard master =>
    if isHeard then some (Announcement.payload shard (s.master? shard) master) else none
  | _ => none

def switchesOf (name : String) (switches : List Switch) : List Switch :=
  switches.filter (·.shard = name)

def lastMaster (name : String) (switches : List Switch) : Option Endpoint :=
  (switchesOf name switches).getLast?.map (·.master)

theorem lastMaster_append (name : String) (as bs : List Switch) :
    lastMaster name (as ++ bs) = (lastMaster name bs).or (lastMaster name as) := by
  simp [lastMaster, switchesOf, List.getLast?_append, Option.map_or]

theorem mem_of_lastMaster {name : String} {switches : List Switch} {e : Endpoint}
    (h : lastMaster name switches = some e) : ∃ w ∈ switches, w.master = e := by
  obtain ⟨w, hw, rfl⟩ := Option.map_eq_some_iff.mp h
  exact ⟨w, (List.mem_filter.mp (List.mem_of_getLast? hw)).1, rfl⟩

theorem lastMaster_heard {name : String} {switches : List Switch}
    (h : ∀ w, (switchesOf name switches).getLast? = some w → w.isHeard = true) :
    lastMaster name (switches.filter (·.isHeard)) = lastMaster name switches := by
  have hswap : switchesOf name (switches.filter (·.isHeard)) =
      (switchesOf name switches).filter (·.isHeard) := by
    simp [switchesOf, List.filter_filter, Bool.and_comm]
  unfold lastMaster
  rw [hswap]
  rcases List.eq_nil_or_concat (switchesOf name switches) with hnone | ⟨ws, w, hlast⟩
  · simp [hnone]
  · have hw : w.isHeard = true := h w (by simp [hlast])
    simp [hlast, hw]

theorem mastersOf_same {names : List String} {payloads : List String} {payload : String}
    {a : Announcement} (ha : known? names payload = some a)
    (hall : ∀ p ∈ payloads, p = payload) (hmem : payload ∈ payloads) (name : String) :
    (mastersOf name (announced names payloads)).getLast? =
      if a.shard = name then some a.new else none := by
  have hne : payloads.length ≠ 0 := by
    intro hlen
    rw [List.length_eq_zero_iff.mp hlen] at hmem
    cases hmem
  have hsame : payloads = List.replicate payloads.length payload :=
    List.eq_replicate_iff.mpr ⟨rfl, hall⟩
  rw [hsame]
  by_cases hname : a.shard = name
  · simp [announced, mastersOf, ha, hname, List.getLast?_replicate, hne]
  · simp [announced, mastersOf, ha, hname]

end Failover

namespace Memory.Sentinel

variable {s : Sentinel}

theorem Sound.apply (hs : s.Sound) (e : Event) : (e.apply s).Sound := by
  cases e with
  | failover shard master => exact hs.failover shard master
  | reach peer up => exact hs.setUp peer up
  | wait => exact hs

/-- A failover moves its shard, and nothing else moves any. -/
theorem master?_apply (s : Sentinel) (e : Event) (isHeard : Bool) (name : String) :
    (e.apply s).master? name =
      (lastMaster name (e.switch? isHeard).toList).or (s.master? name) := by
  cases e with
  | failover shard master =>
    change (s.masters.set shard master).get? name = _
    by_cases hname : shard = name
    · simp [Event.switch?, lastMaster, switchesOf, hname]
    · rw [Table.get?_set_ne _ _ (Ne.symm hname)]
      simp [Event.switch?, lastMaster, switchesOf, hname, master?]
  | reach peer up =>
    change (s.setUp peer up).masters.get? name = s.masters.get? name
    unfold setUp
    split <;> rfl
  | wait => rfl

end Memory.Sentinel

namespace Deployment

/-- Whether any listener of a monitor is listening. -/
def isHeeded (d : Deployment) (id : Nat) : Bool :=
  d.monitors[id]?.any fun m => m.listeners.any fun l => l.state = .listening

/-- All that may happen after a client has been made: one event after the other, each time until no
listener can go on any more. The failovers among the events are kept in mind. -/
inductive Journey (id n : Nat) (d : Deployment) : Deployment → List Switch → Prop
  | settle {d' : Deployment} {notes : List Note} : Listens (Aside Alike id n) id d d' notes →
    Quiet id d' → Journey id n d d' []
  | event {d₁ d₂ : Deployment} {switches : List Switch} {s : Sentinel} (e : Event)
    {notes : List Note} : Journey id n d d₁ switches → d₁.directory = .sentinel s →
    Listens (Aside Alike id n) id { d₁ with directory := .sentinel (e.apply s) } d₂ notes →
    Quiet id d₂ → Journey id n d d₂ (switches ++ (e.switch? (d₁.isHeeded id)).toList)

/-- The monitor of a client that nobody has shut down. -/
def Watches (id n : Nat) (d : Deployment) (m : Monitor) : Prop :=
  d.monitors[id]? = some m ∧ m.router = n ∧ m.backend = .memory ∧ m.isCancelled = false

/-- A router lives on, and has some given masters of its shards. -/
def Serves (names : List String) (site : Router.Site Link) (n : Nat)
    (masters : String → Option Endpoint) (d : Deployment) : Prop :=
  ∃ s isOpen, d.site? n = some s ∧ Router.Lives site s isOpen ∧ s.router.names = names ∧
    s.router.topology.size = names.length ∧
    ∀ {i name}, names[i]? = some name → s.router.topology.master? i = masters name

/-- A client whose listeners rest, with what its sentinel and its router know. -/
structure AtRest (id n : Nat) (names : List String) (site : Router.Site Link) (s : Sentinel)
    (masters : String → Option Endpoint) (m : Monitor) (d : Deployment) : Prop where
  directory : d.directory = .sentinel s
  sound : s.Sound
  watches : Watches id n d m
  rests : ∀ l ∈ m.listeners, Rests s l
  serves : Serves names site n masters d

variable {d d' : Deployment} {id n : Nat} {m : Monitor} {s : Sentinel} {news : Option String}
  {notes : List Note} {names : List String} {site : Router.Site Link}
  {masters : String → Option Endpoint} {e : Event}

/-- What a run of the listeners comes to that begins attuned and ends when none can go on. -/
theorem Listens.settles (h : Listens (Aside Alike id n) id d d' notes) (hquiet : Quiet id d')
    (hsound : s.Sound) (hm : Watches id n d m) (hbegin : Tuned s news id d) (hd : names.Nodup)
    (hserves : Serves names site n masters d) :
    (∃ s' m', s.Same s' ∧ AtRest id n names site s' (fun name =>
        (mastersOf name (announced names (applied notes))).getLast?.or (masters name)) m' d') ∧
      ∀ payload ∈ applied notes, news = some payload := by
  obtain ⟨hm, hrouter, hmemory, hcancelled⟩ := hm
  obtain ⟨htuned, hnews⟩ := h.tuned hsound hm hmemory hbegin
  obtain ⟨m', hm', hlater⟩ := h.monitor (keeps_aside _ _ n) hm
  obtain ⟨s', hs', hsame⟩ := htuned.directory
  have hwatches : Watches id n d' m' := ⟨hm', hlater.router.trans hrouter,
    hlater.backend.trans hmemory, (h.isCancelled hm hm').trans hcancelled⟩
  refine ⟨⟨s', m', hsame, hs', hsound.same hsame, hwatches,
    fun l hl => (htuned.rests hquiet hm' hl).same hsame, ?_⟩, hnews⟩
  obtain ⟨r, isOpen, hr, hlife, hnames, hsize, hmasters⟩ := hserves
  obtain ⟨r', isOpen', hr', hlife', hnames', htopology⟩ :=
    h.site hm hrouter hr hlife (by rwa [hnames]) (by rwa [hnames])
  rw [hnames] at hnames' htopology
  refine ⟨r', isOpen', hr', hlife', hnames', ?_, ?_⟩
  · rw [htopology, Topology.size_following _ _ hsize]
  · intro i name hi
    have hlt : i < r.router.topology.size := by
      rw [hsize]
      exact (List.getElem?_eq_some_iff.mp hi).1
    obtain ⟨e, he⟩ : ∃ e, r.router.topology.master? i = some e :=
      ⟨_, List.getElem?_eq_getElem hlt⟩
    have hname : masters name = some e := (hmasters hi).symm.trans he
    rw [htopology, Topology.master?_following hi]
    simp only [he, hname, Option.map_some, Option.or_some]

/-- Listeners that have not begun yet hold nothing of a sentinel. -/
theorem tuned_of_fresh (hknows : Knows s d) (hm : d.monitors[id]? = some m)
    (hfresh : ∀ l ∈ m.listeners, l.phase = .starting) : Tuned s none id d := by
  refine ⟨hknows, ?_⟩
  intro m' l hm' hl
  cases hm.symm.trans hm'
  have hphase := hfresh l hl
  refine ⟨?_, ?_⟩
  · intro stream hstream
    rw [Listener.stream?, hphase] at hstream
    cases hstream
  · intro due answer hasking
    cases hphase.symm.trans hasking

/-- Until the first event a client keeps to what it has found. -/
theorem Listens.settles_fresh (h : Listens (Aside Alike id n) id d d' notes) (hquiet : Quiet id d')
    (hknows : Knows s d) (hsound : s.Sound) (hm : Watches id n d m)
    (hfresh : ∀ l ∈ m.listeners, l.phase = .starting) (hd : names.Nodup)
    (hserves : Serves names site n masters d) :
    ∃ s' m', s.Same s' ∧ AtRest id n names site s' masters m' d' := by
  obtain ⟨⟨s', m', hsame, hrest⟩, hnews⟩ :=
    h.settles hquiet hsound hm (tuned_of_fresh hknows hm.1 hfresh) hd hserves
  have hnone : applied notes = [] := by
    apply List.eq_nil_iff_forall_not_mem.mpr
    intro payload hpayload
    cases hnews payload hpayload
  rw [hnone] at hrest
  exact ⟨s', m', hsame, hrest⟩

theorem isHeeded_iff (hm : d.monitors[id]? = some m) :
    d.isHeeded id = true ↔ ∃ l ∈ m.listeners, l.state = .listening := by
  simp [isHeeded, hm]

namespace AtRest

theorem tuned (h : AtRest id n names site s masters m d) (e : Event) :
    Tuned (e.apply s) (e.news? s (d.isHeeded id)) id
      { d with directory := .sentinel (e.apply s) } := by
  refine ⟨⟨_, rfl, .refl _⟩, ?_⟩
  intro m' l hm' hl
  cases h.watches.1.symm.trans hm'
  apply (h.rests l hl).attuned
  intro r hphase hreads
  cases e with
  | failover shard master =>
    have hstate : l.state = .listening := by rw [Listener.state, hphase]
    have hheard : d.isHeeded id = true := (isHeeded_iff h.watches.1).mpr ⟨l, hl, hstate⟩
    refine ⟨_, hreads.failover h.sound shard master, .inr (.inr ⟨_, ?_, rfl⟩)⟩
    rw [Event.news?, if_pos hheard]
  | reach peer up =>
    rcases hreads.setUp h.sound peer up with hread | hread
    · exact ⟨_, hread, .inl rfl⟩
    · exact ⟨_, hread, .inr (.inl rfl)⟩
  | wait => exact ⟨_, hreads, .inl rfl⟩

/-- What the router is told of an event: a failover that is heard, and nothing else. -/
theorem tells (h : AtRest id n names site s masters m d) (hrun : Listens (Aside Alike id n) id
      { d with directory := .sentinel (e.apply s) } d' notes) (hquiet : Quiet id d')
    (hplain : ∀ shard master, e = .failover shard master → ∃ old, known? names
      (Announcement.payload shard (s.master? shard) master) = some ⟨shard, old, master⟩)
    (hnews : ∀ payload ∈ applied notes, e.news? s (d.isHeeded id) = some payload) (name : String) :
    (mastersOf name (announced names (applied notes))).getLast? =
      lastMaster name ((e.switch? (d.isHeeded id)).toList.filter (·.isHeard)) := by
  obtain ⟨hm, -, hmemory, hcancelled⟩ := h.watches
  have hsilent : e.news? s (d.isHeeded id) = none → applied notes = [] := by
    intro hnone
    apply List.eq_nil_iff_forall_not_mem.mpr
    intro payload hpayload
    cases hnone.symm.trans (hnews payload hpayload)
  cases e with
  | failover shard master =>
    cases hheard : d.isHeeded id with
    | true =>
      obtain ⟨l, hl, hstate⟩ := (isHeeded_iff hm).mp hheard
      obtain ⟨r, hphase, hreads⟩ := (h.rests l hl).listens hstate
      obtain ⟨old, hknown⟩ := hplain shard master rfl
      have hmem := hrun.heard hquiet (h.sound.failover shard master) hm hmemory hcancelled
        (h.tuned (.failover shard master)) hl hphase (hreads.failover h.sound shard master)
      have hall : ∀ p ∈ applied notes,
          p = Announcement.payload shard (s.master? shard) master := by
        intro p hp
        have hnew := hnews p hp
        rw [Event.news?, if_pos hheard] at hnew
        exact (Option.some.inj hnew).symm
      rw [mastersOf_same hknown hall hmem]
      by_cases hname : shard = name <;> simp [Event.switch?, lastMaster, switchesOf, hname]
    | false =>
      rw [hsilent (by simp [Event.news?, hheard])]
      simp [announced, mastersOf, Event.switch?, lastMaster, switchesOf]
  | reach peer up =>
    rw [hsilent rfl]
    rfl
  | wait =>
    rw [hsilent rfl]
    rfl

/-- From rest to rest, an event moves the shards of a client by what is heard of it. -/
theorem event (h : AtRest id n names site s masters m d) (hd : names.Nodup)
    (hrun : Listens (Aside Alike id n) id { d with directory := .sentinel (e.apply s) } d' notes)
    (hquiet : Quiet id d') (hplain : ∀ shard master, e = .failover shard master → ∃ old,
      known? names (Announcement.payload shard (s.master? shard) master) =
        some ⟨shard, old, master⟩) :
    ∃ s' m', (e.apply s).Same s' ∧ AtRest id n names site s' (fun name => (lastMaster name
      ((e.switch? (d.isHeeded id)).toList.filter (·.isHeard))).or (masters name)) m' d' := by
  obtain ⟨⟨s', m', hsame, hrest⟩, hnews⟩ :=
    hrun.settles hquiet (h.sound.apply e) h.watches (h.tuned e) hd h.serves
  simp only [h.tells hrun hquiet hplain hnews] at hrest
  exact ⟨s', m', hsame, hrest⟩

end AtRest

/-- A client keeps to its shards with the masters that the failovers that were heard have given
them, while the sentinel goes by all of them. -/
theorem Journey.keeps {switches : List Switch} (h : Journey id n d d' switches)
    (hknows : Knows s d) (hsound : s.Sound) (hm : Watches id n d m)
    (hfresh : ∀ l ∈ m.listeners, l.phase = .starting) (hd : names.Nodup)
    (hserves : Serves names site n s.master? d) (hnames : ∀ name ∈ names, IsWord name.toList)
    (hhosts : ∀ name ∈ names, ∀ e, s.master? name = some e → IsWord e.host.toList)
    (hplain : ∀ w ∈ switches, w.shard ∈ names ∧ IsWord w.master.host.toList) :
    ∃ s' m', (∀ name, s'.master? name = (lastMaster name switches).or (s.master? name)) ∧
      AtRest id n names site s' (fun name =>
        (lastMaster name (switches.filter (·.isHeard))).or (s.master? name)) m' d' := by
  induction h with
  | settle hrun hquiet =>
    obtain ⟨s', m', hsame, hrest⟩ :=
      hrun.settles_fresh hquiet hknows hsound hm hfresh hd hserves
    exact ⟨s', m', hsame.master?_eq, hrest⟩
  | @event d₁ d₂ switches s₁ e notes hbefore hs₁ hrun hquiet ih =>
    obtain ⟨s', m₁, hmasters, hrest⟩ := ih fun w hw => hplain w (List.mem_append_left _ hw)
    cases hs₁.symm.trans hrest.directory
    have hknown : ∀ shard master, e = .failover shard master → ∃ old, known? names
        (Announcement.payload shard (s₁.master? shard) master) = some ⟨shard, old, master⟩ := by
      intro shard master he
      subst he
      obtain ⟨hmem, hhost⟩ := hplain ⟨shard, master, d₁.isHeeded id⟩
        (List.mem_append_right _ (by simp [Event.switch?]))
      refine ⟨_, known?_payload hmem (hnames shard hmem) ?_ hhost⟩
      intro old hold
      rw [hmasters] at hold
      rcases Option.or_eq_some_iff.mp hold with hlast | ⟨-, hfirst⟩
      · obtain ⟨w, hw, rfl⟩ := mem_of_lastMaster hlast
        exact (hplain w (List.mem_append_left _ hw)).2
      · exact hhosts shard hmem old hfirst
    obtain ⟨s₂, m₂, hsame, hrest₂⟩ := hrest.event hd hrun hquiet hknown
    simp only [← Option.or_assoc, ← lastMaster_append, ← List.filter_append] at hrest₂
    refine ⟨s₂, m₂, ?_, hrest₂⟩
    intro name
    rw [hsame.master?_eq, Sentinel.master?_apply s₁ e (d₁.isHeeded id), hmasters,
      lastMaster_append, Option.or_assoc]

end Deployment
end Holdfast
