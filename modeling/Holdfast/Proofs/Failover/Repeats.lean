import Holdfast.Proofs.Failover.Convergence
import Holdfast.Proofs.Router.Move

namespace Holdfast

open Failover Store

namespace Failover

/-- The masters of a shard that one listener has heard of, in order. -/
def heardOf (names : List String) (name : String) (index : Nat) (notes : List Note) :
    List Endpoint :=
  mastersOf name (announced names (applied (notesOf index notes)))

theorem heardOf_applied {names : List String} {note : Note} {payload : String} {a : Announcement}
    (hnote : note.deed = .applied payload) (ha : known? names payload = some a)
    (notes : List Note) : heardOf names a.shard note.index (notes ++ [note]) =
      heardOf names a.shard note.index notes ++ [a.new] := by
  have hone : announced names (applied [note]) = [a] := by
    simp [applied, hnote, Deed.payload?, announced, ha]
  rw [heardOf, notesOf_append, notesOf_singleton, if_pos rfl, applied_append, announced_append,
    mastersOf_append, hone]
  simp [mastersOf, heardOf]

end Failover

namespace Deployment

/-- Where all peers announce the same masters of a shard, each listener has heard the first of them,
in order. -/
theorem heardOf_prefix {d d' : Deployment} {script : Failover.Script}
    (hscript : d.directory = .script script) {peers : List Endpoint} (hpeers : peers.Nodup)
    {names : List String} {name : String} {masters : List Endpoint}
    (hsame : ∀ peer ∈ peers, mastersOf name (announced names (script.payloads peer)) = masters)
    {n backoff : Nat} {notes : List Note}
    (hrun : Listens (Aside Eq d.monitors.length n) d.monitors.length
      (d.watch .memory n peers backoff).1 d' notes) {note : Note} (hnote : note ∈ notes) :
    heardOf names name note.index notes <+: masters := by
  have hlt : note.index < peers.length := by
    simpa using hrun.index_lt (keeps_aside _ _ n) (watch_monitor d .memory n peers backoff) note hnote
  obtain ⟨peer, hpeer, m, l, -, -, hheard⟩ := heard_and_awaited hscript hpeers hrun _ hlt
  rw [← hsame peer hpeer, ← hheard, announced_append, mastersOf_append]
  exact List.prefix_append _ _

theorem site?_moved {d d' : Deployment} {id index n : Nat} {heeds : Bool} {note : Note}
    (hmove : d.moveListener id index heeds = some (note, d')) {m : Monitor}
    (hm : d.monitors[id]? = some m) (hn : m.router = n) {s : Router.Site Link}
    (hs : d.site? n = some s) (hd : s.router.names.Nodup) {payload : String} {a : Announcement}
    (hnote : note.deed = .applied payload) (ha : known? s.router.names payload = some a) {k : Nat}
    (hk : s.router.names[k]? = some a.shard) :
    d'.site? n = some (s.change (.update k a.new)).1 := by
  subst hn
  have happlied : applied [note] = [payload] := by simp [applied, hnote, Deed.payload?]
  have hsite := site?_moveListener hmove hm hs
  obtain ⟨i, hi, -, hhear⟩ := s.hear_news ha
  obtain ⟨hilt, hiname⟩ := List.getElem?_eq_some_iff.mp hi
  obtain ⟨hklt, hkname⟩ := List.getElem?_eq_some_iff.mp hk
  have hik : i = k := hd.getElem_inj_iff.mp (hiname.trans hkname.symm)
  subst hik
  rw [hsite, happlied, ← hhear]
  rfl

/-- All peers announce the same masters of a shard, each of them once, whatever they say of its old
ones. The router keeps in mind only where the shard is, so an announcement changes nothing just if
it is the one that was applied last, from whichever peer; any other one moves the shard to its
master, also if that has been replaced long ago, and closes the pool of the present one. -/
theorem unnoticed_iff_last {names : List String} {t : Topology} {o : PoolOptions} {b : Backend}
    {ps₀ ps : Pools Link} {r : Router} (hnew : Router.new names t o b ps₀ = .ok (ps, r))
    (hnames : names.Nodup) {s : Router.Site Link} {isOpen : Bool}
    (hlife : Router.Lives ⟨ps, r⟩ s isOpen) {d d' d'' : Deployment} {n : Nat}
    (hs : d.site? n = some s) {script : Failover.Script} (hscript : d.directory = .script script)
    {peers : List Endpoint} (hpeers : peers.Nodup) {k : Nat} {name : String} {first : Endpoint}
    (hk : names[k]? = some name) (hfirst : s.router.topology.master? k = some first)
    {masters : List Endpoint} (hdistinct : (first :: masters).Nodup)
    (hsame : ∀ peer ∈ peers, mastersOf name (announced names (script.payloads peer)) = masters)
    {backoff : Nat} {notes : List Note} (hrun : Listens (Aside Eq d.monitors.length n)
      d.monitors.length (d.watch .memory n peers backoff).1 d' notes) {index : Nat} {heeds : Bool}
    {note : Note} (hmove : d'.moveListener d.monitors.length index heeds = some (note, d''))
    {payload : String} {a : Announcement} (hnote : note.deed = .applied payload)
    (ha : known? names payload = some a) (hname : a.shard = name) :
    ∃ s' s'' last e, d'.site? n = some s' ∧ d''.site? n = some s'' ∧
      s'.router.topology.master? k = some e ∧
      e = (mastersOf name (announced names (applied notes))).getLast?.getD first ∧
      (first :: masters)[last]? = some e ∧
      (first :: masters)[(heardOf names name index notes).length + 1]? = some a.new ∧
      (last = (heardOf names name index notes).length + 1 → s'' = s') ∧
      (last ≠ (heardOf names name index notes).length + 1 → Router.Moved s' s'' k a.new) := by
  obtain ⟨hsound, hr⟩ := Router.new_sound hnew
  have hsn : s.router.names = names := hlife.names.trans hr
  have hsize : s.router.topology.size = s.router.names.length := (hlife.staffed hsound).size
  have hm := watch_monitor d .memory n peers backoff
  obtain ⟨s', isOpen', hs', hlife', hnames', htopology⟩ :=
    hrun.site hm rfl hs hlife (by rwa [hsn]) hsize
  rw [hsn] at hnames' htopology
  obtain ⟨m', hm', hlater⟩ := hrun.monitor (keeps_aside _ _ n) hm
  have hmoved := site?_moved hmove hm' hlater.router hs' (by rwa [hnames']) hnote
    (by rwa [hnames']) (by rwa [hnames', hname])
  have hcurrent : s'.router.topology.master? k =
      some ((mastersOf name (announced names (applied notes))).getLast?.getD first) := by
    rw [htopology, Topology.master?_following hk, hfirst]
    rfl
  obtain ⟨last, hlast⟩ : ∃ last, (first :: masters)[last]? =
      some ((mastersOf name (announced names (applied notes))).getLast?.getD first) := by
    apply List.mem_iff_getElem?.mp
    cases hheard : (mastersOf name (announced names (applied notes))).getLast? with
    | none => exact List.mem_cons_self
    | some e =>
      rw [mastersOf_applied] at hheard
      obtain ⟨told, hmem, htold⟩ := last_of_one hheard
      rw [← mastersOf_applied] at htold
      obtain ⟨rest, hrest⟩ := heardOf_prefix hscript hpeers hsame hrun hmem
      rw [← hrest]
      exact List.mem_cons_of_mem _ (List.mem_append_left rest (List.mem_of_getLast? htold))
  have hindex : note.index = index := by
    obtain ⟨_, _, _, _, -, -, hindex, -⟩ := moveListener_steps hmove
    exact hindex
  have hnext : (first :: masters)[(heardOf names name index notes).length + 1]? = some a.new := by
    obtain ⟨rest, hrest⟩ := heardOf_prefix hscript hpeers hsame (hrun.move hmove)
      (List.mem_append_right notes (List.mem_singleton_self note))
    rw [← hname, heardOf_applied hnote ha, hname, hindex] at hrest
    rw [List.getElem?_cons_succ, ← hrest]
    simp
  refine ⟨s', _, last, _, hs', hmoved, hcurrent, rfl, hlast, hnext, ?_, ?_⟩
  · intro hsame
    rw [hsame, hnext] at hlast
    rw [← Option.some.inj hlast] at hcurrent
    exact Router.change_current hcurrent
  · intro hother
    apply (hlife'.staffed hsound).moves hcurrent
    intro he
    apply hother
    rw [he, ← hlast] at hnext
    have hlt := (List.getElem?_eq_some_iff.mp hlast).1
    exact (List.getElem?_inj hlt hdistinct).mp hnext.symm

/-- The first peer has announced two switches of the shard `a`, the second one announces the first
of them. -/
theorem gossip_repeats : ∃ (ps : Pools Link) (r : Router) (notes : List Note) (note : Note)
    (d' d'' : Deployment),
    Router.new ["a", "b"] ⟨[⟨"h", 1⟩, ⟨"h", 2⟩]⟩ {} .memory [] = .ok (ps, r) ∧
    r.topology = ⟨[⟨"h", 1⟩, ⟨"h", 2⟩]⟩ ∧
    moves 0 [0, 0, 0, 0, 0, 0, 1, 1, 1, 1]
      (watch { Router.Site.deployed ⟨ps, r⟩ with directory := .script gossip }
        .memory 0 [⟨"p", 1⟩, ⟨"p", 2⟩] 10).1 = some (notes, d') ∧
    d'.moveListener 0 1 true = some (note, d'') ∧
    note.deed = .applied "a h 1 h 2" ∧ "a h 2 h 3" ∈ applied notes ∧
    heardOf ["a", "b"] "a" 1 notes = [] ∧
    (d'.site? 0).map (·.router.topology) = some ⟨[⟨"h", 3⟩, ⟨"h", 2⟩]⟩ ∧
    (d''.site? 0).map (·.router.topology) = some ⟨[⟨"h", 2⟩, ⟨"h", 2⟩]⟩ := by
  obtain ⟨ps, r, hnew, hr, hend⟩ : ∃ ps r,
      @Router.new Link ["a", "b"] ⟨[⟨"h", 1⟩, ⟨"h", 2⟩]⟩ {} .memory [] = .ok (ps, r) ∧
      r.topology = ⟨[⟨"h", 1⟩, ⟨"h", 2⟩]⟩ ∧
      ((moves 0 [0, 0, 0, 0, 0, 0, 1, 1, 1, 1]
        (watch { Router.Site.deployed ⟨ps, r⟩ with directory := .script gossip }
          .memory 0 [⟨"p", 1⟩, ⟨"p", 2⟩] 10).1).bind fun out =>
        (out.2.moveListener 0 1 true).map fun next => (next.1.deed, applied out.1,
          heardOf ["a", "b"] "a" 1 out.1, (out.2.site? 0).map (·.router.topology),
          (next.2.site? 0).map (·.router.topology))) =
      some (.applied "a h 1 h 2", ["a h 1 h 2", "junk", "a h 2 h 3", "c h 5 h 6"], [],
        some ⟨[⟨"h", 3⟩, ⟨"h", 2⟩]⟩, some ⟨[⟨"h", 2⟩, ⟨"h", 2⟩]⟩) := ⟨_, _, rfl, rfl, rfl⟩
  obtain ⟨⟨notes, d'⟩, hmoves, hend⟩ := Option.bind_eq_some_iff.mp hend
  obtain ⟨⟨note, d''⟩, hmove, hend⟩ := Option.map_eq_some_iff.mp hend
  simp only [Prod.mk.injEq] at hend
  obtain ⟨hnote, happlied, hheard, hbefore, hafter⟩ := hend
  exact ⟨ps, r, notes, note, d', d'', hnew, hr, hmoves, hmove, hnote, by simp [happlied], hheard,
    hbefore, hafter⟩

/-- The repeated announcement moves the shard back, and the pool of its master is closed. -/
theorem unnoticed_iff_last_behind : ∃ (d d' d'' : Deployment) (notes : List Note)
    (s' s'' : Router.Site Link), Listens (Aside Eq 0 0) 0 d d' notes ∧
    "a h 2 h 3" ∈ applied notes ∧
    (d'.moveListener 0 1 true).map (·.2) = some d'' ∧ d'.site? 0 = some s' ∧ d''.site? 0 = some s'' ∧
    s'.router.topology.master? 0 = some ⟨"h", 3⟩ ∧ Router.Moved s' s'' 0 ⟨"h", 2⟩ := by
  obtain ⟨ps, r, notes, note, d', d'', hnew, hr, hmoves, hmove, hnote, hmem, hheard, hbefore, -⟩ :=
    gossip_repeats
  have hrun : Listens (Aside Eq 0 0) 0 (watch { Router.Site.deployed ⟨ps, r⟩ with
      directory := .script gossip } .memory 0 [⟨"p", 1⟩, ⟨"p", 2⟩] 10).1 d' notes :=
    .of_moves hmoves
  have hfirst : r.topology.master? 0 = some ⟨"h", 1⟩ := by rw [hr]; rfl
  have hsame : ∀ peer ∈ [⟨"p", 1⟩, ⟨"p", 2⟩],
      mastersOf "a" (announced ["a", "b"] (gossip.payloads peer)) = [⟨"h", 2⟩, ⟨"h", 3⟩] := by decide
  obtain ⟨s', s'', last, e, hs', hs'', he, -, hlast, hnext, -, hmoved⟩ :=
    unnoticed_iff_last hnew (by decide) .here
      (d := { Router.Site.deployed ⟨ps, r⟩ with directory := .script gossip }) (n := 0) rfl rfl
      (by decide) (k := 0) rfl hfirst (by decide) hsame hrun hmove hnote
      (a := ⟨"a", ⟨"h", 1⟩, ⟨"h", 2⟩⟩) rfl rfl
  have htopology : s'.router.topology = ⟨[⟨"h", 3⟩, ⟨"h", 2⟩]⟩ := by simpa [hs'] using hbefore
  have hcurrent : s'.router.topology.master? 0 = some ⟨"h", 3⟩ := by rw [htopology]; rfl
  have hother : last ≠ (heardOf ["a", "b"] "a" 1 notes).length + 1 := by
    intro h
    rw [← h, hlast, ← he, hcurrent] at hnext
    exact absurd hnext (by decide)
  exact ⟨_, d', d'', notes, s', s'', hrun, hmem, by rw [hmove]; rfl, hs', hs'', hcurrent,
    hmoved hother⟩

/-- Repeated announcements are not harmless: where each peer announces the switches of a shard in
order, each from the master before to one that the shard never had, the router may still be changed
by an announcement that it has gone beyond. -/
theorem repeats_harm : ¬ ∀ {names : List String} {t : Topology} {o : PoolOptions} {b : Backend}
    {ps₀ ps : Pools Link} {r : Router} {s : Router.Site Link} {isOpen : Bool} {d d' d'' : Deployment}
    {n k : Nat} {name : String} {first : Endpoint} {script : Failover.Script}
    {peers : List Endpoint} {switches : List Announcement} {backoff : Nat} {notes : List Note}
    {index : Nat} {heeds : Bool} {note : Note} {payload : String} {a : Announcement} {i j : Nat},
    Router.new names t o b ps₀ = .ok (ps, r) → names.Nodup → Router.Lives ⟨ps, r⟩ s isOpen →
    d.site? n = some s → d.directory = .script script → peers.Nodup → names[k]? = some name →
    s.router.topology.master? k = some first →
    switches.map (·.old) = (first :: switches.map (·.new)).dropLast →
    (first :: switches.map (·.new)).Nodup →
    (∀ peer ∈ peers, (announced names (script.payloads peer)).filter (·.shard = name) = switches) →
    Listens (Aside Eq d.monitors.length n) d.monitors.length (d.watch .memory n peers backoff).1 d'
      notes →
    d'.moveListener d.monitors.length index heeds = some (note, d'') →
    note.deed = .applied payload → known? names payload = some a → switches[i]? = some a → i ≤ j →
    (∃ earlier ∈ applied notes, ∃ a', known? names earlier = some a' ∧ switches[j]? = some a') →
    d''.site? n = d'.site? n := by
  intro hharmless
  obtain ⟨ps, r, notes, note, d', d'', hnew, hr, hmoves, hmove, hnote, hmem, -, hbefore, hafter⟩ :=
    gossip_repeats
  have hfirst : r.topology.master? 0 = some ⟨"h", 1⟩ := by rw [hr]; rfl
  have hsame : ∀ peer ∈ [⟨"p", 1⟩, ⟨"p", 2⟩],
      (announced ["a", "b"] (gossip.payloads peer)).filter (·.shard = "a") =
        [⟨"a", ⟨"h", 1⟩, ⟨"h", 2⟩⟩, ⟨"a", ⟨"h", 2⟩, ⟨"h", 3⟩⟩] := by decide
  have hunchanged := hharmless hnew (by decide) .here
    (d := { Router.Site.deployed ⟨ps, r⟩ with directory := .script gossip }) (n := 0) rfl rfl
    (by decide) (k := 0) rfl hfirst (by decide) (by decide) hsame (.of_moves hmoves) hmove hnote
    (a := ⟨"a", ⟨"h", 1⟩, ⟨"h", 2⟩⟩) rfl (i := 0) (j := 1) rfl (by decide) ⟨_, hmem, _, rfl, rfl⟩
  rw [hunchanged, hbefore] at hafter
  exact absurd hafter (by decide)

end Deployment
end Holdfast
