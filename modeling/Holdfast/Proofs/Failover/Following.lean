import Holdfast.Proofs.Failover.Settling

namespace Holdfast.Deployment

open Failover Memory Store Text

/-- A client that found its masters at a sentinel keeps each shard at the master that the last
failover of that shard has given it that was called while any listener was listening; the sentinel
goes by the last failover of all. Nothing asks for the masters anew when a listener subscribes again,
so a failover that no listener was there to hear of stays unknown until the next one. -/
theorem client_follows {c : Config} {peers : List Endpoint} {s : Sentinel} {d d₁ : Deployment}
    {client : Client} {hasDiscovery : Bool} (hdirectory : d.directory = .sentinel s)
    (hsound : s.Sound) (hmasters : c.masters = .sentinel peers)
    (hnames : ∀ name ∈ c.shards, IsWord name.toList)
    (hhosts : ∀ name ∈ c.shards, ∀ e, s.master? name = some e → IsWord e.host.toList)
    (hconnect : d.connectClient c .memory hasDiscovery = (d₁, .ok client)) :
    ∃ id, client.monitor = some id ∧ ∀ {d₂ switches}, Journey id client.router d₁ d₂ switches →
      (∀ w ∈ switches, w.shard ∈ c.shards ∧ IsWord w.master.host.toList) →
      ∃ s₂ r, d₂.directory = .sentinel s₂ ∧ d₂.routers[client.router]? = some r ∧
        ∀ {i name}, c.shards[i]? = some name →
          s₂.master? name = (lastMaster name switches).or (s.master? name) ∧
          r.topology.master? i =
            (lastMaster name (switches.filter (·.isHeard))).or (s.master? name) ∧
          ((∀ w, (switchesOf name switches).getLast? = some w → w.isHeard = true) →
            r.topology.master? i = s₂.master? name) := by
  obtain ⟨hknows, hdistinct, ⟨t, ps₀, ps, r, hnew, hsite, hfound⟩, id, hmonitor, hm⟩ :=
    connectClient_joins hdirectory hmasters hconnect
  refine ⟨id, hmonitor, ?_⟩
  intro d₂ switches hjourney hplain
  obtain ⟨hrouter, hrnames⟩ := Router.new_sound hnew
  have hserves : Serves c.shards ⟨ps, r⟩ client.router s.master? d₁ := by
    have hsize : r.topology.size = c.shards.length := by
      rw [← hrnames]
      exact hrouter.size
    exact ⟨⟨ps, r⟩, true, hsite, .here, hrnames, hsize, hfound⟩
  have hfresh : ∀ l ∈ peers.map fun peer => ({ peer } : Listener Stream), l.phase = .starting := by
    intro l hl
    obtain ⟨peer, -, rfl⟩ := List.mem_map.mp hl
    rfl
  obtain ⟨s₂, m₂, hmasters₂, hrest⟩ :=
    hjourney.keeps hknows hsound ⟨hm, rfl, rfl, rfl⟩ hfresh hdistinct hserves hnames hhosts hplain
  obtain ⟨r₂, isOpen, hr₂, -, -, -, hkept⟩ := hrest.serves
  obtain ⟨r', hr', rfl⟩ := Option.map_eq_some_iff.mp hr₂
  refine ⟨s₂, r', hrest.directory, hr', ?_⟩
  intro i name hi
  have hmaster : r'.topology.master? i =
      (lastMaster name (switches.filter (·.isHeard))).or (s.master? name) := hkept hi
  refine ⟨hmasters₂ name, hmaster, ?_⟩
  intro hlast
  rw [hmaster, hmasters₂, lastMaster_heard hlast]

/-- One peer that knows the master of the shard `a`. -/
def informant : Sentinel := (({} : Sentinel).addPeer ⟨"p", 1⟩).setMaster "a" ⟨"h", 1⟩

theorem informant_sound : informant.Sound := (Sentinel.Sound.empty.addPeer _).setMaster _ _

def guided : Config := { shards := ["a"], masters := .sentinel [⟨"p", 1⟩] }

theorem guided_names : ∀ name ∈ guided.shards, IsWord name.toList := by decide

theorem informant_hosts : ∀ name ∈ guided.shards, ∀ e, informant.master? name = some e →
    IsWord e.host.toList := by
  intro name hname e he
  cases List.mem_singleton.mp hname
  cases he
  decide

/-- The peer goes away after a first failover, misses a second one, and announces a third one when a
listener is there again. -/
def patrol : List (Event × Nat) :=
  [(.failover "a" ⟨"h", 2⟩, 0), (.reach ⟨"p", 1⟩ false, 0), (.failover "a" ⟨"h", 3⟩, 0),
    (.reach ⟨"p", 1⟩ true, 0), (.wait, 5000), (.failover "a" ⟨"h", 4⟩, 0)]

theorem client_follows_patrol : ∃ d₁ client d₂ s₂ r,
    connectClient { directory := .sentinel informant } guided .memory true = (d₁, .ok client) ∧
    tour patrol d₁ = some (d₂, [⟨"a", ⟨"h", 2⟩, true⟩, ⟨"a", ⟨"h", 3⟩, false⟩,
      ⟨"a", ⟨"h", 4⟩, true⟩]) ∧
    d₂.directory = .sentinel s₂ ∧ d₂.routers[client.router]? = some r ∧
    s₂.master? "a" = some ⟨"h", 4⟩ ∧ r.topology.master? 0 = s₂.master? "a" := by
  obtain ⟨d₁, client, hconnect, hmonitor, hone, hend⟩ : ∃ d₁ client,
      connectClient { directory := .sentinel informant } guided .memory true =
        (d₁, .ok client) ∧ client.monitor = some 0 ∧ d₁.monitors.length = 1 ∧
      (tour patrol d₁).map (·.2) = some [⟨"a", ⟨"h", 2⟩, true⟩,
        ⟨"a", ⟨"h", 3⟩, false⟩, ⟨"a", ⟨"h", 4⟩, true⟩] := ⟨_, _, rfl, rfl, rfl, rfl⟩
  obtain ⟨⟨d₂, switches⟩, htour, rfl⟩ := Option.map_eq_some_iff.mp hend
  obtain ⟨id, hid, hfollows⟩ := client_follows rfl informant_sound rfl guided_names informant_hosts
    hconnect
  cases hmonitor.symm.trans hid
  obtain ⟨s₂, r, hs₂, hr, hmasters⟩ := hfollows (.of_tour hone htour) (by decide)
  have hshard : guided.shards[0]? = some "a" := rfl
  obtain ⟨hmaster, -, hequal⟩ := hmasters hshard
  refine ⟨d₁, client, d₂, s₂, r, hconnect, htour, hs₂, hr, hmaster, hequal ?_⟩
  decide

/-- The peer is away at a failover, and comes back. -/
def absence : List (Event × Nat) :=
  [(.reach ⟨"p", 1⟩ false, 0), (.failover "a" ⟨"h", 2⟩, 0), (.reach ⟨"p", 1⟩ true, 0), (.wait, 5000)]

/-- Which peers of a sentinel are up, and the master that it has for a shard. -/
def outlook (name : String) : Directory → Option (List Bool × Option Endpoint)
  | .sentinel s => some (s.peers.map (·.2.isUp), s.master? name)
  | .script _ => none

/-- All peers can be reached again and all listeners are listening, and yet a router may be left with
a master that the sentinel has replaced. -/
theorem missed_failover_stays : ¬ ∀ {c : Config} {peers : List Endpoint} {s s₂ : Sentinel}
    {d d₁ d₂ : Deployment} {client : Client} {hasDiscovery : Bool} {id : Nat} {m : Monitor}
    {r : Router} {switches : List Switch}, d.directory = .sentinel s → s.Sound →
    c.masters = .sentinel peers → (∀ name ∈ c.shards, IsWord name.toList) →
    (∀ name ∈ c.shards, ∀ e, s.master? name = some e → IsWord e.host.toList) →
    d.connectClient c .memory hasDiscovery = (d₁, .ok client) → client.monitor = some id →
    Journey id client.router d₁ d₂ switches →
    (∀ w ∈ switches, w.shard ∈ c.shards ∧ IsWord w.master.host.toList) →
    d₂.directory = .sentinel s₂ → (∀ p ∈ s₂.peers, p.2.isUp = true) →
    d₂.monitors[id]? = some m → (∀ l ∈ m.listeners, l.state = .listening) →
    d₂.routers[client.router]? = some r →
    ∀ {i name}, c.shards[i]? = some name → r.topology.master? i = s₂.master? name := by
  intro h
  obtain ⟨d₁, client, hconnect, hmonitor, hrouter, hone, hend⟩ : ∃ d₁ client,
      connectClient { directory := .sentinel informant } guided .memory true =
        (d₁, .ok client) ∧ client.monitor = some 0 ∧ client.router = 0 ∧
      d₁.monitors.length = 1 ∧
      (tour absence d₁).map (fun p => (p.2, outlook "a" p.1.directory,
          p.1.monitors[0]?.map fun m => m.listeners.map (·.state),
          p.1.routers[0]?.map fun r => r.topology.master? 0)) =
        some ([⟨"a", ⟨"h", 2⟩, false⟩], some ([true], some ⟨"h", 2⟩), some [.listening],
          some (some ⟨"h", 1⟩)) := ⟨_, _, rfl, rfl, rfl, rfl, rfl⟩
  obtain ⟨⟨d₂, switches⟩, htour, hend⟩ := Option.map_eq_some_iff.mp hend
  simp only [Prod.mk.injEq] at hend
  obtain ⟨hswitches, hdirectory, hstates, htopology⟩ := hend
  cases hs₂ : d₂.directory with
  | script script => simp [hs₂, outlook] at hdirectory
  | sentinel s₂ =>
    rw [hs₂] at hdirectory
    obtain ⟨hup, hmaster⟩ := Prod.mk.inj (Option.some.inj hdirectory)
    obtain ⟨m, hm, hlistening⟩ := Option.map_eq_some_iff.mp hstates
    obtain ⟨r, hr, hold⟩ := Option.map_eq_some_iff.mp htopology
    have hequal := h rfl informant_sound rfl guided_names informant_hosts hconnect hmonitor
      (.of_tour hone htour) (by rw [hswitches]; decide) hs₂ ?_ hm ?_ (by rwa [hrouter]) (i := 0) rfl
    · rw [hold, hmaster] at hequal
      cases hequal
    · intro p hp
      have hmem : p.2.isUp ∈ s₂.peers.map (·.2.isUp) := List.mem_map_of_mem hp
      rw [hup] at hmem
      exact List.mem_singleton.mp hmem
    · intro l hl
      have hmem : l.state ∈ m.listeners.map (·.state) := List.mem_map_of_mem hl
      rw [hlistening] at hmem
      exact List.mem_singleton.mp hmem

end Holdfast.Deployment
