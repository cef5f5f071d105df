import Holdfast.Proofs.Config.Validation
import Holdfast.Proofs.Failover.Attuned
import Holdfast.Proofs.Failover.Searching

namespace Holdfast

open Failover Memory Store

namespace Failover

/-- What a search has found so far are the masters that a sentinel knows of the first shards, and
once it has succeeded, of all of them. -/
structure Finds (s : Sentinel) (names : List String) (search : Search) : Prop where
  found : ∃ done, names = done ++ search.names ∧ search.found.map some = done.map s.master?
  all : ∀ t, search.phase = .over (.ok t) → t.masters.map some = names.map s.master?

variable {s : Sentinel} {names : List String} {search : Search}

theorem Finds.round (h : ∃ done, names = done ++ search.names ∧
    search.found.map some = done.map s.master?) : Finds s names search.round := by
  obtain ⟨done, hnames, hfound⟩ := h
  unfold Search.round
  split
  · next hnone =>
    refine ⟨⟨done, hnames, hfound⟩, ?_⟩
    intro t ht
    cases ht
    rw [hnames, hnone, List.append_nil]
    exact hfound
  · exact ⟨⟨done, hnames, hfound⟩, nofun⟩

theorem Finds.start (s : Sentinel) (peers : List Endpoint) (names : List String)
    (retries backoff : Nat) : Finds s names (.start peers names retries backoff) :=
  Finds.round ⟨[], rfl, rfl⟩

theorem Finds.failed (h : Finds s names search) (now : Nat) : Finds s names (search.failed now) := by
  unfold Search.failed
  split <;> exact ⟨h.found, nofun⟩

/-- An answer about the first shard that is left, where the sentinel is asked. -/
theorem Finds.answered (h : Finds s names search) {peer : Endpoint} {name : String}
    (hquestion : search.question? = some (peer, name)) {answer : Except Failure (Option Endpoint)}
    (hanswer : ∀ e, answer = .ok (some e) → s.master? name = some e) :
    Finds s names (search.answered answer) := by
  unfold Search.answered
  split
  · next master =>
    obtain ⟨done, hnames, hfound⟩ := h.found
    apply Finds.round
    unfold Search.question? at hquestion
    split at hquestion
    · next rest _ hleft =>
      cases hquestion
      refine ⟨done ++ [name], ?_, ?_⟩
      · rw [hnames, hleft]
        simp
      · rw [List.map_append, List.map_append, hfound, List.map_singleton, List.map_singleton,
          hanswer master rfl]
    · cases hquestion
  · split
    · exact ⟨h.found, nofun⟩
    · exact h

end Failover

namespace Deployment

/-- The peers are those of a sentinel, but for its readers. -/
def Knows (s : Sentinel) (d : Deployment) : Prop := ∃ s', d.directory = .sentinel s' ∧ s.Same s'

/-- Neither jobs nor listeners do more to a sentinel than to read. -/
theorem lasting_knows (s : Sentinel) : Lasting (Knows s) where
  works := by
    intro d d' hworks h
    obtain ⟨s', hs', hsame⟩ := h
    exact ⟨s', hworks.sentinel hs', hsame⟩
  moves := by
    intro d d' id index note hmove h
    obtain ⟨s', hs', hsame⟩ := h
    obtain ⟨m, l, d₁, phase, -, -, -, -, hsteps, rfl⟩ := moveListener_steps hmove
    obtain ⟨s'', hs'', hlater⟩ := hsteps.sentinel s' hs'
    exact ⟨s'', hs'', hsame.trans hlater⟩

/-- What a peer of the sentinel answers when it is asked for a master. -/
theorem ask_knows {s : Sentinel} {d : Deployment} (h : Knows s d) {peer e : Endpoint} {name : String}
    (hanswer : (d.ask .memory peer name).2 = .ok (some e)) : s.master? name = some e := by
  obtain ⟨s', hs', hsame⟩ := h
  unfold ask at hanswer
  rw [hs'] at hanswer
  dsimp only at hanswer
  unfold Sentinel.ask at hanswer
  cases hup : s'.upPeer? peer with
  | error f =>
    rw [hup] at hanswer
    cases hanswer
  | ok p =>
    rw [hup] at hanswer
    have hmaster : s'.master? name = some e := Except.ok.inj hanswer
    unfold Sentinel.master? at hmaster ⊢
    rwa [hsame.masters] at hmaster

theorem stepSearch_finds {s : Sentinel} {d d' : Deployment} {names : List String}
    {search search' : Search} (hd : Knows s d) (h : Finds s names search)
    (hstep : d.stepSearch .memory search = some (d', search')) : Finds s names search' := by
  unfold stepSearch at hstep
  split at hstep
  · cases hstep
  · split at hstep
    · cases hstep
      exact .round h.found
    · cases hstep
  · split at hstep
    · cases hstep
      exact h.failed _
    · next hquestion =>
      cases hstep
      exact h.answered hquestion fun e he => ask_knows hd he

/-- A discovery at the peers of a sentinel brings the masters that the sentinel knows, whoever else
is about meanwhile. -/
theorem discover_finds {s : Sentinel} {d d' : Deployment} (hd : Knows s d) {peers : List Endpoint}
    {names : List String} {retries backoff : Nat} {t : Topology}
    (h : d.discover .memory peers names retries backoff = (d', .ok t)) :
    Knows s d' ∧ t.masters.map some = names.map s.master? := by
  obtain ⟨search, ⟨hknows, hfinds⟩, hphase⟩ :=
    discover_ends (R := fun d search => Knows s d ∧ Finds s names search)
      (fun hr => ⟨(lasting_knows s).awaitSearch id hr.1 _, hr.2⟩)
      (fun hr hstep => ⟨(lasting_knows s).works (stepSearch_works hstep) hr.1,
        stepSearch_finds hr.1 hr.2 hstep⟩)
      ⟨hd, .start s peers names retries backoff⟩
  rw [h] at hknows hphase
  exact ⟨hknows, hfinds.all t hphase⟩

/-- A client that finds its masters by discovery begins with those that the sentinel knows, and with
listeners on all peers that have not begun. -/
structure Joined (c : Config) (peers : List Endpoint) (s : Sentinel) (client : Client)
    (d : Deployment) : Prop where
  knows : Knows s d
  distinct : c.shards.Nodup
  site : ∃ t ps₀ ps r, Router.new c.shards t c.pool .memory ps₀ = .ok (ps, r) ∧
    d.site? client.router = some ⟨ps, r⟩ ∧
    ∀ {i name}, c.shards[i]? = some name → r.topology.master? i = s.master? name
  listeners : ∃ id, client.monitor = some id ∧ d.monitors[id]? =
    some { router := client.router, backend := .memory
           backoff := c.failover.resubscribeBackoff.toNat
           listeners := peers.map fun peer => { peer } }

theorem findMasters_finds {c : Config} {peers : List Endpoint} {s : Sentinel} {d d' : Deployment}
    {hasDiscovery : Bool} {t : Topology} {listened : Option (List Endpoint)} (hd : Knows s d)
    (hmasters : c.masters = .sentinel peers)
    (h : d.findMasters c .memory hasDiscovery = (d', .ok (t, listened))) :
    listened = some peers ∧ Knows s d' ∧ t.masters.map some = c.shards.map s.master? := by
  unfold findMasters at h
  rw [hmasters] at h
  dsimp only at h
  split at h
  · generalize hfound : d.discoverFor c .memory peers = out at h
    obtain ⟨d₁, result⟩ := out
    cases result with
    | error e => cases h
    | ok t₁ =>
      cases h
      exact ⟨rfl, discover_finds hd hfound⟩
  · cases h

theorem openClient_ok {c : Config} {b : Backend} {t : Topology} {peers : List Endpoint}
    {d d' : Deployment} {client : Client}
    (h : d.openClient c b t (some peers) = .ok (d', client)) :
    ∃ ps r, Router.new c.shards t c.pool b d.pools = .ok (ps, r) ∧
      client.router = d.routers.length ∧ client.monitor = some d.monitors.length ∧
      d' = (watch { d with pools := ps, routers := d.routers ++ [r] } b d.routers.length peers
        c.failover.resubscribeBackoff.toNat).1 := by
  unfold openClient addRouter at h
  cases hnew : Router.new c.shards t c.pool b d.pools with
  | error e =>
    rw [hnew] at h
    cases h
  | ok out =>
    rw [hnew] at h
    cases h
    exact ⟨_, _, rfl, rfl, rfl, rfl⟩

theorem connectClient_joins {c : Config} {peers : List Endpoint} {s : Sentinel}
    {d d' : Deployment} {client : Client} {hasDiscovery : Bool} (hdirectory : d.directory = .sentinel s)
    (hmasters : c.masters = .sentinel peers)
    (h : d.connectClient c .memory hasDiscovery = (d', .ok client)) :
    Joined c peers s client d' := by
  have hknows : Knows s d := ⟨s, hdirectory, .refl s⟩
  unfold connectClient at h
  dsimp only at h
  cases hvalid : c.validate with
  | error e =>
    rw [hvalid] at h
    cases h
  | ok u =>
    rw [hvalid] at h
    dsimp only at h
    split at h
    · cases h
    · next d₁ t listened hfind =>
      obtain ⟨rfl, hknows', hfound⟩ := findMasters_finds hknows hmasters hfind
      split at h
      · cases h
      · next d₂ client₂ hopen =>
        cases h
        obtain ⟨ps, r, hnew, hrouter, hmonitor, rfl⟩ := openClient_ok hopen
        obtain ⟨hsize, htopology⟩ : t.size = c.shards.length ∧ r.topology = t := by
          unfold Router.new at hnew
          split at hnew
          · next hsize =>
            cases hnew
            exact ⟨hsize, rfl⟩
          · cases hnew
        refine ⟨hknows', Config.nodup_of_validate hvalid, ?_, ?_⟩
        · refine ⟨t, d₁.pools, ps, r, hnew, ?_, ?_⟩
          · rw [hrouter]
            simp [site?, watch]
          · intro i name hi
            have hboth := congrArg (·[i]?) hfound
            simp only [List.getElem?_map, hi, Option.map_some] at hboth
            obtain ⟨e, he, hname⟩ := Option.map_eq_some_iff.mp hboth
            rw [htopology, ← hname]
            exact he
        · refine ⟨_, hmonitor, ?_⟩
          rw [hrouter]
          exact watch_monitor _ _ _ _ _

end Deployment
end Holdfast
