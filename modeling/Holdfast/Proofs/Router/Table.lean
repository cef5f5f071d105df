import Holdfast.Proofs.Ring
import Holdfast.Proofs.Router.Rebuild
import Holdfast.Session.Pools
import Mathlib.Data.List.Nodup

namespace Holdfast.Router

variable {κ : Type}

/-- What a caller can ask of a router's table. -/
inductive Change
  | rebuild (t : Topology)
  | update (index : Nat) (master : Endpoint)
deriving DecidableEq

/-- The topology that a change asks for. -/
def Change.target (r : Router) : Change → Except TopologyError Topology
  | .rebuild t => .ok t
  | .update index master => r.topology.withMaster index master

def apply (r : Router) (ps : Pools κ) : Change → Except TopologyError (Pools κ × Router × Bool)
  | .rebuild t => r.rebuild ps t
  | .update index master => r.update ps index master

/-- A router with every pool that was ever opened. -/
structure Site (κ : Type) where
  pools : Pools κ
  router : Router

/-- Asks for a change. Nothing comes of one that is refused. -/
def Site.change (s : Site κ) (c : Change) : Site κ × Except TopologyError Bool :=
  match s.router.apply s.pools c with
  | .ok (pools, router, isChanged) => (⟨pools, router⟩, .ok isChanged)
  | .error e => (s, .error e)

/-- Every shard has an open pool of its own that leads to its master. -/
structure Site.Sound (s : Site κ) : Prop where
  ring : s.router.ring = .ofShards s.router.names.length
  size : s.router.topology.size = s.router.names.length
  length : s.router.pools.length = s.router.names.length
  serves : ∀ {i id}, s.router.pools[i]? = some id →
    ∃ e, s.router.topology.master? i = some e ∧ s.pools.serves id e = true
  nodup : s.router.pools.Nodup

/-- Every shard has a pool of its own, in whatever state that is. -/
structure Site.Framed (s : Site κ) : Prop where
  ring : s.router.ring = .ofShards s.router.names.length
  size : s.router.topology.size = s.router.names.length
  length : s.router.pools.length = s.router.names.length
  lt : ∀ id ∈ s.router.pools, id < s.pools.length
  nodup : s.router.pools.Nodup

/-- What a change to the topology `t` does: a shard whose master stays keeps its pool, each other one
gets a pool that there was not before, and the pools that gave way are closed. -/
structure Switched (s s' : Site κ) (t : Topology) : Prop where
  router : s'.router = { s.router with
    topology := t, pools := s'.router.pools, version := s.router.version + 1 }
  shards : ∀ {i e old}, t.master? i = some e → s.router.pools[i]? = some old →
    ∃ new, s'.router.pools[i]? = some new ∧
      if s.router.topology.master? i = some e then new = old
      else s.pools.length ≤ new ∧
        s'.pools[new]? = some (.new e s.router.options s.router.backend)
  pools : ∀ {id}, id < s.pools.length → s'.pools[id]? =
    if id ∈ s.router.pools ∧ id ∉ s'.router.pools then s.pools[id]?.map Pool.close
    else s.pools[id]?

namespace Site

variable {s : Site κ}

theorem Sound.lt (hs : s.Sound) {id : Nat} (h : id ∈ s.router.pools) : id < s.pools.length := by
  obtain ⟨i, hi⟩ := List.getElem?_of_mem h
  obtain ⟨e, -, hserves⟩ := hs.serves hi
  exact Pools.lt_of_serves hserves

theorem Sound.framed (hs : s.Sound) : s.Framed :=
  ⟨hs.ring, hs.size, hs.length, fun _ => hs.lt, hs.nodup⟩

theorem Sound.shard (hs : s.Sound) {i : Nat} (hi : i < s.router.names.length) :
    ∃ id e, s.router.pools[i]? = some id ∧ s.router.topology.master? i = some e ∧
      s.pools.serves id e = true := by
  rw [← hs.length] at hi
  have hid : s.router.pools[i]? = some s.router.pools[i] := List.getElem?_eq_getElem hi
  obtain ⟨e, he, hserves⟩ := hs.serves hid
  exact ⟨_, e, hid, he, hserves⟩

end Site

/-- The table that a change to the topology `t` puts in the place of a site's own. -/
def switched (s : Site κ) (t : Topology) : Site κ :=
  let (ps, pools) := renew s.router.options s.router.backend s.pools
    (t.masters.zip s.router.pools)
  ⟨ps.closeAll (s.router.pools.filter (· ∉ pools)),
    { s.router with topology := t, pools, version := s.router.version + 1 }⟩

theorem rebuild_eq (s : Site κ) (t : Topology) : s.router.rebuild s.pools t =
    if t.size ≠ s.router.names.length then .error (.cardinality s.router.names.length t.size)
    else if s.router.topology = t then .ok (s.pools, s.router, false)
    else .ok ((switched s t).pools, (switched s t).router, true) := rfl

theorem apply_eq (r : Router) (ps : Pools κ) (c : Change) :
    r.apply ps c = (c.target r).bind (r.rebuild ps) := by
  cases c <;> rfl

/-- What a caller is told, and what becomes of the table. -/
theorem Site.change_cases (s : Site κ) (c : Change) :
    (∃ e, s.change c = (s, .error e) ∧
      ∀ t, c.target s.router = .ok t → t.size ≠ s.router.names.length) ∨
      (c.target s.router = .ok s.router.topology ∧ s.change c = (s, .ok false)) ∨
      ∃ t, c.target s.router = .ok t ∧ t.size = s.router.names.length ∧
        t ≠ s.router.topology ∧ s.change c = (switched s t, .ok true) := by
  unfold Site.change
  rw [apply_eq]
  cases ht : c.target s.router with
  | error e => exact .inl ⟨e, rfl, by simp⟩
  | ok t =>
    have hbind : (Except.ok t : Except TopologyError Topology).bind (s.router.rebuild s.pools) =
        s.router.rebuild s.pools t := rfl
    rw [hbind, rebuild_eq]
    by_cases hsize : t.size = s.router.names.length
    · by_cases heq : s.router.topology = t
      · refine .inr (.inl ⟨by rw [heq], ?_⟩)
        simp [hsize, heq]
      · refine .inr (.inr ⟨t, rfl, hsize, fun he => heq he.symm, ?_⟩)
        simp [hsize, heq]
    · refine .inl ⟨.cardinality s.router.names.length t.size, ?_, ?_⟩
      · simp [hsize]
      · rintro _ ⟨⟩
        exact hsize

section Switch

variable {s : Site κ} {t : Topology}

theorem mem_zip_lt (hs : s.Framed) (masters : List Endpoint) :
    ∀ shard ∈ masters.zip s.router.pools, shard.2 < s.pools.length := by
  intro shard h
  exact hs.lt _ (List.of_mem_zip h).2

theorem mem_retired {id : Nat} (hid : id < s.pools.length) : (switched s t).pools[id]? =
    if id ∈ s.router.pools ∧ id ∉ (switched s t).router.pools then s.pools[id]?.map Pool.close
    else s.pools[id]? := by
  unfold switched
  rw [Pools.get?_closeAll, Pools.get?_of_grown (renew_grows _ _) hid]
  simp only [List.mem_filter, decide_eq_true_eq]

/-- Closing the pools that gave way leaves the pools of the new table alone. -/
theorem switched_get? {id : Nat} (h : id ∈ (switched s t).router.pools) :
    (switched s t).pools[id]? = (renew s.router.options s.router.backend s.pools
      (t.masters.zip s.router.pools)).1[id]? := by
  unfold switched at h ⊢
  apply Pools.get?_closeAll_of_notMem
  intro hm
  have hnot := (List.mem_filter.mp hm).2
  exact of_decide_eq_true hnot h

theorem switched_shard (hs : s.Framed) {i : Nat} {e : Endpoint} {old : Nat}
    (he : t.master? i = some e) (hold : s.router.pools[i]? = some old) :
    ∃ new, (switched s t).router.pools[i]? = some new ∧
      Renewed s.router.options s.router.backend s.pools (switched s t).pools e old new ∧
      (switched s t).pools.serves new e = true := by
  have hzip : (t.masters.zip s.router.pools)[i]? = some (e, old) :=
    List.getElem?_zip_eq_some.mpr ⟨he, hold⟩
  obtain ⟨new, hnew, hr⟩ := renew_get? (o := s.router.options) (b := s.router.backend)
    (mem_zip_lt hs t.masters) hzip
  have hsame := switched_get? (s := s) (t := t) (List.mem_of_getElem? hnew)
  refine ⟨new, hnew, ?_, ?_⟩
  · rcases hr with hkept | ⟨hno, hle, hget⟩
    · exact .inl hkept
    · exact .inr ⟨hno, hle, hsame.trans hget⟩
  · rw [Pools.serves_congr hsame]
    exact hr.serves (renew_grows _ _)

theorem switched_spec (hs : s.Sound) : Switched s (switched s t) t where
  router := rfl
  pools := mem_retired
  shards := by
    intro i e old he hold
    obtain ⟨new, hnew, hr, -⟩ := switched_shard hs.framed he hold
    refine ⟨new, hnew, ?_⟩
    obtain ⟨e', he', hserves⟩ := hs.serves hold
    -- A sound table serves each shard from its master, so the pool stays just if the master does.
    have hiff : s.pools.serves old e = true ↔ s.router.topology.master? i = some e := by
      rw [he', Option.some.injEq]
      obtain ⟨p, hp, hend, hopen⟩ := Pools.serves_iff.mp hserves
      rw [Pools.serves_iff, ← hend]
      constructor
      · rintro ⟨p', hp', rfl, -⟩
        rw [hp] at hp'
        cases hp'
        rfl
      · intro h
        exact ⟨p, hp, h, hopen⟩
    split
    · next hsame =>
      rcases hr with ⟨-, rfl⟩ | ⟨hno, -⟩
      · rfl
      · rw [hiff.mpr hsame] at hno
        cases hno
    · next hother =>
      rcases hr with ⟨hyes, -⟩ | ⟨-, hle, hget⟩
      · exact absurd (hiff.mp hyes) hother
      · exact ⟨hle, hget⟩

/-- A change gives every shard an open pool to its master, also where the pools were closed. -/
theorem Site.Framed.switched (hs : s.Framed) (hsize : t.size = s.router.names.length) :
    (switched s t).Sound := by
  have hlength : t.masters.length = s.router.pools.length := hsize.trans hs.length.symm
  have hsnd : (t.masters.zip s.router.pools).map Prod.snd = s.router.pools :=
    List.map_snd_zip (Nat.le_of_eq hlength.symm)
  have hnew : (Router.switched s t).router.pools.length = s.router.names.length := by
    change (renew _ _ _ _).2.length = _
    rw [length_renew, List.length_zip, hlength, Nat.min_self, hs.length]
  refine ⟨hs.ring, hsize, hnew, ?_, ?_⟩
  · intro i id hid
    have hi : i < s.router.pools.length := by
      have := (List.getElem?_eq_some_iff.mp hid).1
      rw [hs.length]
      omega
    have hold : s.router.pools[i]? = some s.router.pools[i] := List.getElem?_eq_getElem hi
    have hi' : i < t.masters.length := by rwa [hlength]
    have he : t.master? i = some t.masters[i] := List.getElem?_eq_getElem hi'
    obtain ⟨new, hget, -, hserves⟩ := switched_shard hs he hold
    rw [hid] at hget
    cases hget
    exact ⟨_, he, hserves⟩
  · apply renew_nodup (mem_zip_lt hs t.masters)
    rw [hsnd]
    exact hs.nodup

end Switch

/-- What everyone else may do to the pools meanwhile: use them, open others, and close such as are
not the router's. -/
def Elsewhere (r : Router) (ps ps' : Pools κ) : Prop :=
  ∀ {id p}, ps[id]? = some p → ∃ p', ps'[id]? = some p' ∧ p'.endpoint = p.endpoint ∧
    (p.isClosed = true → p'.isClosed = true) ∧ (id ∈ r.pools → p'.isClosed = p.isClosed)

/-- The life of a router that nobody shuts down, between two moments. -/
inductive Leads (s : Site κ) : Site κ → Prop
  | here : Leads s s
  | change {s' : Site κ} (c : Change) : Leads s s' → Leads s (s'.change c).1
  | elsewhere {s' : Site κ} {ps : Pools κ} :
    Leads s s' → Elsewhere s'.router s'.pools ps → Leads s { s' with pools := ps }

theorem Elsewhere.sound {s : Site κ} {ps : Pools κ} (h : Elsewhere s.router s.pools ps)
    (hs : s.Sound) : Site.Sound { s with pools := ps } := by
  refine ⟨hs.ring, hs.size, hs.length, ?_, hs.nodup⟩
  intro i id hi
  obtain ⟨e, he, hserves⟩ := hs.serves hi
  obtain ⟨p, hp, hend, hopen⟩ := Pools.serves_iff.mp hserves
  obtain ⟨p', hp', hend', -, hown⟩ := h hp
  have hmem : id ∈ s.router.pools := List.mem_of_getElem? hi
  refine ⟨e, he, Pools.serves_iff.mpr ⟨p', hp', hend'.trans hend, ?_⟩⟩
  rw [hown hmem, hopen]

theorem Site.Sound.change {s : Site κ} (hs : s.Sound) (c : Change) : (s.change c).1.Sound := by
  rcases s.change_cases c with ⟨e, h, -⟩ | ⟨-, h⟩ | ⟨t, -, hsize, -, h⟩
  · rwa [h]
  · rwa [h]
  · rw [h]
    exact hs.framed.switched hsize

/-- A new router is sound: it opens one pool for each shard, after all that there are. -/
theorem new_sound {names : List String} {t : Topology} {o : PoolOptions} {b : Store.Backend}
    {ps₀ ps : Pools κ} {r : Router} (h : Router.new names t o b ps₀ = .ok (ps, r)) :
    Site.Sound ⟨ps, r⟩ ∧ r.names = names := by
  unfold Router.new at h
  split at h
  · next hsize =>
    rw [openPools_eq] at h
    cases h
    have hlength : (List.range' ps₀.length t.masters.length).length = names.length :=
      List.length_range'.trans hsize
    refine ⟨⟨rfl, hsize, hlength, ?_, List.nodup_range'⟩, rfl⟩
    intro i id hid
    obtain ⟨hi, hid⟩ := List.getElem?_eq_some_iff.mp hid
    have hi' : i < t.masters.length := by simpa using hi
    have hid' : id = ps₀.length + i := by simpa using hid.symm
    refine ⟨t.masters[i], List.getElem?_eq_getElem hi', Pools.serves_iff.mpr
      ⟨.new t.masters[i] o b, ?_, rfl, rfl⟩⟩
    simp [hid', hi']
  · cases h

theorem Leads.sound {s s' : Site κ} (h : Leads s s') (hs : s.Sound) : s'.Sound := by
  induction h with
  | here => exact hs
  | change c _ ih => exact ih.change c
  | elsewhere _ helse ih => exact helse.sound ih

/-- Every pool that a router had at one moment is in its table later on, or closed. -/
theorem Leads.retired {s s' : Site κ} (h : Leads s s') (hs : s.Sound) {id : Nat}
    (hid : id ∈ s.router.pools) : ∃ p, s'.pools[id]? = some p ∧
      (id ∈ s'.router.pools ∨ p.isClosed = true) := by
  induction h with
  | here =>
    obtain ⟨p, hp⟩ : ∃ p, s.pools[id]? = some p := ⟨_, List.getElem?_eq_getElem (hs.lt hid)⟩
    exact ⟨p, hp, .inl hid⟩
  | @change s' c hlife ih =>
    obtain ⟨p, hp, hold⟩ := ih
    rcases s'.change_cases c with ⟨e, h, -⟩ | ⟨-, h⟩ | ⟨t, -, -, -, h⟩
    · rw [h]; exact ⟨p, hp, hold⟩
    · rw [h]; exact ⟨p, hp, hold⟩
    · rw [h]
      have hpools := (switched_spec (t := t) (hlife.sound hs)).pools
        (List.getElem?_eq_some_iff.mp hp).1
      rw [hp] at hpools
      by_cases hnew : id ∈ (switched s' t).router.pools
      · simp only [hnew, not_true_eq_false, and_false, if_false] at hpools
        exact ⟨p, hpools, .inl hnew⟩
      · rcases hold with hold | hclosed
        · simp only [hold, hnew, not_false_eq_true, and_self, if_true, Option.map_some] at hpools
          exact ⟨p.close, hpools, .inr p.isClosed_close⟩
        · split at hpools
          · exact ⟨p.close, hpools, .inr p.isClosed_close⟩
          · exact ⟨p, hpools, .inr hclosed⟩
  | elsewhere _ helse ih =>
    obtain ⟨p, hp, hold⟩ := ih
    obtain ⟨p', hp', -, hclosed, -⟩ := helse hp
    exact ⟨p', hp', hold.imp_right hclosed⟩

/-- A key leads to the shard that the ring of its router has for it, whoever the masters are. -/
theorem Site.Sound.resolve {s : Site κ} (hs : s.Sound) (hshards : 0 < s.router.names.length)
    (key : Bytes) : ∃ id e, s.router.pools[s.router.locate key]? = some id ∧
      s.router.topology.master? (s.router.locate key) = some e ∧ s.pools.serves id e = true := by
  have hlt : s.router.locate key < s.router.names.length := by
    unfold locate
    rw [hs.ring]
    exact Ring.locate_lt hshards key
  exact hs.shard hlt

theorem Leads.names {s s' : Site κ} (h : Leads s s') : s'.router.names = s.router.names := by
  induction h with
  | here => rfl
  | @change s' c _ ih =>
    rcases s'.change_cases c with ⟨e, h, -⟩ | ⟨-, h⟩ | ⟨t, -, -, -, h⟩ <;> rw [h] <;> exact ih
  | elsewhere _ _ ih => exact ih

/-- Whatever becomes of a router that is not shut down, each of its shards has an open pool of its
own to its present master; a change that is refused or asks for nothing new leaves everything as it
is, any other one switches just the shards whose master is another now, and closes their pools for
good; and a key belongs to the same shard for ever. -/
theorem table_of_life {names : List String} {t : Topology} {o : PoolOptions} {b : Store.Backend}
    {ps₀ ps : Pools κ} {r : Router} (hnew : Router.new names t o b ps₀ = .ok (ps, r))
    (hshards : 0 < names.length) {s₁ s : Site κ} (hbefore : Leads ⟨ps, r⟩ s₁) (hlife : Leads s₁ s) :
    (s.router.pools.length = names.length ∧ s.router.topology.size = names.length ∧
      s.router.pools.Nodup) ∧
    (∀ i < names.length, ∃ id e p, s.router.pools[i]? = some id ∧
      s.router.topology.master? i = some e ∧ s.pools[id]? = some p ∧ p.endpoint = e ∧
      p.isClosed = false) ∧
    (∀ c, (∃ e, s.change c = (s, .error e) ∧
        ∀ t, c.target s.router = .ok t → t.size ≠ names.length) ∨
      (c.target s.router = .ok s.router.topology ∧ s.change c = (s, .ok false)) ∨
      ∃ t s', c.target s.router = .ok t ∧ t.size = names.length ∧ t ≠ s.router.topology ∧
        s.change c = (s', .ok true) ∧ Switched s s' t) ∧
    (∀ id ∈ s₁.router.pools, id < s.pools.length ∧ (id ∉ s.router.pools →
      ∃ p, s.pools[id]? = some p ∧ p.isClosed = true)) ∧
    ∀ key, s.router.locate key = (Ring.ofShards names.length).locate key ∧
      s.router.locate key < names.length ∧ ∃ id e, s.router.pools[s.router.locate key]? = some id ∧
        s.router.topology.master? (s.router.locate key) = some e ∧
        s.pools.serves id e = true ∧
        (∀ σ, (Session.resolve s.router key).run σ =
          (.ok ⟨s.router.locate key, names[s.router.locate key]?.getD "", id⟩, σ)) ∧
        ∀ (d : Deployment) (n : Nat), d.routers[n]? = some s.router → d.poolFor? n key = some id := by
  obtain ⟨hfirst, hr⟩ := new_sound hnew
  have hs₁ : s₁.Sound := hbefore.sound hfirst
  have hs : s.Sound := hlife.sound hs₁
  have hnames : s.router.names = names := hlife.names.trans (hbefore.names.trans hr)
  refine ⟨⟨?_, ?_, hs.nodup⟩, ?_, ?_, ?_, ?_⟩
  · rw [hs.length, hnames]
  · rw [hs.size, hnames]
  · intro i hi
    obtain ⟨id, e, hid, he, hserves⟩ := hs.shard (hnames ▸ hi)
    obtain ⟨p, hp, hend, hopen⟩ := Pools.serves_iff.mp hserves
    exact ⟨id, e, p, hid, he, hp, hend, hopen⟩
  · intro c
    have hcases := s.change_cases c
    rw [hnames] at hcases
    rcases hcases with hrefused | hsame | ⟨t, htarget, hsize, hne, h⟩
    · exact .inl hrefused
    · exact .inr (.inl hsame)
    · exact .inr (.inr ⟨t, _, htarget, hsize, hne, h, switched_spec hs⟩)
  · intro id hid
    obtain ⟨p, hp, hold⟩ := hlife.retired hs₁ hid
    refine ⟨(List.getElem?_eq_some_iff.mp hp).1, ?_⟩
    intro hgone
    rcases hold with hin | hclosed
    · exact absurd hin hgone
    · exact ⟨p, hp, hclosed⟩
  · intro key
    have hring : s.router.locate key = (Ring.ofShards names.length).locate key := by
      unfold locate
      rw [hs.ring, hnames]
    obtain ⟨id, e, hid, he, hserves⟩ := hs.resolve (hnames ▸ hshards) key
    refine ⟨hring, hring ▸ Ring.locate_lt hshards key, id, e, hid, he, hserves, ?_, ?_⟩
    · intro σ
      simp only [Session.resolve, hid, hnames]
      rfl
    · intro d n hd
      simp [Deployment.poolFor?, hd, hid]

/-- The second of two shards moves to another master and so gets the third pool. -/
theorem table_of_life_moved : ∃ (ps : Pools Unit) (r : Router),
    Router.new ["a", "b"] ⟨[⟨"h", 1⟩, ⟨"h", 2⟩]⟩ {} .memory [] = .ok (ps, r) ∧
    (Site.change ⟨ps, r⟩ (.update 1 ⟨"h", 3⟩)).2 = .ok true ∧
    (Site.change ⟨ps, r⟩ (.update 1 ⟨"h", 3⟩)).1.router.pools = [0, 2] ∧
    (∃ p, (Site.change ⟨ps, r⟩ (.update 1 ⟨"h", 3⟩)).1.pools[1]? = some p ∧ p.isClosed = true) ∧
    ∀ key, (Site.change ⟨ps, r⟩ (.update 1 ⟨"h", 3⟩)).1.router.locate key < 2 := by
  have hnew : @Router.new Unit ["a", "b"] ⟨[⟨"h", 1⟩, ⟨"h", 2⟩]⟩ {} .memory [] = .ok (_, _) := rfl
  have h := table_of_life hnew (by decide) .here (.change (.update 1 ⟨"h", 3⟩) .here)
  obtain ⟨-, -, -, hretired, hkeys⟩ := h
  exact ⟨_, _, hnew, rfl, rfl, (hretired 1 (by decide)).2 (by decide), fun key => (hkeys key).2.1⟩

end Holdfast.Router
