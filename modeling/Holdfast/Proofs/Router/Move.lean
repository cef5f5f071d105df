import Holdfast.Proofs.Router.Shutdown

namespace Holdfast.Router

variable {κ : Type} {s : Site κ} {k : Nat} {e e' : Endpoint}

/-- A shard is moved to another master: it gets a pool that there was not before, and the one that it
had is closed. -/
structure Moved (s s' : Site κ) (k : Nat) (e : Endpoint) : Prop where
  master : s'.router.topology.master? k = some e
  pool : ∃ old new, s.router.pools[k]? = some old ∧ s'.router.pools[k]? = some new ∧
    s.pools.length ≤ new ∧ s'.pools[new]? = some (.new e s.router.options s.router.backend) ∧
    old ∉ s'.router.pools ∧ ∃ p, s'.pools[old]? = some p ∧ p.isClosed = true

theorem target_update (hcurrent : s.router.topology.master? k = some e) (e' : Endpoint) :
    (Change.update k e').target s.router = .ok ⟨s.router.topology.masters.set k e'⟩ := by
  have hlt : k < s.router.topology.size := (List.getElem?_eq_some_iff.mp hcurrent).1
  simp [Change.target, Topology.withMaster, hlt]

theorem change_current (hcurrent : s.router.topology.master? k = some e) :
    (s.change (.update k e)).1 = s := by
  rcases s.change_cases (.update k e) with ⟨_, h, -⟩ | ⟨-, h⟩ | ⟨t, ht, -, hne, -⟩
  · rw [h]
  · rw [h]
  · rw [target_update hcurrent] at ht
    cases ht
    obtain ⟨hlt, rfl⟩ := List.getElem?_eq_some_iff.mp hcurrent
    exact absurd (by rw [List.set_getElem_self]) hne

/-- A pool whose place in the table is taken by a new one is not in the table any more. -/
theorem replaced {t : Topology} (hs : s.Framed) (hsize : t.size = s.router.names.length)
    {old new : Nat} (hold : s.router.pools[k]? = some old)
    (hnew : (switched s t).router.pools[k]? = some new) (hfresh : s.pools.length ≤ new) :
    old ∉ (switched s t).router.pools := by
  intro hmem
  obtain ⟨j, hj⟩ := List.getElem?_of_mem hmem
  have hlt : old < s.pools.length := hs.lt _ (List.mem_of_getElem? hold)
  have hjlt : j < s.router.names.length := by
    have hlength : (switched s t).router.pools.length = s.router.names.length :=
      (hs.switched hsize).length
    rw [← hlength]
    exact (List.getElem?_eq_some_iff.mp hj).1
  have hjpool : j < s.router.pools.length := by rwa [hs.length]
  have hjmaster : j < t.masters.length := by rwa [← hsize] at hjlt
  obtain ⟨kept, hkept, hrenewed, -⟩ := switched_shard hs (t := t)
    (List.getElem?_eq_getElem hjmaster) (List.getElem?_eq_getElem hjpool)
  rw [hj] at hkept
  cases hkept
  rcases hrenewed with ⟨-, hsame⟩ | ⟨-, hle, -⟩
  · obtain ⟨hklt, hk⟩ := List.getElem?_eq_some_iff.mp hold
    have hkj : k = j := hs.nodup.getElem_inj_iff.mp (hk.trans hsame)
    subst hkj
    rw [hj] at hnew
    cases hnew
    omega
  · omega

/-- A shard that is told of any other master is moved to it, whether it had that one before or
not. -/
theorem Site.Staffed.moves {isOpen : Bool} (hs : s.Staffed isOpen)
    (hcurrent : s.router.topology.master? k = some e) (hne : e' ≠ e) :
    Moved s (s.change (.update k e')).1 k e' := by
  have htarget := target_update hcurrent e'
  obtain ⟨hklt, hke⟩ := List.getElem?_eq_some_iff.mp hcurrent
  rcases s.change_cases (.update k e') with ⟨_, -, hno⟩ | ⟨hsame, -⟩ | ⟨t, ht, hsize, -, h⟩
  · have := hno _ htarget
    simp [Topology.size] at this
    exact absurd hs.size this
  · rw [htarget] at hsame
    have hmasters : s.router.topology.masters.set k e' = s.router.topology.masters := by
      simpa using congrArg Topology.masters (Except.ok.inj hsame)
    have hk := congrArg (·[k]?) hmasters
    simp only [List.getElem?_set_self hklt] at hk
    exact absurd (Option.some.inj (hk.trans hcurrent)) hne
  · rw [htarget] at ht
    cases ht
    rw [h]
    have hmaster : (⟨s.router.topology.masters.set k e'⟩ : Topology).master? k = some e' :=
      List.getElem?_set_self hklt
    have hkpool : k < s.router.pools.length := by
      rw [hs.length, ← hs.size]
      exact hklt
    have hold : s.router.pools[k]? = some s.router.pools[k] := List.getElem?_eq_getElem hkpool
    obtain ⟨e₁, p, he₁, hp, hend, -⟩ := hs.pool hold
    cases hcurrent.symm.trans he₁
    obtain ⟨new, hnew, hrenewed, -⟩ := switched_shard hs.framed hmaster hold
    rcases hrenewed with ⟨hserves, -⟩ | ⟨-, hfresh, hget⟩
    · obtain ⟨p', hp', hend', -⟩ := Pools.serves_iff.mp hserves
      cases hp.symm.trans hp'
      exact absurd (hend'.symm.trans hend) hne
    · have hgone := replaced hs.framed hsize hold hnew hfresh
      refine ⟨hmaster, _, new, hold, hnew, hfresh, hget, hgone, p.close, ?_, p.isClosed_close⟩
      rw [mem_retired (hs.framed.lt _ (List.mem_of_getElem? hold)),
        if_pos ⟨List.mem_of_getElem? hold, hgone⟩, hp]
      rfl

end Holdfast.Router
