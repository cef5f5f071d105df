import Holdfast.Proofs.Registry
import Holdfast.Router

namespace Holdfast.Router

variable {κ : Type} {o : PoolOptions} {b : Store.Backend}

/-- What becomes of a shard that had the pool `old` and whose master is now `e`. -/
def Renewed (o : PoolOptions) (b : Store.Backend) (ps ps' : Pools κ) (e : Endpoint)
    (old new : Nat) : Prop :=
  (ps.serves old e = true ∧ new = old) ∨
    (ps.serves old e = false ∧ ps.length ≤ new ∧ ps'[new]? = some (.new e o b))

/-- A shard that was renewed leads to its master, through a pool that is open. -/
theorem Renewed.serves {ps ps' : Pools κ} {e : Endpoint} {old new : Nat}
    (h : Renewed o b ps ps' e old new) (hp : ps <+: ps') : ps'.serves new e = true := by
  rcases h with ⟨hs, rfl⟩ | ⟨-, -, hn⟩
  · rwa [Pools.serves_of_grown hp (Pools.lt_of_serves hs)]
  · exact Pools.serves_iff.mpr ⟨_, hn, rfl, rfl⟩

theorem renew_kept {ps : Pools κ} {e : Endpoint} {id : Nat} (h : ps.serves id e = true)
    (shards : List (Endpoint × Nat)) : renew o b ps ((e, id) :: shards) =
      ((renew o b ps shards).1, id :: (renew o b ps shards).2) := by
  simp [renew, h]

theorem renew_fresh {ps : Pools κ} {e : Endpoint} {id : Nat} (h : ps.serves id e = false)
    (shards : List (Endpoint × Nat)) : renew o b ps ((e, id) :: shards) =
      ((renew o b (ps.add (.new e o b)) shards).1,
        ps.length :: (renew o b (ps.add (.new e o b)) shards).2) := by
  simp [renew, h]

theorem renew_grows (ps : Pools κ) (shards : List (Endpoint × Nat)) :
    ps <+: (renew o b ps shards).1 := by
  induction shards generalizing ps with
  | nil => exact List.prefix_rfl
  | cons s shards ih =>
    obtain ⟨e, id⟩ := s
    cases hs : ps.serves id e with
    | true => rw [renew_kept hs]; exact ih ps
    | false => rw [renew_fresh hs]; exact (Pools.add_grows ps _).trans (ih _)

@[simp] theorem length_renew (ps : Pools κ) (shards : List (Endpoint × Nat)) :
    (renew o b ps shards).2.length = shards.length := by
  induction shards generalizing ps with
  | nil => rfl
  | cons s shards ih =>
    obtain ⟨e, id⟩ := s
    cases hs : ps.serves id e with
    | true => simp [renew_kept hs, ih]
    | false => simp [renew_fresh hs, ih]

/-- Each shard keeps its pool or gets a new one, as its own master says. -/
theorem renew_get? {ps : Pools κ} {shards : List (Endpoint × Nat)}
    (hlt : ∀ s ∈ shards, s.2 < ps.length) {i : Nat} {e : Endpoint} {old : Nat}
    (hi : shards[i]? = some (e, old)) : ∃ new, (renew o b ps shards).2[i]? = some new ∧
      Renewed o b ps (renew o b ps shards).1 e old new := by
  induction shards generalizing ps i with
  | nil => simp at hi
  | cons s shards ih =>
    obtain ⟨e', id⟩ := s
    have hid : id < ps.length := hlt _ List.mem_cons_self
    have hrest : ∀ s ∈ shards, s.2 < ps.length := fun s hs => hlt s (List.mem_cons_of_mem _ hs)
    cases hs : ps.serves id e' with
    | true =>
      rw [renew_kept hs]
      cases i with
      | zero =>
        cases hi
        exact ⟨old, rfl, .inl ⟨hs, rfl⟩⟩
      | succ i => exact ih hrest hi
    | false =>
      rw [renew_fresh hs]
      have hlen : (ps.add (.new e' o b)).length = ps.length + 1 := Pools.length_add ps _
      cases i with
      | zero =>
        cases hi
        refine ⟨ps.length, rfl, .inr ⟨hs, Nat.le_refl _, ?_⟩⟩
        rw [Pools.get?_of_grown (renew_grows _ shards) (by omega), Pools.get?_add_self]
      | succ i =>
        -- The shards that follow find the registry longer by the pool that was opened here.
        have hrest' : ∀ s ∈ shards, s.2 < (ps.add (.new e' o b)).length := by
          intro s hs
          have := hrest s hs
          omega
        obtain ⟨new, hnew, hr⟩ := ih hrest' hi
        have hold : old < ps.length := hrest (e, old) (List.mem_of_getElem? hi)
        refine ⟨new, hnew, ?_⟩
        unfold Renewed at hr ⊢
        rw [Pools.serves_of_grown (Pools.add_grows ps _) hold] at hr
        rcases hr with hkept | ⟨hno, hle, hget⟩
        · exact .inl hkept
        · exact .inr ⟨hno, by omega, hget⟩

theorem renew_mem {ps : Pools κ} {shards : List (Endpoint × Nat)} {id : Nat}
    (h : id ∈ (renew o b ps shards).2) : id ∈ shards.map Prod.snd ∨ ps.length ≤ id := by
  induction shards generalizing ps with
  | nil => cases h
  | cons s shards ih =>
    obtain ⟨e, old⟩ := s
    cases hs : ps.serves old e with
    | true =>
      rw [renew_kept hs] at h
      rcases List.mem_cons.mp h with rfl | h
      · simp
      · rcases ih h with hm | hle
        · exact .inl (List.mem_cons_of_mem _ hm)
        · exact .inr hle
    | false =>
      rw [renew_fresh hs] at h
      rcases List.mem_cons.mp h with rfl | h
      · exact .inr (Nat.le_refl _)
      · rcases ih h with hm | hle
        · exact .inl (List.mem_cons_of_mem _ hm)
        · rw [Pools.length_add] at hle
          exact .inr (by omega)

/-- Shards that shared no pool before share none afterwards. -/
theorem renew_nodup {ps : Pools κ} {shards : List (Endpoint × Nat)}
    (hlt : ∀ s ∈ shards, s.2 < ps.length) (hd : (shards.map Prod.snd).Nodup) :
    (renew o b ps shards).2.Nodup := by
  induction shards generalizing ps with
  | nil => exact List.nodup_nil
  | cons s shards ih =>
    obtain ⟨e, old⟩ := s
    simp only [List.map_cons, List.nodup_cons] at hd
    have hold : old < ps.length := hlt _ List.mem_cons_self
    have hrest : ∀ s ∈ shards, s.2 < ps.length := fun s hs => hlt s (List.mem_cons_of_mem _ hs)
    cases hs : ps.serves old e with
    | true =>
      rw [renew_kept hs]
      refine List.nodup_cons.mpr ⟨?_, ih hrest hd.2⟩
      intro hm
      rcases renew_mem hm with hm | hle
      · exact hd.1 hm
      · omega
    | false =>
      rw [renew_fresh hs]
      have hlen : (ps.add (.new e o b)).length = ps.length + 1 := Pools.length_add ps _
      refine List.nodup_cons.mpr ⟨?_, ih ?_ hd.2⟩
      · intro hm
        rcases renew_mem hm with hm | hle
        · obtain ⟨s, hs, hnum⟩ := List.mem_map.mp hm
          have := hrest s hs
          omega
        · omega
      · intro s hs
        have := hrest s hs
        omega

/-- The pools that are opened at first have the numbers from the first free one on. -/
theorem openPools_eq (ps : Pools κ) (es : List Endpoint) :
    openPools o b ps es =
      (ps ++ es.map fun e => Pool.new e o b, List.range' ps.length es.length) := by
  induction es generalizing ps with
  | nil => simp [openPools]
  | cons e es ih =>
    simp only [openPools, ih, Pools.add, List.length_append, List.length_singleton]
    simp [List.range'_succ]

end Holdfast.Router
