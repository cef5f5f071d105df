import Holdfast.Etcd.Connection
import Holdfast.Proofs.Contents
import Holdfast.Proofs.Etcd.Server
import Holdfast.Proofs.Table

namespace Holdfast

namespace Store

/-- Writes that put or delete no key twice, and each of whose expiries comes after a put of its key
and takes a second at least. `put` and `deleted` are the keys of the writes before. -/
def orderly (put deleted : List Bytes) : List Write → Bool
  | [] => true
  | .put key _ :: ws => !put.contains key && !deleted.contains key && orderly (key :: put) deleted ws
  | .delete key :: ws => !put.contains key && !deleted.contains key && orderly put (key :: deleted) ws
  | .expire key seconds :: ws => put.contains key && 0 < seconds && orderly put deleted ws

section
variable {put deleted : List Bytes} {key : Bytes} {ws : List Write}

theorem orderly_put {value : Bytes} : orderly put deleted (.put key value :: ws) = true ↔
    key ∉ put ∧ key ∉ deleted ∧ orderly (key :: put) deleted ws = true := by
  simp [orderly, and_assoc]

theorem orderly_delete : orderly put deleted (.delete key :: ws) = true ↔
    key ∉ put ∧ key ∉ deleted ∧ orderly put (key :: deleted) ws = true := by
  simp [orderly, and_assoc]

theorem orderly_expire {seconds : Nat} : orderly put deleted (.expire key seconds :: ws) = true ↔
    key ∈ put ∧ 0 < seconds ∧ orderly put deleted ws = true := by
  simp [orderly, and_assoc]

end

theorem lasts_of_orderly {put deleted : List Bytes} {ws : List Write}
    (h : orderly put deleted ws = true) : ws.all Write.lasts = true := by
  induction ws generalizing put deleted with
  | nil => rfl
  | cons w ws ih =>
    cases w with
    | put => exact ih (orderly_put.mp h).2.2
    | delete => exact ih (orderly_delete.mp h).2.2
    | expire =>
      obtain ⟨-, hs, hrest⟩ := orderly_expire.mp h
      simpa [Write.lasts, hs] using ih hrest

/-- A call whose writes are orderly, and whose expiry takes a second at least. -/
def Call.isOrderly : Call → Bool
  | .expire _ seconds => 0 < seconds
  | .exec writes => orderly [] [] writes
  | .setIfAbsent .. | .get _ | .watch _ | .unwatch | .ping => true

theorem Call.lasts_of_isOrderly {r : Call} (h : r.isOrderly = true) : r.lasts = true := by
  cases r with
  | exec writes => exact lasts_of_orderly h
  | expire => exact h
  | setIfAbsent | get | watch | unwatch | ping => rfl

end Store

namespace Etcd

open Store

namespace Data

/-- No key carries the lease. -/
def IsFree (d : Data) (lease : Int) : Prop :=
  ∀ key row, d.rows.get? key = some row → row.lease ≠ lease

/-- What every server keeps: a key's revision is no later than the server's, and the lease of a key,
where it has one, was granted and is no other key's. -/
structure Sound (d : Data) : Prop where
  version : ∀ {key row}, d.rows.get? key = some row → 0 < row.version
  revision : ∀ {key row}, d.rows.get? key = some row →
    0 < row.modRevision ∧ row.modRevision ≤ d.revision
  granted : ∀ {key row}, d.rows.get? key = some row → row.lease = 0 ∨ row.lease ∈ d.leases
  exclusive : ∀ {k k' row row'}, d.rows.get? k = some row → d.rows.get? k' = some row' →
    row.lease ≠ 0 → row.lease = row'.lease → k = k'
  leases : ∀ lease ∈ d.leases, 0 < lease ∧ lease < d.nextLease
  next : 0 < d.nextLease

/-- What has become of the keys: those touched that are there have a new revision, all others are as
they were. -/
structure Changes (d d' : Data) (touched : List Bytes) : Prop where
  counter : d.revision ≤ d'.revision
  same : ∀ {key}, key ∉ touched → d'.rows.get? key = d.rows.get? key
  fresh : ∀ {key row}, key ∈ touched → d'.rows.get? key = some row → d.revision < row.modRevision

/-- The counters of a server have gone up, for keys and leases that are none of ours. -/
structure Grows (d d' : Data) : Prop where
  revision : d.revision ≤ d'.revision
  next : d.nextLease ≤ d'.nextLease
  rows : d'.rows = d.rows
  leases : d'.leases = d.leases

/-- Nothing has happened to the keys, and no lease was given back. -/
structure Idle (d d' : Data) : Prop where
  changes : Changes d d' []
  leases : ∀ lease ∈ d.leases, lease ∈ d'.leases

/-- The data with a new row under a key, or without the key, at a revision. -/
def stored (d : Data) (revision : Nat) (key : Bytes) (row : Row) : Data :=
  { d with rows := d.rows.set key row, revision }

def removed (d : Data) (revision : Nat) (key : Bytes) : Data :=
  { d with rows := d.rows.erase key, revision }

theorem get?_stored (d : Data) (revision : Nat) (key : Bytes) (row : Row) (k : Bytes) :
    (d.stored revision key row).rows.get? k = if k = key then some row else d.rows.get? k := by
  unfold stored
  split
  · next hk => rw [hk, Table.get?_set_self]
  · next hk => rw [Table.get?_set_ne _ _ hk]

theorem get?_removed (d : Data) (revision : Nat) (key k : Bytes) :
    (d.removed revision key).rows.get? k = if k = key then none else d.rows.get? k := by
  unfold removed
  split
  · next hk => rw [hk, Table.get?_erase_self]
  · next hk => rw [Table.get?_erase_ne _ hk]

theorem value?_stored (d : Data) (revision : Nat) (key : Bytes) (row : Row) :
    (d.stored revision key row).value? = Contents.write d.value? (.put key row.value) := by
  funext k
  simp only [value?, get?_stored, Contents.write, Function.update_apply]
  split <;> rfl

/-- The row that a put leaves. -/
def rowAfter (d : Data) (revision : Nat) (key value : Bytes) (lease : Int) : Row :=
  ⟨value, ((d.rows.get? key).map Row.version).getD 0 + 1, revision, lease⟩

/-- A put is carried out if there is a value to put, and its lease was granted. -/
theorem perform_put {d : Data} {key v : Bytes} {value : Option Bytes} {lease : Option Int}
    (hv : (value <|> d.value? key) = some v) (hl : ∀ l, lease = some l → l ∈ d.leases)
    (revision : Nat) (wantsPrevious : Bool) :
    d.perform revision (.put key value lease wantsPrevious) =
      .ok (d.stored revision key (d.rowAfter revision key v (lease.getD 0)),
        .put (if wantsPrevious then (d.rows.get? key).map Row.pair else none)) := by
  have hgranted : lease.any (· ∉ d.leases) = false := by
    cases lease with
    | none => rfl
    | some l => simpa using hl l rfl
  unfold value? at hv
  simp only [perform, hv, hgranted]
  rfl

theorem value?_removed (d : Data) (revision : Nat) (key : Bytes) :
    (d.removed revision key).value? = Contents.write d.value? (.delete key) := by
  funext k
  simp only [value?, get?_removed, Contents.write, Function.update_apply]
  split <;> rfl

theorem sound_empty : Sound {} := by
  refine ⟨?_, ?_, ?_, ?_, by simp, by decide⟩
  · intro key row h
    cases h
  · intro key row h
    cases h
  · intro key row h
    cases h
  · intro k k' row row' h
    cases h

theorem Changes.refl (d : Data) : Changes d d [] :=
  ⟨Nat.le_refl _, fun _ => rfl, fun h => absurd h List.not_mem_nil⟩

theorem Changes.get?_eq {d d' : Data} (h : Changes d d' []) (key : Bytes) :
    d'.rows.get? key = d.rows.get? key := h.same List.not_mem_nil

theorem Changes.value?_eq {d d' : Data} (h : Changes d d' []) : d'.value? = d.value? := by
  funext key
  simp only [value?, h.get?_eq]

theorem Changes.trans {d d₁ d₂ : Data} {first second : List Bytes} (h : Changes d d₁ first)
    (h' : Changes d₁ d₂ second) : Changes d d₂ (first ++ second) := by
  refine ⟨Nat.le_trans h.counter h'.counter, ?_, ?_⟩
  · intro key hkey
    rw [List.mem_append, not_or] at hkey
    rw [h'.same hkey.2, h.same hkey.1]
  · intro key row hkey hrow
    by_cases hlate : key ∈ second
    · exact Nat.lt_of_le_of_lt h.counter (h'.fresh hlate hrow)
    · rw [h'.same hlate] at hrow
      exact h.fresh ((List.mem_append.mp hkey).resolve_right hlate) hrow

theorem Changes.trans_idle {d d₁ d₂ : Data} {touched : List Bytes} (h : Changes d d₁ touched)
    (h' : Changes d₁ d₂ []) : Changes d d₂ touched := by
  simpa using h.trans h'

theorem Idle.refl (d : Data) : Idle d d := ⟨.refl d, fun _ h => h⟩

theorem Grows.idle {d d' : Data} (h : d.Grows d') : Idle d d' := by
  refine ⟨⟨h.revision, ?_, fun hk => absurd hk List.not_mem_nil⟩, ?_⟩
  · intro key _
    rw [h.rows]
  · intro lease hl
    rwa [h.leases]

theorem Idle.trans {d d₁ d₂ : Data} (h : Idle d d₁) (h' : Idle d₁ d₂) : Idle d d₂ :=
  ⟨h.changes.trans h'.changes, fun lease hl => h'.leases lease (h.leases lease hl)⟩

theorem IsFree.same {d d' : Data} {lease : Int} (h : d.IsFree lease) (hc : Changes d d' []) :
    d'.IsFree lease := by
  intro key row hrow
  rw [hc.get?_eq] at hrow
  exact h key row hrow

namespace Sound

variable {d : Data}

theorem grows (h : d.Sound) {d' : Data} (hg : d.Grows d') : d'.Sound := by
  refine ⟨?_, ?_, ?_, ?_, ?_, Int.lt_of_lt_of_le h.next hg.next⟩
  · rw [hg.rows]
    exact h.version
  · rw [hg.rows]
    intro key row hrow
    exact ⟨(h.revision hrow).1, Nat.le_trans (h.revision hrow).2 hg.revision⟩
  · rw [hg.rows, hg.leases]
    exact h.granted
  · rw [hg.rows]
    exact h.exclusive
  · rw [hg.leases]
    intro lease hl
    exact ⟨(h.leases lease hl).1, Int.lt_of_lt_of_le (h.leases lease hl).2 hg.next⟩

/-- A key gets a row of the new revision, and a lease only if that is its own. -/
theorem stored (h : d.Sound) {key : Bytes} {row : Row} (hv : 0 < row.version)
    (hr : d.revision ≤ row.modRevision) (hpos : 0 < row.modRevision)
    (hl : row.lease = 0 ∨ row.lease ∈ d.leases)
    (hown : ∀ k r, d.rows.get? k = some r → r.lease = row.lease → row.lease ≠ 0 → k = key) :
    (d.stored row.modRevision key row).Sound := by
  have hcases : ∀ {k r}, (d.stored row.modRevision key row).rows.get? k = some r →
      k = key ∧ r = row ∨ d.rows.get? k = some r := by
    intro k r hrow
    rw [get?_stored] at hrow
    split at hrow
    · next hk => exact .inl ⟨hk, (Option.some.inj hrow).symm⟩
    · exact .inr hrow
  refine ⟨?_, ?_, ?_, ?_, h.leases, h.next⟩
  · intro k r hrow
    rcases hcases hrow with ⟨-, rfl⟩ | hold
    · exact hv
    · exact h.version hold
  · intro k r hrow
    rcases hcases hrow with ⟨-, rfl⟩ | hold
    · exact ⟨hpos, Nat.le_refl _⟩
    · exact ⟨(h.revision hold).1, Nat.le_trans (h.revision hold).2 hr⟩
  · intro k r hrow
    rcases hcases hrow with ⟨-, rfl⟩ | hold
    · exact hl
    · exact h.granted hold
  · intro k k' r r' hrow hrow' hne he
    rcases hcases hrow with ⟨rfl, rfl⟩ | hold
    · rcases hcases hrow' with ⟨rfl, -⟩ | hold'
      · rfl
      · exact (hown _ _ hold' he.symm hne).symm
    · rcases hcases hrow' with ⟨rfl, rfl⟩ | hold'
      · exact hown _ _ hold he fun hz => hne (he.trans hz)
      · exact h.exclusive hold hold' hne he

theorem removed (h : d.Sound) (key : Bytes) {revision : Nat} (hr : d.revision ≤ revision) :
    (d.removed revision key).Sound := by
  have hold : ∀ {k r}, (d.removed revision key).rows.get? k = some r → d.rows.get? k = some r := by
    intro k r hrow
    rw [get?_removed] at hrow
    split at hrow
    · cases hrow
    · exact hrow
  refine ⟨fun hrow => h.version (hold hrow), ?_, fun hrow => h.granted (hold hrow),
    fun hrow hrow' => h.exclusive (hold hrow) (hold hrow'), h.leases, h.next⟩
  intro k r hrow
  exact ⟨(h.revision (hold hrow)).1, Nat.le_trans (h.revision (hold hrow)).2 hr⟩

/-- The next lease has not been granted before, and no key carries it. -/
theorem grant (h : d.Sound) (ttl : Int) :
    (d.execute (.grant ttl)).1.Sound ∧ Idle d (d.execute (.grant ttl)).1 ∧
      d.nextLease ∈ (d.execute (.grant ttl)).1.leases ∧ d.nextLease ∉ d.leases ∧
      d.IsFree d.nextLease := by
  have hnew : d.nextLease ∉ d.leases := fun hl => absurd (h.leases _ hl).2 (Int.lt_irrefl _)
  refine ⟨⟨h.version, h.revision, ?_, h.exclusive, ?_, ?_⟩, ⟨⟨Nat.le_refl _, fun _ => rfl, ?_⟩, ?_⟩,
    List.mem_cons_self, hnew, ?_⟩
  · intro key row hrow
    exact (h.granted hrow).imp id (List.mem_cons_of_mem _)
  · intro lease hl
    have hnext := h.next
    simp only [execute, List.mem_cons] at hl ⊢
    rcases hl with rfl | hl
    · omega
    · have hle := h.leases lease hl
      omega
  · have hnext := h.next
    simp only [execute]
    omega
  · intro key row hkey
    cases hkey
  · exact fun lease hl => List.mem_cons_of_mem _ hl
  · intro key row hrow he
    rcases h.granted hrow with hz | hl
    · have hnext := h.next
      omega
    · exact hnew (he ▸ hl)

/-- No key goes with a lease that no key carries. -/
theorem revoke (h : d.Sound) {lease : Int} (hfree : d.IsFree lease) :
    (d.revoke lease).1.Sound ∧ Changes d (d.revoke lease).1 [] := by
  by_cases hl : lease ∈ d.leases
  · have hrows : ∀ key, Table.get? (d.rows.filter fun p => p.2.lease ≠ lease) key =
        d.rows.get? key := by
      intro key
      apply Table.get?_filter
      intro row hrow
      exact decide_eq_true (hfree key row hrow)
    simp only [Data.revoke, hl, if_true]
    refine ⟨⟨?_, ?_, ?_, ?_, ?_, h.next⟩, ⟨Nat.le_succ _, fun _ => hrows _, ?_⟩⟩
    · intro key row hrow
      exact h.version (hrows key ▸ hrow)
    · intro key row hrow
      rw [hrows] at hrow
      exact ⟨(h.revision hrow).1, Nat.le_succ_of_le (h.revision hrow).2⟩
    · intro key row hrow
      rw [hrows] at hrow
      refine (h.granted hrow).imp id fun hmem => ?_
      exact (List.mem_erase_of_ne (hfree key row hrow)).mpr hmem
    · intro k k' row row' hrow hrow'
      exact h.exclusive (hrows k ▸ hrow) (hrows k' ▸ hrow')
    · exact fun other ho => h.leases other (List.mem_of_mem_erase ho)
    · intro key row hkey
      cases hkey
  · simp only [Data.revoke, hl, if_false]
    exact ⟨h, .refl d⟩

end Sound

end Data
end Etcd
end Holdfast
