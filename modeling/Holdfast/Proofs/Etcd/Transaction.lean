import Holdfast.Proofs.Etcd.Rows

namespace Holdfast.Etcd

open Store

namespace Data

theorem isSome_value? (d : Data) (key : Bytes) :
    (d.value? key).isSome = (d.rows.get? key).isSome := by
  simp [value?]

theorem performAll_cons {d d₁ d₂ : Data} {revision : Nat} {op : Op} {ops : List Op} {reply : OpReply}
    {replies : List OpReply} (h : d.perform revision op = .ok (d₁, reply))
    (hs : d₁.performAll revision ops = .ok (d₂, replies)) :
    d.performAll revision (op :: ops) = .ok (d₂, reply :: replies) := by
  simp only [performAll, h, hs, bind, Except.bind, pure, Except.pure]

end Data

/-- A server in the middle of a transaction that takes a revision of its own. The leases were granted
for their keys, and the keys put so far are there under the new revision. -/
structure Ready (leases : Table Bytes Int) (revision : Nat) (present : List Bytes) (d : Data) :
    Prop where
  sound : d.Sound
  le : d.revision ≤ revision
  pos : 0 < revision
  present : ∀ key ∈ present, ∃ row, d.rows.get? key = some row ∧ row.modRevision = revision
  granted : ∀ p ∈ leases, p.2 ∈ d.leases
  own : ∀ p ∈ leases, ∀ key row, d.rows.get? key = some row → row.lease = p.2 → key = p.1
  distinct : ∀ p ∈ leases, ∀ q ∈ leases, p.2 = q.2 → p.1 = q.1

/-- What the operations of orderly writes do to the data and answer: they are the writes. A lease that
they replace is no key's afterwards. -/
structure Performed (leases : Table Bytes Int) (revision : Nat) (ws : List Write) (d d' : Data)
    (replies : List OpReply) : Prop where
  sound : d'.Sound
  kept : d'.leases = d.leases
  counter : d.revision ≤ d'.revision
  values : d'.value? = Contents.writeAll d.value? ws
  effects : effectsOf ws replies = .ok (Contents.effects d.value? ws)
  same : ∀ {key}, key ∉ Contents.touches d.value? ws → d'.rows.get? key = d.rows.get? key
  fresh : ∀ {key row}, key ∈ Contents.touches d.value? ws → d'.rows.get? key = some row →
    row.modRevision = revision
  keeps : ∀ {lease}, lease ≠ 0 → lease ∉ leases.map Prod.snd → d.IsFree lease → d'.IsFree lease
  frees : ∀ {lease}, lease ≠ 0 → lease ∉ leases.map Prod.snd →
    lease ∈ replies.flatMap replaced → d'.IsFree lease

variable {leases : Table Bytes Int} {revision : Nat} {present : List Bytes} {d d' : Data}
  {ws : List Write} {replies : List OpReply}

theorem lease_of_get? (leases : Table Bytes Int) (key : Bytes) :
    (leases.get? key).getD 0 = 0 ∨ (key, (leases.get? key).getD 0) ∈ leases := by
  cases hl : leases.get? key with
  | none => exact .inl rfl
  | some lease => exact .inr (Table.mem_of_get? hl)

/-- The row that a put of the key leaves. -/
def rowOf (leases : Table Bytes Int) (revision : Nat) (d : Data) (key value : Bytes) : Row :=
  d.rowAfter revision key value ((leases.get? key).getD 0)

/-- A lease that is not one of the transaction's comes to no key by a put: the put's own key gets a
lease of the transaction or none. -/
theorem isFree_stored {key value : Bytes} {lease : Int} (hne : lease ≠ 0)
    (hnot : lease ∉ leases.map Prod.snd)
    (hothers : ∀ k r, k ≠ key → d.rows.get? k = some r → r.lease ≠ lease) :
    (d.stored revision key (rowOf leases revision d key value)).IsFree lease := by
  intro k r hr he
  rw [Data.get?_stored] at hr
  split at hr
  · cases hr
    rcases lease_of_get? leases key with hz | hmem
    · exact hne (he.symm.trans hz)
    · exact hnot (he ▸ List.mem_map_of_mem hmem)
  · next hk => exact hothers k r hk hr he

namespace Ready

theorem perform_put (h : Ready leases revision present d) (key value : Bytes) :
    d.perform revision (.put key (some value) (leases.get? key) true) =
      .ok (d.stored revision key (rowOf leases revision d key value),
        .put ((d.rows.get? key).map Row.pair)) := by
  have hl : ∀ l, leases.get? key = some l → l ∈ d.leases :=
    fun l hl => h.granted _ (Table.mem_of_get? hl)
  exact Data.perform_put rfl hl revision true

theorem stored (h : Ready leases revision present d) (key value : Bytes) :
    Ready leases revision (key :: present)
      (d.stored revision key (rowOf leases revision d key value)) := by
  have hsound : (d.stored revision key (rowOf leases revision d key value)).Sound := by
    refine Data.Sound.stored h.sound (Nat.succ_pos _) h.le h.pos ?_ ?_
    · exact (lease_of_get? leases key).imp id (h.granted _)
    · intro k r hr he hne
      rcases lease_of_get? leases key with hz | hmem
      · exact absurd hz hne
      · exact h.own _ hmem k r hr he
  refine ⟨hsound, Nat.le_refl _, h.pos, ?_, h.granted, ?_, h.distinct⟩
  · intro k hk
    rw [Data.get?_stored]
    split
    · exact ⟨_, rfl, rfl⟩
    · next hne => exact h.present k ((List.mem_cons.mp hk).resolve_left hne)
  · intro p hp k r hr he
    rw [Data.get?_stored] at hr
    split at hr
    · next hk =>
      cases hr
      have hpos := (h.sound.leases _ (h.granted p hp)).1
      rcases lease_of_get? leases key with hz | hmem
      · have hzero : p.2 = 0 := he.symm.trans hz
        omega
      · exact hk.trans (h.distinct _ hmem p hp he)
    · exact h.own p hp k r hr he

theorem removed (h : Ready leases revision present d) {key : Bytes} (hkey : key ∉ present) :
    Ready leases revision present (d.removed revision key) := by
  refine ⟨h.sound.removed key h.le, Nat.le_refl _, h.pos, ?_, h.granted, ?_, h.distinct⟩
  · intro k hk
    have hne : k ≠ key := fun he => hkey (he ▸ hk)
    rw [Data.get?_removed, if_neg hne]
    exact h.present k hk
  · intro p hp k r hr he
    rw [Data.get?_removed] at hr
    split at hr
    · cases hr
    · exact h.own p hp k r hr he

end Ready

namespace Performed

theorem nil (h : Ready leases revision present d) : Performed leases revision [] d d [] :=
  ⟨h.sound, rfl, Nat.le_refl _, rfl, rfl, fun _ => rfl, fun hk => absurd hk List.not_mem_nil,
    fun _ _ hf => hf, fun _ _ hl => absurd hl List.not_mem_nil⟩

theorem put (h : Ready leases revision present d) {key value : Bytes}
    (hrest : Performed leases revision ws
      (d.stored revision key (rowOf leases revision d key value)) d' replies) :
    Performed leases revision (.put key value :: ws) d d'
      (.put ((d.rows.get? key).map Row.pair) :: replies) := by
  have hvalue := d.value?_stored revision key (rowOf leases revision d key value)
  refine ⟨hrest.sound, hrest.kept, Nat.le_trans h.le hrest.counter, ?_, ?_, ?_, ?_, ?_, ?_⟩
  · rw [hrest.values, hvalue]
    rfl
  · have hprevious : ((d.rows.get? key).map Row.pair).map Pair.value = d.value? key := by
      unfold Data.value?
      cases d.rows.get? key <;> rfl
    simp only [effectsOf, hrest.effects, hvalue, hprevious]
    rfl
  · intro k hk
    simp only [Contents.touches, Contents.touched, List.singleton_append, List.mem_cons,
      not_or] at hk
    rw [hrest.same (by rw [hvalue]; exact hk.2), Data.get?_stored, if_neg hk.1]
  · intro k r hk hr
    by_cases hlate : k ∈ Contents.touches (Contents.write d.value? (.put key value)) ws
    · exact hrest.fresh (by rw [hvalue]; exact hlate) hr
    · obtain rfl : k = key := by
        simpa [Contents.touches, Contents.touched, hlate] using hk
      rw [hrest.same (by rw [hvalue]; exact hlate), Data.get?_stored, if_pos rfl] at hr
      cases hr
      rfl
  · intro lease hne hnot hfree
    exact hrest.keeps hne hnot (isFree_stored hne hnot fun k r _ => hfree k r)
  · intro lease hne hnot hmem
    rcases List.mem_append.mp hmem with hold | hlater
    · obtain ⟨row, hrow, rfl⟩ : ∃ row, d.rows.get? key = some row ∧ row.lease = lease := by
        simpa [replaced, Row.pair] using hold
      refine hrest.keeps hne hnot (isFree_stored hne hnot ?_)
      intro k r hk hr he
      exact hk (h.sound.exclusive hrow hr hne he.symm).symm
    · exact hrest.frees hne hnot hlater

theorem delete_absent {key : Bytes} (habsent : d.rows.get? key = none)
    (hrest : Performed leases revision ws d d' replies) :
    Performed leases revision (.delete key :: ws) d d' (.delete 0 [] :: replies) := by
  have hnone : d.value? key = none := by simp [Data.value?, habsent]
  have hwrite : Contents.write d.value? (.delete key) = d.value? := by
    simp only [Contents.write, ← hnone]
    exact Function.update_eq_self _ _
  have htouches : Contents.touches d.value? (.delete key :: ws) = Contents.touches d.value? ws := by
    simp [Contents.touches, Contents.touched, hwrite, hnone]
  refine ⟨hrest.sound, hrest.kept, hrest.counter, ?_, ?_, ?_, ?_, hrest.keeps, hrest.frees⟩
  · rw [hrest.values, Contents.writeAll, hwrite]
  · simp only [effectsOf, hrest.effects, Contents.effects, Contents.effect, hwrite, hnone]
    rfl
  · rw [htouches]
    exact hrest.same
  · rw [htouches]
    exact hrest.fresh

theorem delete_present (h : Ready leases revision present d) {key : Bytes} {row : Row}
    (hrow : d.rows.get? key = some row)
    (hrest : Performed leases revision ws (d.removed revision key) d' replies) :
    Performed leases revision (.delete key :: ws) d d' (.delete 1 [row.pair] :: replies) := by
  have hvalue := d.value?_removed revision key
  have hsome : (d.value? key).isSome = true := by simp [Data.value?, hrow]
  have hold : ∀ {k r}, (d.removed revision key).rows.get? k = some r →
      k ≠ key ∧ d.rows.get? k = some r := by
    intro k r hr
    rw [Data.get?_removed] at hr
    split at hr
    · cases hr
    · next hk => exact ⟨hk, hr⟩
  refine ⟨hrest.sound, hrest.kept, Nat.le_trans h.le hrest.counter, ?_, ?_, ?_, ?_, ?_, ?_⟩
  · rw [hrest.values, hvalue]
    rfl
  · simp only [effectsOf, hrest.effects, hvalue, Contents.effects, Contents.effect, hsome]
    rfl
  · intro k hk
    simp only [Contents.touches, Contents.touched, hsome, if_true, List.singleton_append,
      List.mem_cons, not_or] at hk
    rw [hrest.same (by rw [hvalue]; exact hk.2), Data.get?_removed, if_neg hk.1]
  · intro k r hk hr
    by_cases hlate : k ∈ Contents.touches (Contents.write d.value? (.delete key)) ws
    · exact hrest.fresh (by rw [hvalue]; exact hlate) hr
    · obtain rfl : k = key := by
        simpa [Contents.touches, Contents.touched, hsome, hlate] using hk
      rw [hrest.same (by rw [hvalue]; exact hlate)] at hr
      exact absurd rfl (hold hr).1
  · intro lease hne hnot hfree
    exact hrest.keeps hne hnot fun k r hr => hfree k r (hold hr).2
  · intro lease hne hnot hmem
    rcases List.mem_append.mp hmem with hreplaced | hlater
    · obtain rfl : lease = row.lease := by simpa [replaced, Row.pair] using hreplaced
      refine hrest.keeps hne hnot ?_
      intro k r hr he
      exact (hold hr).1 (h.sound.exclusive hrow (hold hr).2 hne he.symm).symm
    · exact hrest.frees hne hnot hlater

/-- An expiry is no operation: its key was put before, so it is there and touched already. -/
theorem expire {key : Bytes} {seconds : Nat} {row : Row} (hrow : d.rows.get? key = some row)
    (hr : row.modRevision = revision) (hrest : Performed leases revision ws d d' replies) :
    Performed leases revision (.expire key seconds :: ws) d d' replies := by
  have hsome : (d.value? key).isSome = true := by simp [Data.value?, hrow]
  have hmem : ∀ {k}, k ∈ Contents.touches d.value? (.expire key seconds :: ws) ↔
      k = key ∨ k ∈ Contents.touches d.value? ws := by
    intro k
    simp [Contents.touches, Contents.touched, Contents.write, hsome]
  refine ⟨hrest.sound, hrest.kept, hrest.counter, hrest.values, ?_, ?_, ?_, hrest.keeps,
    hrest.frees⟩
  · simp only [effectsOf, hrest.effects, Contents.effects, Contents.effect, hsome]
    rfl
  · intro k hk
    rw [hmem, not_or] at hk
    exact hrest.same hk.2
  · intro k r hk hr'
    by_cases hlate : k ∈ Contents.touches d.value? ws
    · exact hrest.fresh hlate hr'
    · obtain rfl : k = key := (hmem.mp hk).resolve_right hlate
      rw [hrest.same hlate, hrow] at hr'
      cases hr'
      exact hr

end Performed

/-- The operations of orderly writes are carried out, whatever the leases that go with them. -/
theorem performAll_orderly (h : Ready leases revision present d) {deleted : List Bytes}
    (ho : orderly present deleted ws = true) :
    ∃ d' replies, d.performAll revision (ws.filterMap (opOf? leases)) = .ok (d', replies) ∧
      Performed leases revision ws d d' replies := by
  induction ws generalizing d present deleted with
  | nil => exact ⟨d, [], rfl, .nil h⟩
  | cons w ws ih =>
    cases w with
    | put key value =>
      obtain ⟨-, -, ho⟩ := orderly_put.mp ho
      obtain ⟨d', replies, hperform, hrest⟩ := ih (h.stored key value) ho
      exact ⟨d', _, Data.performAll_cons (h.perform_put key value) hperform, .put h hrest⟩
    | delete key =>
      obtain ⟨hput, -, ho⟩ := orderly_delete.mp ho
      cases hrow : d.rows.get? key with
      | none =>
        obtain ⟨d', replies, hperform, hrest⟩ := ih h ho
        have hop : d.perform revision (.delete key true) = .ok (d, .delete 0 []) := by
          simp only [Data.perform, hrow]
          rfl
        exact ⟨d', _, Data.performAll_cons hop hperform, .delete_absent hrow hrest⟩
      | some row =>
        obtain ⟨d', replies, hperform, hrest⟩ := ih (h.removed hput) ho
        have hop : d.perform revision (.delete key true) =
            .ok (d.removed revision key, .delete 1 [row.pair]) := by
          simp only [Data.perform, hrow]
          rfl
        exact ⟨d', _, Data.performAll_cons hop hperform, .delete_present h hrow hrest⟩
    | expire key seconds =>
      obtain ⟨hput, -, ho⟩ := orderly_expire.mp ho
      obtain ⟨row, hrow, hr⟩ := h.present key hput
      obtain ⟨d', replies, hperform, hrest⟩ := ih h ho
      exact ⟨d', replies, hperform, .expire hrow hr hrest⟩

end Holdfast.Etcd
