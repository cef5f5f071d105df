import Holdfast.Memory.Node
import Mathlib.Tactic.Common

namespace Holdfast

namespace Store.Write

def key : Write → Bytes
  | put k _ | delete k | expire k _ => k

end Store.Write

namespace Memory

open Store

theorem Entry.isLive_of_le {e : Entry} {now now' : Nat} (hle : now ≤ now')
    (h : e.isLive now' = true) : e.isLive now = true := by
  unfold isLive at *
  cases hd : e.expiresAt with
  | none => rfl
  | some due =>
    simp only [hd, decide_eq_true_eq] at h ⊢
    omega

namespace Node

/-- The counter has reached the version of everything that is stored. -/
def Bounded (n : Node) : Prop := ∀ key e, n.entries.get? key = some e → e.version ≤ n.version

theorem live?_eq_some {n : Node} {now : Nat} {key : Bytes} {e : Entry} :
    n.live? now key = some e ↔ n.entries.get? key = some e ∧ e.isLive now = true := by
  simp [live?, Option.filter_eq_some_iff]

theorem live?_congr {n n' : Node} {key : Bytes} (h : n'.entries.get? key = n.entries.get? key)
    (now : Nat) : n'.live? now key = n.live? now key := by
  simp [live?, h]

/-- As time goes by an entry stays as it is or goes. -/
theorem value?_wait (n : Node) {now now' : Nat} (hle : now ≤ now') (key : Bytes) :
    n.value? now' key = n.value? now key ∨ n.value? now' key = none := by
  cases hl : n.live? now' key with
  | none => right; simp [value?, hl]
  | some e =>
    left
    obtain ⟨hg, he⟩ := live?_eq_some.mp hl
    have hbefore := live?_eq_some.mpr ⟨hg, Entry.isLive_of_le hle he⟩
    simp [value?, hl, hbefore]

theorem Bounded.live {n : Node} (h : n.Bounded) {now : Nat} {key : Bytes} {e : Entry}
    (hl : n.live? now key = some e) : e.version ≤ n.version :=
  h key e (live?_eq_some.mp hl).1

theorem Bounded.version {n : Node} (h : n.Bounded) {now : Nat} {key : Bytes} {x : Nat}
    (hv : n.version? now key = some x) : x ≤ n.version := by
  obtain ⟨e, hl, rfl⟩ := Option.map_eq_some_iff.mp hv
  exact h.live hl

theorem bounded_empty : Bounded {} := by
  intro key e h
  cases h

theorem expire_live {n : Node} {now : Nat} {key : Bytes} {e : Entry}
    (h : n.live? now key = some e) (seconds : Nat) :
    n.expire now key seconds =
      (⟨n.entries.set key ⟨e.value, n.version + 1, some (now + seconds * 1000)⟩, n.version + 1⟩,
        true) := by
  simp [expire, h]

theorem expire_absent {n : Node} {now : Nat} {key : Bytes} (h : n.live? now key = none)
    (seconds : Nat) : n.expire now key seconds = ({ n with version := n.version + 1 }, false) := by
  simp [expire, h]

/-- A relation that spans whatever is written: it holds over an entry with the next number, over a
removal and over a number that goes to no entry, and so over all writes together. -/
structure Spans (R : Node → Node → Prop) : Prop where
  refl : ∀ n, R n n
  trans : ∀ {n m k}, R n m → R m k → R n k
  set : ∀ n key (e : Entry), e.version = n.version + 1 →
    R n ⟨n.entries.set key e, n.version + 1⟩
  delete : ∀ n key, R n (n.delete key)
  count : ∀ n : Node, R n { n with version := n.version + 1 }

namespace Spans

variable {R : Node → Node → Prop}

theorem put (h : Spans R) (n : Node) (key value : Bytes) : R n (n.put key value) :=
  h.set n key _ rfl

theorem expire (h : Spans R) (n : Node) (now : Nat) (key : Bytes) (seconds : Nat) :
    R n (n.expire now key seconds).1 := by
  cases hl : n.live? now key with
  | none =>
    rw [expire_absent hl]
    exact h.count n
  | some e =>
    rw [expire_live hl]
    exact h.set n key _ rfl

theorem setIfAbsent (h : Spans R) (n : Node) (now : Nat) (key value : Bytes) :
    R n (n.setIfAbsent now key value).1 := by
  unfold Node.setIfAbsent
  split
  · exact h.refl n
  · exact h.put n key value

theorem apply (h : Spans R) (n : Node) (now : Nat) (w : Write) : R n (n.apply now w).1 := by
  cases w with
  | put key value => exact h.put n key value
  | delete key => exact h.delete n key
  | expire key seconds => exact h.expire n now key seconds

theorem applyAll (h : Spans R) (n : Node) (now : Nat) (ws : List Write) :
    R n (n.applyAll now ws).1 := by
  induction ws generalizing n with
  | nil => exact h.refl n
  | cons w ws ih => exact h.trans (h.apply n now w) (ih _)

end Spans

/-- Storing an entry under the next version keeps the counter ahead. -/
theorem spans_bounded : Spans fun n n' => n.Bounded → n'.Bounded where
  refl _ := id
  trans h h' := h' ∘ h
  set := by
    intro n key e he h k d hd
    by_cases hk : k = key
    · subst k
      rw [Table.get?_set_self] at hd
      cases hd
      exact Nat.le_of_eq he
    · rw [Table.get?_set_ne _ _ hk] at hd
      exact Nat.le_succ_of_le (h k d hd)
  delete := by
    intro n key h k d hd
    by_cases hk : k = key
    · subst k
      simp [Node.delete] at hd
    · exact h k d (by rwa [Node.delete, Table.get?_erase_ne _ hk] at hd)
  count _ h := fun k d hd => Nat.le_succ_of_le (h k d hd)

@[simp] theorem live?_put_self (n : Node) (now : Nat) (key value : Bytes) :
    (n.put key value).live? now key = some ⟨value, n.version + 1, none⟩ := by
  simp [put, live?, Entry.isLive, Option.filter]

@[simp] theorem live?_delete_self (n : Node) (now : Nat) (key : Bytes) :
    (n.delete key).live? now key = none := by
  simp [delete, live?]

/-- A time to live of at least a second leaves the entry there for now. -/
theorem live?_expire_self {n : Node} {now : Nat} {key : Bytes} {e : Entry}
    (h : n.live? now key = some e) {seconds : Nat} (hs : 0 < seconds) :
    (n.expire now key seconds).1.live? now key =
      some ⟨e.value, n.version + 1, some (now + seconds * 1000)⟩ := by
  rw [expire_live h, live?_eq_some]
  refine ⟨Table.get?_set_self _ _ _, ?_⟩
  simp only [Entry.isLive, decide_eq_true_eq]
  omega

@[simp] theorem value?_put_self (n : Node) (now : Nat) (key value : Bytes) :
    (n.put key value).value? now key = some value := by
  simp [value?]

@[simp] theorem value?_delete_self (n : Node) (now : Nat) (key : Bytes) :
    (n.delete key).value? now key = none := by
  simp [value?]

theorem value?_eq_none {n : Node} {now : Nat} {key : Bytes} :
    n.value? now key = none ↔ n.live? now key = none := by
  simp [value?]

theorem value?_expire_self (n : Node) (now : Nat) (key : Bytes) {seconds : Nat}
    (hs : 0 < seconds) : (n.expire now key seconds).1.value? now key = n.value? now key := by
  cases h : n.live? now key with
  | none =>
    rw [value?_eq_none.mpr h, expire_absent h]
    exact value?_eq_none.mpr h
  | some e => simp [value?, live?_expire_self h hs, h]

/-- A write changes nothing under the keys it does not name. -/
theorem get?_apply_ne (n : Node) (now : Nat) (w : Write) {key : Bytes} (h : w.key ≠ key) :
    (n.apply now w).1.entries.get? key = n.entries.get? key := by
  cases w with
  | put k value => exact Table.get?_set_ne _ _ (Ne.symm h)
  | delete k => exact Table.get?_erase_ne _ (Ne.symm h)
  | expire k seconds =>
    change (n.expire now k seconds).1.entries.get? key = _
    cases hl : n.live? now k with
    | none => rw [expire_absent hl]
    | some e =>
      rw [expire_live hl]
      exact Table.get?_set_ne _ _ (Ne.symm h)

theorem get?_applyAll_ne (n : Node) (now : Nat) {key : Bytes} (ws : List Write)
    (h : ∀ w ∈ ws, w.key ≠ key) :
    (n.applyAll now ws).1.entries.get? key = n.entries.get? key := by
  induction ws generalizing n with
  | nil => rfl
  | cons w ws ih =>
    have hw := get?_apply_ne n now w (h w List.mem_cons_self)
    exact (ih _ (fun v hv => h v (List.mem_cons_of_mem _ hv))).trans hw

end Node

/-- What lives under a key at a later time lived there before, or is newer than all that did. -/
structure Later (key : Bytes) (n : Node) (now : Nat) (n' : Node) (now' : Nat) : Prop where
  counter : n.version ≤ n'.version
  entry : ∀ e, n'.live? now' key = some e → n.live? now key = some e ∨ n.version < e.version

namespace Later

open Node

theorem refl (key : Bytes) (n : Node) (now : Nat) : Later key n now n now :=
  ⟨Nat.le_refl _, fun _ h => .inl h⟩

theorem trans {key : Bytes} {n m k : Node} {a b c : Nat} (h : Later key n a m b)
    (h' : Later key m b k c) : Later key n a k c := by
  refine ⟨Nat.le_trans h.counter h'.counter, ?_⟩
  intro e he
  rcases h'.entry e he with hm | hm
  · exact h.entry e hm
  · exact .inr (Nat.lt_of_le_of_lt h.counter hm)

theorem wait (key : Bytes) (n : Node) {now now' : Nat} (hle : now ≤ now') :
    Later key n now n now' := by
  refine ⟨Nat.le_refl _, ?_⟩
  intro e he
  obtain ⟨hg, hl⟩ := live?_eq_some.mp he
  exact .inl (live?_eq_some.mpr ⟨hg, Entry.isLive_of_le hle hl⟩)

/-- An entry under the next version is newer than all before it. -/
theorem spans (key : Bytes) (now : Nat) : Spans fun n n' => Later key n now n' now where
  refl n := refl key n now
  trans := trans
  set := by
    intro n k d hd
    refine ⟨Nat.le_succ _, ?_⟩
    intro e he
    by_cases hk : key = k
    · subst k
      obtain ⟨hg, -⟩ := live?_eq_some.mp he
      rw [Table.get?_set_self] at hg
      cases hg
      exact .inr (by omega)
    · left
      rwa [live?_congr (Table.get?_set_ne _ _ hk)] at he
  delete := by
    intro n k
    refine ⟨Nat.le_refl _, ?_⟩
    intro e he
    by_cases hk : key = k
    · subst k
      simp at he
    · left
      rwa [live?_congr (Table.get?_erase_ne _ hk)] at he
  count n := ⟨Nat.le_succ _, fun _ he => .inl he⟩

/-- A version that was given out before still belongs to the entry that had it. -/
theorem entry_of_version {key : Bytes} {n n' : Node} {now now' : Nat}
    (h : Later key n now n' now') {x : Nat} (hx : x ≤ n.version)
    (hv : n'.version? now' key = some x) :
    n.version? now key = some x ∧ n'.value? now' key = n.value? now key := by
  obtain ⟨e, he, rfl⟩ := Option.map_eq_some_iff.mp hv
  rcases h.entry e he with hl | hl
  · simp [Node.version?, Node.value?, hl, he]
  · omega

end Later
end Memory
end Holdfast
