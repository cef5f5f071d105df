import Holdfast.Proofs.Connection

namespace Holdfast.Memory

open Store

namespace Node

/-- The key that a write touches. Where nothing lives there is nothing to delete or to expire. -/
def touch? (n : Node) (now : Nat) : Write → Option Bytes
  | .put key _ => some key
  | .delete key | .expire key _ => if (n.live? now key).isSome then some key else none

/-- The keys that writes touch one after the other. -/
def touches (n : Node) (now : Nat) : List Write → List Bytes
  | [] => []
  | w :: ws => (n.touch? now w).toList ++ touches (n.apply now w).1 now ws

variable {n : Node} {now : Nat} {key : Bytes} {x : Nat}

theorem key_of_touch? {w : Write} (h : n.touch? now w = some key) : w.key = key := by
  cases w with
  | put k value => exact Option.some.inj h
  | delete k | expire k seconds =>
    simp only [touch?, Option.ite_none_right_eq_some] at h
    exact Option.some.inj h.2

theorem touch?_of_live {w : Write} (hl : (n.live? now w.key).isSome = true) :
    n.touch? now w = some w.key := by
  cases w with
  | put k value => rfl
  | delete k | expire k seconds => exact if_pos hl

/-- A version that was given out stays just with the keys that are not touched. -/
theorem version?_apply (hx : x ≤ n.version) (w : Write) :
    (n.apply now w).1.version? now key = some x ↔
      n.version? now key = some x ∧ n.touch? now w ≠ some key := by
  by_cases hk : w.key = key
  · subst hk
    -- An entry that is there after the write has a version of its own.
    have hafter : (n.apply now w).1.version? now w.key ≠ some x := by
      intro hv
      obtain ⟨e, he, rfl⟩ := Option.map_eq_some_iff.mp hv
      cases w with
      | put k value =>
        change (n.put k value).live? now k = some e at he
        rw [live?_put_self] at he
        cases he
        exact Nat.not_succ_le_self _ hx
      | delete k =>
        change (n.delete k).live? now k = some e at he
        simp at he
      | expire k seconds =>
        change (n.expire now k seconds).1.live? now k = some e at he
        cases hl : n.live? now k with
        | none =>
          have hsame : (n.expire now k seconds).1.live? now k = n.live? now k := by
            rw [expire_absent hl]; rfl
          rw [hsame, hl] at he
          cases he
        | some d =>
          rw [expire_live hl, live?_eq_some, Table.get?_set_self] at he
          obtain ⟨he, -⟩ := he
          cases he
          exact Nat.not_succ_le_self _ hx
    refine iff_of_false hafter ?_
    rintro ⟨hv, huntouched⟩
    obtain ⟨e, he, -⟩ := Option.map_eq_some_iff.mp hv
    exact huntouched (touch?_of_live (by simp [he]))
  · have hsame : (n.apply now w).1.version? now key = n.version? now key := by
      unfold version?
      rw [live?_congr (get?_apply_ne n now w hk)]
    rw [hsame]
    exact (and_iff_left fun h => hk (key_of_touch? h)).symm

/-- What comes to live has been touched. -/
theorem live_apply {w : Write} (h : ((n.apply now w).1.live? now key).isSome = true) :
    (n.live? now key).isSome = true ∨ n.touch? now w = some key := by
  by_cases hk : w.key = key
  · subst hk
    cases w with
    | put k value => exact .inr rfl
    | delete k =>
      change ((n.delete k).live? now k).isSome = true at h
      simp at h
    | expire k seconds =>
      change ((n.expire now k seconds).1.live? now k).isSome = true at h
      cases hl : n.live? now k with
      | none =>
        rw [expire_absent hl] at h
        exact .inl (hl ▸ h)
      | some d => exact .inl (by simp [Write.key, hl])
  · rw [live?_congr (get?_apply_ne n now w hk)] at h
    exact .inl h

theorem version?_applyAll (hx : x ≤ n.version) (ws : List Write) :
    (n.applyAll now ws).1.version? now key = some x ↔
      n.version? now key = some x ∧ key ∉ n.touches now ws := by
  induction ws generalizing n with
  | nil => simp [applyAll, touches]
  | cons w ws ih =>
    have hle : x ≤ (n.apply now w).1.version :=
      Nat.le_trans hx ((Later.spans key now).apply n now w).counter
    have hrest : (n.applyAll now (w :: ws)).1 = ((n.apply now w).1.applyAll now ws).1 := rfl
    have hmem : key ∈ n.touches now (w :: ws) ↔
        n.touch? now w = some key ∨ key ∈ touches (n.apply now w).1 now ws := by
      simp [touches]
    rw [hrest, ih hle, version?_apply hx, hmem, not_or, and_assoc]

theorem live_applyAll {ws : List Write}
    (h : ((n.applyAll now ws).1.live? now key).isSome = true) :
    (n.live? now key).isSome = true ∨ key ∈ n.touches now ws := by
  induction ws generalizing n with
  | nil => exact .inl h
  | cons w ws ih =>
    have hrest : ((((n.apply now w).1.applyAll now ws).1).live? now key).isSome = true := h
    simp only [touches, List.mem_append, Option.mem_toList]
    rcases ih hrest with hl | ht
    · rcases live_apply hl with hl | ht
      · exact .inl hl
      · exact .inr (.inl ht)
    · exact .inr (.inr ht)

end Node

/-- What a call has written, as its answer tells. -/
def written : Call → Answer → List Write
  | .setIfAbsent key value, .now (.ok (.flag true)) => [.put key value]
  | .expire key seconds, .now (.ok (.flag true)) => [.expire key seconds]
  | .exec writes, .now (.ok (.effects (some _))) => writes
  | _, _ => []

namespace Connection

/-- A call changes what is stored as it tells. -/
theorem call_written (c : Connection) (s : Server) (now : Nat) (r : Call) :
    (c.call s now r).2.1.node.entries =
      (s.node.applyAll now (written r (c.call s now r).2.2)).1.entries := by
  cases hcut : c.isCut s with
  | true =>
    rw [call_cut hcut]
    cases r <;> rfl
  | false =>
    cases r with
    | setIfAbsent k v =>
      simp only [call, hcut, Bool.false_eq_true, if_false, Node.setIfAbsent]
      split <;> rfl
    | expire k seconds =>
      simp only [call, hcut, Bool.false_eq_true, if_false]
      cases hl : s.node.live? now k with
      | none => rw [Node.expire_absent hl]; rfl
      | some e => simp only [Node.expire_live hl, written, Node.applyAll, Node.apply]
    | exec ws =>
      simp only [call, hcut, Bool.false_eq_true, if_false, exec]
      split <;> rfl
    | get k =>
      simp only [call, hcut, Bool.false_eq_true, if_false]
      split <;> rfl
    | watch k => simp only [call, hcut, Bool.false_eq_true, if_false]; rfl
    | unwatch => simp only [call, hcut, Bool.false_eq_true, if_false]; rfl
    | ping => simp only [call, hcut, Bool.false_eq_true, if_false]; rfl

end Connection
end Holdfast.Memory
