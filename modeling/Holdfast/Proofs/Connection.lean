import Holdfast.Memory.Connection
import Holdfast.Proofs.Node

namespace Holdfast

namespace Store.Call

/-- Whether a call writes nothing under a key, whatever the store answers. -/
def spares (key : Bytes) : Call → Bool
  | setIfAbsent k _ | expire k _ => k ≠ key
  | exec writes => writes.all fun w => w.key ≠ key
  | get _ | watch _ | unwatch | ping => true

end Store.Call

namespace Memory

theorem Server.connect_watched {s : Server} {e : Endpoint} {c : Connection}
    (h : s.connect e = .ok c) : c.watched = [] := by
  unfold connect at h
  split at h
  · cases h
    rfl
  · cases h

namespace Connection

open Store

/-- A call to a store that is cut off leaves everything as it was. -/
theorem call_cut {c : Connection} {s : Server} (h : c.isCut s = true) (now : Nat) (r : Call) :
    c.call s now r = (c, s, .now (.error (.unreachable c.endpoint))) := by
  simp [call, h]

/-- A call is no outage, and its connection stays the one it was. -/
theorem call_stays (c : Connection) (s : Server) (now : Nat) (r : Call) :
    (c.call s now r).2.1 = { s with node := (c.call s now r).2.1.node } ∧
      (c.call s now r).1.endpoint = c.endpoint ∧
      (c.call s now r).1.openedAfter = c.openedAfter := by
  cases hcut : c.isCut s with
  | true => rw [call_cut hcut]; exact ⟨rfl, rfl, rfl⟩
  | false =>
    cases r with
    | get k =>
      simp only [call, hcut, Bool.false_eq_true, if_false]
      split <;> exact ⟨rfl, rfl, rfl⟩
    | watch k =>
      simp only [call, hcut, Bool.false_eq_true, if_false, Connection.watch, true_and]
      split <;> exact ⟨rfl, rfl⟩
    | exec ws => cases hu : c.isUntouched s.node now <;> simp [call, hcut, exec, hu]
    | setIfAbsent | expire | unwatch | ping => simp [call, hcut]

/-- What a call does to the data, whoever makes it. -/
theorem call_node_cases (c : Connection) (s : Server) (now : Nat) (r : Call) :
    (c.call s now r).2.1.node = s.node ∨
    (∃ k v, r = .setIfAbsent k v ∧
      (c.call s now r).2.1.node = (s.node.setIfAbsent now k v).1) ∨
    (∃ k t, r = .expire k t ∧ (c.call s now r).2.1.node = (s.node.expire now k t).1) ∨
    (∃ ws, r = .exec ws ∧ (c.call s now r).2.1.node = (s.node.applyAll now ws).1) := by
  cases hcut : c.isCut s with
  | true => left; rw [call_cut hcut]
  | false =>
    cases r with
    | setIfAbsent k v => right; left; exact ⟨k, v, rfl, by simp [call, hcut]⟩
    | expire k t => right; right; left; exact ⟨k, t, rfl, by simp [call, hcut]⟩
    | exec ws =>
      cases hu : c.isUntouched s.node now with
      | true => right; right; right; exact ⟨ws, rfl, by simp [call, hcut, exec, hu]⟩
      | false => left; simp [call, hcut, exec, hu]
    | get k => left; cases hd : s.readDelay <;> simp [call, hcut, hd]
    | watch k => left; simp [call, hcut]
    | unwatch => left; simp [call, hcut]
    | ping => left; simp [call, hcut]

/-- What spans the writes spans the calls that make them. -/
theorem spans_call {R : Node → Node → Prop} (h : Node.Spans R) (c : Connection) (s : Server)
    (now : Nat) (r : Call) : R s.node (c.call s now r).2.1.node := by
  rcases call_node_cases c s now r with hn | ⟨k, v, -, hn⟩ | ⟨k, t, -, hn⟩ | ⟨ws, -, hn⟩
  · rw [hn]
    exact h.refl s.node
  · rw [hn]
    exact h.setIfAbsent s.node now k v
  · rw [hn]
    exact h.expire s.node now k t
  · rw [hn]
    exact h.applyAll s.node now ws

theorem call_bounded {s : Server} (h : s.node.Bounded) (c : Connection) (now : Nat) (r : Call) :
    (c.call s now r).2.1.node.Bounded := spans_call Node.spans_bounded c s now r h

theorem call_later (key : Bytes) (c : Connection) (s : Server) (now : Nat) (r : Call) :
    Later key s.node now (c.call s now r).2.1.node now := spans_call (Later.spans key now) c s now r

/-- A call stores nothing under the keys that it spares. -/
theorem get?_call_spares {key : Bytes} {r : Call} (h : r.spares key = true) (c : Connection)
    (s : Server) (now : Nat) :
    (c.call s now r).2.1.node.entries.get? key = s.node.entries.get? key := by
  rcases call_node_cases c s now r with hn | ⟨k, v, rfl, hn⟩ | ⟨k, t, rfl, hn⟩ | ⟨ws, rfl, hn⟩
  · rw [hn]
  · have hk : k ≠ key := by simpa [Call.spares] using h
    rw [hn]
    unfold Node.setIfAbsent
    split
    · rfl
    · exact Table.get?_set_ne _ _ (Ne.symm hk)
  · have hk : (Write.expire k t).key ≠ key := by simpa [Call.spares, Write.key] using h
    rw [hn]
    exact Node.get?_apply_ne s.node now _ hk
  · rw [hn]
    exact Node.get?_applyAll_ne s.node now ws (by simpa [Call.spares] using h)

theorem call_spares {key : Bytes} {r : Call} (h : r.spares key = true) (c : Connection)
    (s : Server) (now : Nat) :
    (c.call s now r).2.1.node.value? now key = s.node.value? now key := by
  unfold Node.value?
  rw [Node.live?_congr (get?_call_spares h c s now)]

end Connection
end Memory
end Holdfast
