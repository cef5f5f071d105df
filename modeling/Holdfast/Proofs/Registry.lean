import Holdfast.Pool.Registry
import Holdfast.Proofs.Pool

namespace Holdfast

variable {κ : Type}

@[simp] theorem Pool.close_close (p : Pool κ) : p.close.close = p.close := by
  rw [close, if_pos (isClosed_close p)]

namespace Pools

theorem serves_iff {ps : Pools κ} {id : Nat} {e : Endpoint} :
    ps.serves id e = true ↔ ∃ p, ps[id]? = some p ∧ p.endpoint = e ∧ p.isClosed = false := by
  unfold serves
  cases ps[id]? <;> simp

theorem lt_of_serves {ps : Pools κ} {id : Nat} {e : Endpoint} (h : ps.serves id e = true) :
    id < ps.length := by
  obtain ⟨p, hp, -⟩ := serves_iff.mp h
  exact (List.getElem?_eq_some_iff.mp hp).1

/-- A pool of before is found where it was when others have come after it. -/
theorem get?_of_grown {ps ps' : Pools κ} (h : ps <+: ps') {id : Nat} (hid : id < ps.length) :
    ps'[id]? = ps[id]? := by
  obtain ⟨late, rfl⟩ := h
  exact List.getElem?_append_left hid

theorem serves_congr {ps ps' : Pools κ} {id : Nat} (h : ps'[id]? = ps[id]?) (e : Endpoint) :
    ps'.serves id e = ps.serves id e := by
  unfold serves
  rw [h]

theorem serves_of_grown {ps ps' : Pools κ} (h : ps <+: ps') {id : Nat} (hid : id < ps.length)
    (e : Endpoint) : ps'.serves id e = ps.serves id e :=
  serves_congr (get?_of_grown h hid) e

theorem add_grows (ps : Pools κ) (p : Pool κ) : ps <+: ps.add p := List.prefix_append ps [p]

theorem get?_add_self (ps : Pools κ) (p : Pool κ) : (ps.add p)[ps.length]? = some p := by
  simp [add]

@[simp] theorem length_add (ps : Pools κ) (p : Pool κ) : (ps.add p).length = ps.length + 1 := by
  simp [add]

@[simp] theorem length_closeAll (ps : Pools κ) (ids : List Nat) :
    (ps.closeAll ids).length = ps.length := by
  induction ids generalizing ps with
  | nil => rfl
  | cons id ids ih =>
    have hone : (ps.closePool id).length = ps.length := by simp [closePool]
    exact (ih _).trans hone

/-- Closing some pools closes them, once or more often, and touches no other. -/
theorem get?_closeAll (ps : Pools κ) (ids : List Nat) (i : Nat) :
    (ps.closeAll ids)[i]? = if i ∈ ids then ps[i]?.map Pool.close else ps[i]? := by
  induction ids generalizing ps with
  | nil => rfl
  | cons id ids ih =>
    have hone : (ps.closePool id)[i]? = if id = i then ps[i]?.map Pool.close else ps[i]? := by
      unfold closePool
      rw [List.getElem?_modify]
      split <;> simp
    change ((ps.closePool id).closeAll ids)[i]? = _
    rw [ih, hone]
    by_cases hi : id = i
    · subst hi
      simp only [if_true, List.mem_cons, true_or, Option.map_map]
      split
      · congr 1
        exact funext Pool.close_close
      · rfl
    · have hne : i ≠ id := fun he => hi he.symm
      simp [hi, hne]

theorem get?_closeAll_of_notMem {ps : Pools κ} {ids : List Nat} {i : Nat} (h : i ∉ ids) :
    (ps.closeAll ids)[i]? = ps[i]? := by
  rw [get?_closeAll, if_neg h]

end Pools
end Holdfast
