import Holdfast.Proofs.Table
import Holdfast.Proofs.Watching.Kin

namespace Holdfast

namespace Store

/-- The keys that a call on a connection concerns, with those that the connection watches. -/
def Call.keys (watched : List Bytes) : Call → List Bytes
  | .setIfAbsent key _ | .get key | .expire key _ | .watch key => [key]
  | .exec writes => writes.map Write.key ++ watched
  | .unwatch => watched
  | .ping => []

end Store

namespace Memory

open Store

/-- What the watches of a key by two connections have found, if there are any. -/
inductive Found (key : Bytes) (n n' : Node) : Option (Option Nat) → Option (Option Nat) → Prop
  | none : Found key n n' none none
  | absent : Found key n n' (some none) (some none)
  | tied {v v' : Nat} (h : Tied key n n' v v') : Found key n n' (some (some v)) (some (some v'))

/-- Two connections of which the second watches no key but this one, and this one as the first. -/
structure Linked (key : Bytes) (n n' : Node) (c c' : Connection) : Prop where
  endpoint : c.endpoint = c'.endpoint
  openedAfter : c.openedAfter = c'.openedAfter
  nodup : (c.watched.map Prod.fst).Nodup
  nodup' : (c'.watched.map Prod.fst).Nodup
  only : ∀ p ∈ c'.watched, p.1 = key
  found : Found key n n' (c.watched.get? key) (c'.watched.get? key)

namespace Connection

theorem nodup_watch {c : Connection} (h : (c.watched.map Prod.fst).Nodup) (key : Bytes)
    (v : Option Nat) : ((c.watch key v).watched.map Prod.fst).Nodup := by
  unfold watch
  split
  · exact h
  · exact Table.nodup_set h key v

@[simp]
theorem watch_endpoint (c : Connection) (key : Bytes) (v : Option Nat) :
    (c.watch key v).endpoint = c.endpoint := by
  unfold watch
  split <;> rfl

@[simp]
theorem watch_openedAfter (c : Connection) (key : Bytes) (v : Option Nat) :
    (c.watch key v).openedAfter = c.openedAfter := by
  unfold watch
  split <;> rfl

/-- A key that is watched already keeps what was found first. -/
theorem get?_watch_self (c : Connection) (key : Bytes) (v : Option Nat) :
    (c.watch key v).watched.get? key = some ((c.watched.get? key).getD v) := by
  cases hg : c.watched.get? key <;> simp [watch, hg]

theorem get?_watch_ne (c : Connection) {key k : Bytes} (h : key ≠ k) (v : Option Nat) :
    (c.watch k v).watched.get? key = c.watched.get? key := by
  unfold watch
  split
  · rfl
  · exact Table.get?_set_ne _ _ h

theorem mem_watch {c : Connection} (h : (c.watched.map Prod.fst).Nodup) {key : Bytes}
    {v : Option Nat} {p : Bytes × Option Nat} (hp : p ∈ (c.watch key v).watched) :
    p ∈ c.watched ∨ p = (key, v) := by
  unfold watch at hp
  split at hp
  · exact .inl hp
  · rcases Table.mem_set h hp with rfl | ⟨hold, -⟩
    · exact .inr rfl
    · exact .inl hold

/-- A connection that watches one key at most is told by what it found there. -/
theorem isUntouched_iff_of_only {c : Connection} (hd : (c.watched.map Prod.fst).Nodup)
    {key : Bytes} (ho : ∀ p ∈ c.watched, p.1 = key) (n : Node) (now : Nat) :
    c.isUntouched n now = true ↔
      ∀ v, c.watched.get? key = some v → n.version? now key = v := by
  simp only [isUntouched, List.all_eq_true, decide_eq_true_eq, Prod.forall]
  constructor
  · exact fun h v hv => h key v (Table.mem_of_get? hv)
  · intro h k v hmem
    obtain rfl : k = key := ho (k, v) hmem
    exact h v (Table.get?_of_mem hd hmem)

end Connection

namespace Linked

variable {key : Bytes} {n n' m m' : Node} {c c' : Connection} {now : Nat}

theorem fresh (h : c.watched = []) : Linked key n n' c c := by
  refine ⟨rfl, rfl, ?_, ?_, ?_, ?_⟩ <;> rw [h]
  · exact List.nodup_nil
  · exact List.nodup_nil
  · simp
  · exact .none

theorem keeps (h : Linked key n n' c c') (hk : Keeps key n n' m m') : Linked key m m' c c' := by
  refine ⟨h.endpoint, h.openedAfter, h.nodup, h.nodup', h.only, ?_⟩
  have hfound := h.found
  generalize c.watched.get? key = w at *
  generalize c'.watched.get? key = w' at *
  cases hfound with
  | none => exact .none
  | absent => exact .absent
  | tied ht => exact .tied (hk.tied ht)

theorem forget (h : Linked key n n' c c') :
    Linked key n n' { c with watched := [] } { c' with watched := [] } :=
  ⟨h.endpoint, h.openedAfter, List.nodup_nil, List.nodup_nil, by simp, .none⟩

/-- Where the first connection does not watch the key, neither does the second. -/
theorem forget_aside (h : Linked key n n' c c') (hn : key ∉ c.watched.map Prod.fst) :
    Linked key n n' { c with watched := [] } c' := by
  have hnone : c.watched.get? key = none := by
    cases hg : c.watched.get? key with
    | none => rfl
    | some v => exact absurd (List.mem_map_of_mem (Table.mem_of_get? hg)) hn
  refine ⟨h.endpoint, h.openedAfter, List.nodup_nil, h.nodup', h.only, ?_⟩
  have hfound := h.found
  rw [hnone] at hfound
  exact hfound

theorem watch (h : Linked key n n' c c') (hk : Kin key n n') (now : Nat) :
    Linked key n n' (c.watch key (n.version? now key)) (c'.watch key (n'.version? now key)) := by
  have hnew : Found key n n' (some (n.version? now key)) (some (n'.version? now key)) := by
    have hnone := hk.version?_eq_none_iff now
    cases hv : n.version? now key with
    | none =>
      rw [hnone.mp hv]
      exact .absent
    | some v =>
      cases hv' : n'.version? now key with
      | none =>
        rw [hnone.mpr hv'] at hv
        cases hv
      | some v' => exact .tied (hk.tied_version hv hv')
  refine ⟨by simpa using h.endpoint, by simpa using h.openedAfter,
    Connection.nodup_watch h.nodup _ _, Connection.nodup_watch h.nodup' _ _, ?_, ?_⟩
  · intro p hp
    rcases Connection.mem_watch h.nodup' hp with hold | rfl
    · exact h.only p hold
    · rfl
  · rw [Connection.get?_watch_self, Connection.get?_watch_self]
    have hfound := h.found
    generalize c.watched.get? key = w at *
    generalize c'.watched.get? key = w' at *
    cases hfound with
    | none => exact hnew
    | absent => exact .absent
    | tied ht => exact .tied ht

theorem watch_aside (h : Linked key n n' c c') {k : Bytes} (hk : k ≠ key) (v : Option Nat) :
    Linked key n n' (c.watch k v) c' := by
  refine ⟨by simpa using h.endpoint, by simpa using h.openedAfter,
    Connection.nodup_watch h.nodup k v, h.nodup', h.only, ?_⟩
  rw [Connection.get?_watch_ne c (Ne.symm hk)]
  exact h.found

/-- Two connections that watch the same key only find it as it was, both or neither. -/
theorem isUntouched_eq (h : Linked key n n' c c') (hk : Kin key n n')
    (ho : ∀ p ∈ c.watched, p.1 = key) (now : Nat) :
    c.isUntouched n now = c'.isUntouched n' now := by
  rw [Bool.eq_iff_iff, Connection.isUntouched_iff_of_only h.nodup ho,
    Connection.isUntouched_iff_of_only h.nodup' h.only]
  have hfound := h.found
  generalize c.watched.get? key = w at *
  generalize c'.watched.get? key = w' at *
  cases hfound with
  | none => simp
  | absent => simpa using hk.version?_eq_none_iff now
  | tied ht => simpa using hk.version?_iff ht now

/-- A transaction on the key runs on both connections or on neither, with the same effects. -/
theorem exec (h : Linked key n n' c c') (hk : Kin key n n') (now : Nat) {writes : List Write}
    (hall : ∀ k ∈ writes.map Write.key ++ c.watched.map Prod.fst, k = key) :
    (c.exec n now writes).2.2 = (c'.exec n' now writes).2.2 ∧
    Keeps key n n' (c.exec n now writes).2.1 (c'.exec n' now writes).2.1 ∧
    Linked key (c.exec n now writes).2.1 (c'.exec n' now writes).2.1 (c.exec n now writes).1
      (c'.exec n' now writes).1 := by
  have hws : ∀ w ∈ writes, w.key = key :=
    fun w hw => hall _ (List.mem_append_left _ (List.mem_map_of_mem hw))
  have honly : ∀ p ∈ c.watched, p.1 = key :=
    fun p hp => hall _ (List.mem_append_right _ (List.mem_map_of_mem hp))
  obtain ⟨hkeeps, heffects⟩ := Keeps.applyAll hk now hws
  simp only [Connection.exec, h.isUntouched_eq hk honly now]
  cases c'.isUntouched n' now with
  | true => exact ⟨by simp [heffects], hkeeps, h.forget.keeps hkeeps⟩
  | false => exact ⟨rfl, .refl hk, h.forget⟩

/-- A call that concerns the key, or none, is answered alike on both connections. -/
theorem call {s : Server} (h : Linked key s.node n' c c') (hk : Kin key s.node n') (now : Nat)
    {r : Call} (habout : r.keys (c.watched.map Prod.fst) = [] ∨ key ∈ r.keys (c.watched.map Prod.fst))
    (hone : ∀ writes, r = .exec writes → ∀ k ∈ r.keys (c.watched.map Prod.fst),
      ∀ k' ∈ r.keys (c.watched.map Prod.fst), k = k') :
    (c.call s now r).2.2 = (c'.call { s with node := n' } now r).2.2 ∧
    Keeps key s.node n' (c.call s now r).2.1.node (c'.call { s with node := n' } now r).2.1.node ∧
    Linked key (c.call s now r).2.1.node (c'.call { s with node := n' } now r).2.1.node
      (c.call s now r).1 (c'.call { s with node := n' } now r).1 := by
  have hsame : c'.isCut { s with node := n' } = c.isCut s := by
    simp [Connection.isCut, h.openedAfter]
  have hstill : Keeps key s.node n' s.node n' := .refl hk
  cases hcut : c.isCut s with
  | true =>
    rw [Connection.call_cut hcut, Connection.call_cut (hsame.trans hcut), h.endpoint]
    exact ⟨rfl, hstill, h⟩
  | false =>
    have hcut' := hsame.trans hcut
    cases r with
    | setIfAbsent k value =>
      obtain rfl : key = k := by simpa [Call.keys] using habout
      obtain ⟨hkeeps, hflag⟩ := Keeps.setIfAbsent hk now value
      simp only [Connection.call, hcut, hcut', Bool.false_eq_true, if_false, hflag]
      exact ⟨trivial, hkeeps, h.keeps hkeeps⟩
    | get k =>
      obtain rfl : key = k := by simpa [Call.keys] using habout
      simp only [Connection.call, hcut, hcut', Bool.false_eq_true, if_false]
      cases s.readDelay with
      | none => exact ⟨by rw [hk.value?_eq now], hstill, h⟩
      | some ms => exact ⟨rfl, hstill, h⟩
    | expire k seconds =>
      obtain rfl : key = k := by simpa [Call.keys] using habout
      obtain ⟨hkeeps, hflag⟩ := Keeps.expire hk now seconds
      simp only [Connection.call, hcut, hcut', Bool.false_eq_true, if_false, hflag]
      exact ⟨trivial, hkeeps, h.keeps hkeeps⟩
    | watch k =>
      obtain rfl : key = k := by simpa [Call.keys] using habout
      simp only [Connection.call, hcut, hcut', Bool.false_eq_true, if_false]
      exact ⟨trivial, hstill, h.watch hk now⟩
    | unwatch =>
      simp only [Connection.call, hcut, hcut', Bool.false_eq_true, if_false]
      exact ⟨trivial, hstill, h.forget⟩
    | exec writes =>
      have hall : ∀ k ∈ writes.map Write.key ++ c.watched.map Prod.fst, k = key := by
        intro k hmem
        rcases habout with hnone | hkey
        · rw [Call.keys] at hnone
          rw [hnone] at hmem
          cases hmem
        · exact hone writes rfl k hmem key hkey
      obtain ⟨heffects, hkeeps, hlinked⟩ := h.exec hk now hall
      simp only [Connection.call, hcut, hcut', Bool.false_eq_true, if_false, heffects]
      exact ⟨trivial, hkeeps, hlinked⟩
    | ping =>
      simp only [Connection.call, hcut, hcut', Bool.false_eq_true, if_false]
      exact ⟨trivial, hstill, h⟩

/-- A call that concerns other keys only is nothing to the second connection. -/
theorem call_aside {s : Server} (h : Linked key s.node n' c c') (hk : Kin key s.node n') (now : Nat)
    {r : Call} (hne : r.keys (c.watched.map Prod.fst) ≠ [])
    (hnot : key ∉ r.keys (c.watched.map Prod.fst)) :
    Keeps key s.node n' (c.call s now r).2.1.node n' ∧
      Linked key (c.call s now r).2.1.node n' (c.call s now r).1 c' := by
  have hspares : r.spares key = true := by
    cases r with
    | setIfAbsent | expire =>
      simp only [Call.keys, List.mem_singleton] at hnot
      simpa [Call.spares] using Ne.symm hnot
    | exec writes =>
      simp only [Call.spares, List.all_eq_true, decide_eq_true_eq]
      rintro w hw rfl
      exact hnot (List.mem_append_left _ (List.mem_map_of_mem hw))
    | get | watch | unwatch | ping => rfl
  have hkeeps : Keeps key s.node n' (c.call s now r).2.1.node n' :=
    .aside hk (Connection.call_bounded hk.bounded c now r) (Connection.call_later key c s now r).counter
      (Connection.get?_call_spares hspares c s now)
  refine ⟨hkeeps, ?_⟩
  suffices hlinked : Linked key s.node n' (c.call s now r).1 c' from hlinked.keeps hkeeps
  cases hcut : c.isCut s with
  | true =>
    rw [Connection.call_cut hcut]
    exact h
  | false =>
    cases r with
    | watch k =>
      simp only [Connection.call, hcut, Bool.false_eq_true, if_false]
      exact h.watch_aside (fun he => hnot (he ▸ List.mem_singleton_self k)) _
    | unwatch =>
      simp only [Connection.call, hcut, Bool.false_eq_true, if_false]
      exact h.forget_aside hnot
    | exec writes =>
      have haside := h.forget_aside fun hmem => hnot (List.mem_append_right _ hmem)
      simp only [Connection.call, hcut, Bool.false_eq_true, if_false, Connection.exec]
      split <;> exact haside
    | get k =>
      simp only [Connection.call, hcut, Bool.false_eq_true, if_false]
      split <;> exact h
    | setIfAbsent | expire =>
      simp only [Connection.call, hcut, Bool.false_eq_true, if_false]
      exact h
    | ping => exact absurd rfl hne

end Linked

end Memory
end Holdfast
