import Holdfast.Proofs.Watching.Touch

namespace Holdfast.Memory

open Store

/-- An entry without the number of the write that touched it last. -/
def Entry.content (e : Entry) : Bytes × Option Nat := (e.value, e.expiresAt)

/-- Two stores that hold the same under a key, but for the numbers of the writes. -/
structure Kin (key : Bytes) (n n' : Node) : Prop where
  bounded : n.Bounded
  bounded' : n'.Bounded
  content : (n.entries.get? key).map Entry.content = (n'.entries.get? key).map Entry.content

/-- Two version numbers that both stores have given out, and that the key has in both or in
neither. -/
structure Tied (key : Bytes) (n n' : Node) (v v' : Nat) : Prop where
  le : v ≤ n.version
  le' : v' ≤ n'.version
  same : (n.entries.get? key).map Entry.version = some v ↔
    (n'.entries.get? key).map Entry.version = some v'

/-- What has become of two such stores: they hold the same under the key again, and their version
numbers of before are still tied. -/
structure Keeps (key : Bytes) (n n' m m' : Node) : Prop where
  kin : Kin key m m'
  tied : ∀ {v v'}, Tied key n n' v v' → Tied key m m' v v'

namespace Kin

variable {key : Bytes} {n n' : Node}

theorem refl (h : n.Bounded) (key : Bytes) : Kin key n n := ⟨h, h, rfl⟩

theorem cases (h : Kin key n n') :
    (n.entries.get? key = none ∧ n'.entries.get? key = none) ∨
    ∃ e e', n.entries.get? key = some e ∧ n'.entries.get? key = some e' ∧
      e.value = e'.value ∧ e.expiresAt = e'.expiresAt := by
  have hc := h.content
  cases he : n.entries.get? key with
  | none =>
    rw [he] at hc
    exact .inl ⟨rfl, Option.map_eq_none_iff.mp hc.symm⟩
  | some e =>
    rw [he] at hc
    obtain ⟨e', he', heq⟩ := Option.map_eq_some_iff.mp hc.symm
    obtain ⟨hv, hx⟩ := Prod.mk.inj heq
    exact .inr ⟨e, e', rfl, he', hv.symm, hx.symm⟩

theorem live_cases (h : Kin key n n') (now : Nat) :
    (n.live? now key = none ∧ n'.live? now key = none) ∨
    ∃ e e', n.live? now key = some e ∧ n'.live? now key = some e' ∧
      e.value = e'.value ∧ e.expiresAt = e'.expiresAt := by
  rcases h.cases with ⟨he, he'⟩ | ⟨e, e', he, he', hv, hx⟩
  · exact .inl ⟨by simp [Node.live?, he], by simp [Node.live?, he']⟩
  · have hlive : e.isLive now = e'.isLive now := by simp only [Entry.isLive, hx]
    cases hl : e'.isLive now with
    | true =>
      exact .inr ⟨e, e', Node.live?_eq_some.mpr ⟨he, hlive.trans hl⟩,
        Node.live?_eq_some.mpr ⟨he', hl⟩, hv, hx⟩
    | false =>
      refine .inl ⟨?_, ?_⟩
      · simp [Node.live?, he, hlive, hl]
      · simp [Node.live?, he', hl]

theorem value?_eq (h : Kin key n n') (now : Nat) : n.value? now key = n'.value? now key := by
  rcases h.live_cases now with ⟨hl, hl'⟩ | ⟨e, e', hl, hl', hv, -⟩
  · simp [Node.value?, hl, hl']
  · simp [Node.value?, hl, hl', hv]

theorem timeToLive?_eq (h : Kin key n n') (now : Nat) :
    n.timeToLive? now key = n'.timeToLive? now key := by
  rcases h.live_cases now with ⟨hl, hl'⟩ | ⟨e, e', hl, hl', -, hx⟩
  · simp [Node.timeToLive?, hl, hl']
  · simp [Node.timeToLive?, hl, hl', hx]

theorem isSome_live? (h : Kin key n n') (now : Nat) :
    (n.live? now key).isSome = (n'.live? now key).isSome := by
  rcases h.live_cases now with ⟨hl, hl'⟩ | ⟨e, e', hl, hl', -, -⟩ <;> simp [hl, hl']

/-- Where versions are tied, a watch finds the key as it was in both stores or in neither. -/
theorem version?_iff (h : Kin key n n') {v v' : Nat} (ht : Tied key n n' v v') (now : Nat) :
    n.version? now key = some v ↔ n'.version? now key = some v' := by
  have hsame := ht.same
  rcases h.live_cases now with ⟨hl, hl'⟩ | ⟨e, e', hl, hl', -, -⟩
  · simp [Node.version?, hl, hl']
  · rw [(Node.live?_eq_some.mp hl).1, (Node.live?_eq_some.mp hl').1] at hsame
    simpa [Node.version?, hl, hl'] using hsame

theorem version?_eq_none_iff (h : Kin key n n') (now : Nat) :
    n.version? now key = none ↔ n'.version? now key = none := by
  have hlive := h.isSome_live? now
  cases hl : n.live? now key <;> cases hl' : n'.live? now key <;> simp_all [Node.version?]

/-- The versions that a watch of the key finds in the two stores. -/
theorem tied_version (h : Kin key n n') {now v v' : Nat} (hv : n.version? now key = some v)
    (hv' : n'.version? now key = some v') : Tied key n n' v v' := by
  have hstamp : ∀ {n : Node} {v}, n.version? now key = some v →
      (n.entries.get? key).map Entry.version = some v := by
    intro n v hv
    obtain ⟨e, he, rfl⟩ := Option.map_eq_some_iff.mp hv
    rw [(Node.live?_eq_some.mp he).1]
    rfl
  exact ⟨h.bounded.version hv, h.bounded'.version hv', by simp [hstamp hv, hstamp hv']⟩

end Kin

namespace Keeps

variable {key : Bytes} {n n' m m' k k' : Node}

theorem refl (h : Kin key n n') : Keeps key n n' n n' := ⟨h, id⟩

theorem trans (h : Keeps key n n' m m') (h' : Keeps key m m' k k') : Keeps key n n' k k' :=
  ⟨h'.kin, fun ht => h'.tied (h.tied ht)⟩

/-- What one store does to other keys is nothing to the other store. -/
theorem aside (h : Kin key n n') (hb : m.Bounded) (hle : n.version ≤ m.version)
    (hs : m.entries.get? key = n.entries.get? key) : Keeps key n n' m n' := by
  refine ⟨⟨hb, h.bounded', by rw [hs, h.content]⟩, ?_⟩
  intro v v' ht
  exact ⟨Nat.le_trans ht.le hle, ht.le', by rw [hs, ht.same]⟩

/-- Both stores put an entry of their next version under the key. -/
theorem set (h : Kin key n n') {e e' : Entry} (he : e.version = n.version + 1)
    (he' : e'.version = n'.version + 1) (hc : e.content = e'.content) :
    Keeps key n n' ⟨n.entries.set key e, n.version + 1⟩ ⟨n'.entries.set key e', n'.version + 1⟩ := by
  refine ⟨⟨Node.spans_bounded.set n key e he h.bounded,
    Node.spans_bounded.set n' key e' he' h.bounded', by simp [hc]⟩, ?_⟩
  intro v v' ht
  have hle := ht.le
  have hle' := ht.le'
  refine ⟨Nat.le_succ_of_le hle, Nat.le_succ_of_le hle', ?_⟩
  simp only [Table.get?_set_self, Option.map_some, Option.some.injEq]
  omega

theorem put (h : Kin key n n') (value : Bytes) :
    Keeps key n n' (n.put key value) (n'.put key value) := set h rfl rfl rfl

theorem delete (h : Kin key n n') : Keeps key n n' (n.delete key) (n'.delete key) :=
  ⟨⟨Node.spans_bounded.delete n key h.bounded, Node.spans_bounded.delete n' key h.bounded',
      by simp [Node.delete]⟩,
    fun ht => ⟨ht.le, ht.le', by simp [Node.delete]⟩⟩

theorem expire (h : Kin key n n') (now seconds : Nat) :
    Keeps key n n' (n.expire now key seconds).1 (n'.expire now key seconds).1 ∧
      (n.expire now key seconds).2 = (n'.expire now key seconds).2 := by
  rcases h.live_cases now with ⟨hl, hl'⟩ | ⟨e, e', hl, hl', hv, -⟩
  · rw [Node.expire_absent hl, Node.expire_absent hl']
    refine ⟨⟨⟨?_, ?_, h.content⟩, fun ht => ⟨?_, ?_, ht.same⟩⟩, rfl⟩
    · exact Node.spans_bounded.count n h.bounded
    · exact Node.spans_bounded.count n' h.bounded'
    · exact Nat.le_succ_of_le ht.le
    · exact Nat.le_succ_of_le ht.le'
  · rw [Node.expire_live hl, Node.expire_live hl']
    exact ⟨set h rfl rfl (by simp [Entry.content, hv]), rfl⟩

theorem setIfAbsent (h : Kin key n n') (now : Nat) (value : Bytes) :
    Keeps key n n' (n.setIfAbsent now key value).1 (n'.setIfAbsent now key value).1 ∧
      (n.setIfAbsent now key value).2 = (n'.setIfAbsent now key value).2 := by
  unfold Node.setIfAbsent
  rw [h.isSome_live? now]
  split
  · exact ⟨refl h, rfl⟩
  · exact ⟨put h value, rfl⟩

theorem apply (h : Kin key n n') (now : Nat) {w : Write} (hw : w.key = key) :
    Keeps key n n' (n.apply now w).1 (n'.apply now w).1 ∧
      (n.apply now w).2 = (n'.apply now w).2 := by
  cases w with
  | put k value =>
    obtain rfl : k = key := hw
    exact ⟨put h value, by simp [Node.apply, h.value?_eq now]⟩
  | delete k =>
    obtain rfl : k = key := hw
    exact ⟨delete h, by simp [Node.apply, h.isSome_live? now]⟩
  | expire k seconds =>
    obtain rfl : k = key := hw
    obtain ⟨hkeeps, happlied⟩ := expire h now seconds
    exact ⟨hkeeps, by simp [Node.apply, happlied]⟩

theorem applyAll (h : Kin key n n') (now : Nat) {ws : List Write} (hws : ∀ w ∈ ws, w.key = key) :
    Keeps key n n' (n.applyAll now ws).1 (n'.applyAll now ws).1 ∧
      (n.applyAll now ws).2 = (n'.applyAll now ws).2 := by
  induction ws generalizing n n' with
  | nil => exact ⟨refl h, rfl⟩
  | cons w ws ih =>
    obtain ⟨hfirst, heffect⟩ := apply h now (hws w List.mem_cons_self)
    obtain ⟨hrest, heffects⟩ := ih hfirst.kin fun v hv => hws v (List.mem_cons_of_mem _ hv)
    exact ⟨hfirst.trans hrest, congrArg₂ List.cons heffect heffects⟩

end Keeps

end Holdfast.Memory
