import Holdfast.Proofs.Watching.Scene

namespace Holdfast.Memory

open Store

/-- The happenings tell all that has become of the keys between two moments of a store. -/
structure Tells (n : Node) (now : Nat) (n' : Node) (now' : Nat) (new : List Happening) : Prop where
  counter : n.version ≤ n'.version
  stays : ∀ {key x}, x ≤ n.version → (n'.version? now' key = some x ↔
    n.version? now key = some x ∧ .touched key ∉ new ∧ .lapsed key ∉ new)
  comes : ∀ {key}, (n'.live? now' key).isSome = true →
    (n.live? now key).isSome = true ∨ .touched key ∈ new

namespace Tells

variable {n : Node} {now : Nat}

theorem idle {new : List Happening} (ht : ∀ key, .touched key ∉ new)
    (hl : ∀ key, .lapsed key ∉ new) : Tells n now n now new :=
  ⟨Nat.le_refl _, fun {key x} _ => by simp [ht key, hl key], fun h => .inl h⟩

/-- What is stored afterwards is what the writes have made of it. -/
theorem writes {n' : Node} {ws : List Write} (hle : n.version ≤ n'.version)
    (hentries : n'.entries = (n.applyAll now ws).1.entries) {new : List Happening}
    (ht : ∀ key, .touched key ∈ new ↔ key ∈ n.touches now ws) (hl : ∀ key, .lapsed key ∉ new) :
    Tells n now n' now new := by
  have hlive : ∀ key, n'.live? now key = (n.applyAll now ws).1.live? now key := by
    intro key
    exact Node.live?_congr (by rw [hentries]) now
  refine ⟨hle, ?_, ?_⟩
  · intro key x hx
    have hversion : n'.version? now key = (n.applyAll now ws).1.version? now key := by
      simp [Node.version?, hlive]
    rw [hversion, Node.version?_applyAll hx, ht]
    simp [hl key]
  · intro key h
    rw [hlive] at h
    rw [ht]
    exact Node.live_applyAll h

theorem age (n : Node) (now ms : Nat) :
    Tells n now n (now + ms) ((n.lapses now (now + ms)).map .lapsed) := by
  have hwait : ∀ {key e}, n.live? (now + ms) key = some e → n.live? now key = some e := by
    intro key e he
    obtain ⟨hg, hl⟩ := Node.live?_eq_some.mp he
    exact Node.live?_eq_some.mpr ⟨hg, Entry.isLive_of_le (Nat.le_add_right ..) hl⟩
  refine ⟨Nat.le_refl _, ?_, ?_⟩
  · intro key x _
    simp only [List.mem_map, reduceCtorEq, and_false, exists_false, not_false_eq_true, true_and,
      Happening.lapsed.injEq, exists_eq_right, Node.mem_lapses]
    constructor
    · intro hv
      obtain ⟨e, he, rfl⟩ := Option.map_eq_some_iff.mp hv
      refine ⟨by simp [Node.version?, hwait he], ?_⟩
      rintro ⟨-, hnone⟩
      rw [he] at hnone
      cases hnone
    · rintro ⟨hv, hstays⟩
      obtain ⟨e, he, rfl⟩ := Option.map_eq_some_iff.mp hv
      cases hl : n.live? (now + ms) key with
      | none => exact absurd ⟨by simp [he], hl⟩ hstays
      | some d =>
        have hsame := hwait hl
        rw [he] at hsame
        cases hsame
        simp [Node.version?, hl]
  · intro key h
    obtain ⟨e, he⟩ := Option.isSome_iff_exists.mp h
    exact .inl (by simp [hwait he])

/-- The history tells what a call has done. -/
theorem call (c : Connection) (s : Server) (now id : Nat) (r : Call) :
    Tells s.node now (c.call s now r).2.1.node now
      (noted s now id r (c.call s now r).2.2 ++
        (s.node.touches now (written r (c.call s now r).2.2)).map .touched) := by
  have hnoted : ∀ e ∈ noted s now id r (c.call s now r).2.2, e.concerns id = true := by
    intro e he
    rw [concerns_of_noted he, decide_eq_true rfl]
  refine .writes (Connection.call_later [] c s now r).counter (Connection.call_written c s now r)
    ?_ ?_
  · intro key
    have hnot : .touched key ∉ noted s now id r (c.call s now r).2.2 :=
      fun h => absurd (hnoted _ h) (by simp [Happening.concerns])
    simp [hnot]
  · intro key h
    rcases List.mem_append.mp h with h | h
    · exact absurd (hnoted _ h) (by simp [Happening.concerns])
    · simp at h

end Tells

/-- A watch that found the version `v` under a key, and what has happened to the key since. -/
structure Faithful (n : Node) (now : Nat) (key : Bytes) (v : Option Nat) (present : Bool)
    (later : List Happening) : Prop where
  present : v.isSome = present
  seen : ∀ {x}, v = some x → x ≤ n.version ∧
    (n.version? now key = some x ↔ .touched key ∉ later ∧ .lapsed key ∉ later)
  absent : v = none → (n.live? now key).isSome = true → .touched key ∈ later

namespace Faithful

variable {n n' : Node} {now now' : Nat} {key : Bytes} {v : Option Nat} {present : Bool}
  {new later : List Happening}

theorem begin (hb : n.Bounded) (now : Nat) (key : Bytes) :
    Faithful n now key (n.version? now key) (n.live? now key).isSome [] := by
  refine ⟨by simp [Node.version?], ?_, ?_⟩
  · intro x hx
    exact ⟨hb.version hx, by simp [hx]⟩
  · intro hv hl
    obtain ⟨e, he⟩ := Option.isSome_iff_exists.mp hl
    simp [Node.version?, he] at hv

theorem grow (h : Faithful n now key v present later) (t : Tells n now n' now' new) :
    Faithful n' now' key v present (new ++ later) := by
  refine ⟨h.present, ?_, ?_⟩
  · intro x hx
    obtain ⟨hle, hiff⟩ := h.seen hx
    refine ⟨Nat.le_trans hle t.counter, ?_⟩
    rw [t.stays hle, hiff]
    simp only [List.mem_append, not_or]
    constructor
    · rintro ⟨⟨ht, hl⟩, ht', hl'⟩
      exact ⟨⟨ht', ht⟩, hl', hl⟩
    · rintro ⟨⟨ht', ht⟩, hl', hl⟩
      exact ⟨⟨ht, hl⟩, ht', hl'⟩
  · intro hv hl
    rcases t.comes hl with hl | ht
    · exact List.mem_append_right _ (h.absent hv hl)
    · exact List.mem_append_left _ ht

/-- The version is as it was unless the key was touched or lapsed; a key that was absent has to be
there again as well. -/
theorem same_iff (h : Faithful n now key v present later) : n.version? now key = v ↔
    ¬ ((.touched key ∈ later ∨ .lapsed key ∈ later) ∧
      (present = true ∨ (n.live? now key).isSome = true)) := by
  have hpresent := h.present
  cases v with
  | some x =>
    obtain ⟨-, hiff⟩ := h.seen rfl
    rw [hiff, ← not_or]
    simp [← hpresent]
  | none =>
    have habsent := h.absent rfl
    simp only [← hpresent, Option.isSome_none, Bool.false_eq_true, false_or]
    constructor
    · intro hv
      rintro ⟨-, hl⟩
      obtain ⟨e, he⟩ := Option.isSome_iff_exists.mp hl
      simp [Node.version?, he] at hv
    · intro hnot
      cases hl : n.live? now key with
      | none => simp [Node.version?, hl]
      | some e =>
        have hlive : (n.live? now key).isSome = true := by simp [hl]
        exact absurd ⟨.inl (habsent hlive), hlive⟩ hnot

end Faithful

/-- The watches of a connection are those that the history tells of. -/
structure Agrees (n : Node) (now : Nat) (history : List Happening) (id : Nat) (c : Connection) :
    Prop where
  nodup : (c.watched.map Prod.fst).Nodup
  unwatched : ∀ {key}, c.watched.get? key = none → since? id key history = none
  watched : ∀ {key v}, c.watched.get? key = some v → ∃ present later,
    since? id key history = some (present, later) ∧ Faithful n now key v present later

namespace Agrees

variable {n n' : Node} {now now' id : Nat} {es new : List Happening} {c c' : Connection}

theorem idle (hc : c.watched = []) (hs : ∀ key, since? id key es = none) :
    Agrees n now es id c := by
  refine ⟨by simp [hc], fun _ => hs _, ?_⟩
  intro key v hget
  rw [hc] at hget
  cases hget

theorem grow (h : Agrees n now es id c) (t : Tells n now n' now' new)
    (hq : ∀ e ∈ new, e.concerns id = false) (hc : c'.watched = c.watched) :
    Agrees n' now' (new ++ es) id c' := by
  refine ⟨hc ▸ h.nodup, ?_, ?_⟩
  · intro key hget
    rw [hc] at hget
    rw [since?_quiet hq, h.unwatched hget]
    rfl
  · intro key v hget
    rw [hc] at hget
    obtain ⟨present, later, hs, hf⟩ := h.watched hget
    exact ⟨present, new ++ later, by rw [since?_quiet hq, hs]; rfl, hf.grow t⟩

/-- A watch begins with what is there, unless there is one already. -/
theorem watch (h : Agrees n now es id c) (hb : n.Bounded) (key : Bytes) :
    Agrees n now (.watched id key (n.live? now key).isSome :: es) id
      (c.watch key (n.version? now key)) := by
  have htells : Tells n now n now [.watched id key (n.live? now key).isSome] :=
    .idle (by simp) (by simp)
  have hold : ∀ {k v}, c.watched.get? k = some v → ∃ present later,
      since? id k (.watched id key (n.live? now key).isSome :: es) = some (present, later) ∧
        Faithful n now k v present later := by
    intro k v hget
    obtain ⟨present, later, hs, hf⟩ := h.watched hget
    exact ⟨present, _ :: later, by simp [since?, hs], hf.grow htells⟩
  have hother : ∀ {k}, k ≠ key → c.watched.get? k = none →
      since? id k (.watched id key (n.live? now key).isSome :: es) = none := by
    intro k hk hget
    simp [since?, h.unwatched hget, Ne.symm hk]
  unfold Connection.watch
  cases hget : c.watched.get? key with
  | some v =>
    simp only [Option.isSome_some, if_true]
    refine ⟨h.nodup, ?_, hold⟩
    intro k hnone
    refine hother ?_ hnone
    rintro rfl
    rw [hget] at hnone
    cases hnone
  | none =>
    simp only [Option.isSome_none, Bool.false_eq_true, if_false]
    refine ⟨Table.nodup_set_of_absent h.nodup hget _, ?_, ?_⟩
    · intro k hnone
      have hk : k ≠ key := by
        rintro rfl
        simp at hnone
      rw [Table.get?_set_ne _ _ hk] at hnone
      exact hother hk hnone
    · intro k v hv
      by_cases hk : k = key
      · subst hk
        rw [Table.get?_set_self] at hv
        cases hv
        exact ⟨_, [], by simp [since?, h.unwatched hget], .begin hb now k⟩
      · rw [Table.get?_set_ne _ _ hk] at hv
        exact hold hv

theorem isUntouched_iff (h : Agrees n now es id c) : c.isUntouched n now = true ↔
    ¬ ∃ key present later, since? id key es = some (present, later) ∧
      (.touched key ∈ later ∨ .lapsed key ∈ later) ∧
      (present = true ∨ (n.live? now key).isSome = true) := by
  simp only [Connection.isUntouched, List.all_eq_true, decide_eq_true_eq, Prod.forall]
  constructor
  · rintro hall ⟨key, present, later, hs, hbroken⟩
    cases hget : c.watched.get? key with
    | none =>
      rw [h.unwatched hget] at hs
      cases hs
    | some v =>
      obtain ⟨present', later', hs', hf⟩ := h.watched hget
      rw [hs] at hs'
      cases hs'
      exact hf.same_iff.mp (hall key v (Table.mem_of_get? hget)) hbroken
  · intro hnot key v hmem
    obtain ⟨present, later, hs, hf⟩ := h.watched (Table.get?_of_mem h.nodup hmem)
    exact hf.same_iff.mpr fun hbroken => hnot ⟨key, present, later, hs, hbroken⟩

end Agrees

end Holdfast.Memory
