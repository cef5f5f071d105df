import Holdfast.Proofs.Bytes
import Holdfast.Proofs.Ring

namespace Holdfast.Ring

/-- No two shards have points at one position, as where all labels have hashes of their own. -/
def Apart (count : Nat) : Prop :=
  ∀ shard < count, ∀ node < pointsPerShard, ∀ shard' < count, ∀ node' < pointsPerShard,
    position (label shard node) = position (label shard' node') → shard = shard'

theorem Apart.mono {count fewer : Nat} (h : Apart count) (hle : fewer ≤ count) : Apart fewer := by
  intro shard hshard node hnode shard' hshard' node' hnode' heq
  exact h shard (Nat.lt_of_lt_of_le hshard hle) node hnode shard'
    (Nat.lt_of_lt_of_le hshard' hle) node' hnode' heq

namespace IsNext

variable {count fewer shard node shard' node' : Nat} {target p : Int64}

theorem self (count : Nat) (p : Int64) : IsNext count p p :=
  .inl ⟨Int64.le_refl p, fun _ _ _ _ h => h⟩

theorem mono (h : IsNext count target p) (hle : fewer ≤ count) : IsNext fewer target p := by
  rcases h with ⟨hat, hleast⟩ | ⟨hbefore, hleast⟩
  · exact .inl ⟨hat, fun shard hshard => hleast shard (Nat.lt_of_lt_of_le hshard hle)⟩
  · exact .inr ⟨fun shard hshard => hbefore shard (Nat.lt_of_lt_of_le hshard hle),
      fun shard hshard => hleast shard (Nat.lt_of_lt_of_le hshard hle)⟩

theorem le (h : IsNext count target (position (label shard node)))
    (h' : IsNext count target (position (label shard' node'))) (hshard : shard < count)
    (hnode : node < pointsPerShard) (hshard' : shard' < count) (hnode' : node' < pointsPerShard) :
    position (label shard node) ≤ position (label shard' node') := by
  rcases h with ⟨hat, hleast⟩ | ⟨-, hleast⟩
  · rcases h' with ⟨hat', -⟩ | ⟨hbefore, -⟩
    · exact hleast shard' hshard' node' hnode' hat'
    · exact absurd (hbefore shard hshard node hnode) (Int64.not_lt.mpr hat)
  · exact hleast shard' hshard' node' hnode'

end IsNext

namespace Arranges

variable {r : Ring} {count shard node : Nat} {key : Bytes}

theorem next_of_locate (hr : r.Arranges count) (hcount : 0 < count) (key : Bytes) :
    r.locate key < count ∧ ∃ node < pointsPerShard,
      IsNext count (position key) (position (label (r.locate key) node)) := by
  obtain ⟨p, hp, hshard, hnext⟩ := hr.exists_owner hcount key
  obtain ⟨hlt, node, hnode, hposition⟩ := hr.mem_iff.mp hp
  rw [← hposition] at hnext
  rw [← hshard]
  exact ⟨hlt, node, hnode, hnext⟩

/-- Where the shards are apart, whichever of them has the next point is the shard of the key. -/
theorem locate_of_next (hr : r.Arranges count) (hapart : Apart count) (hshard : shard < count)
    (hnode : node < pointsPerShard)
    (hnext : IsNext count (position key) (position (label shard node))) : r.locate key = shard := by
  obtain ⟨hlt, node', hnode', hnext'⟩ := hr.next_of_locate (Nat.zero_lt_of_lt hshard) key
  have hle := hnext'.le hnext hlt hnode' hshard hnode
  have hge := hnext.le hnext' hshard hnode hlt hnode'
  exact hapart _ hlt node' hnode' shard hshard node hnode (Int64.le_antisymm hle hge)

/-- A key whose shard is among the first few belongs to it as well where the others are missing. -/
theorem locate_of_fewer {s : Ring} {fewer : Nat} (hr : r.Arranges count) (hs : s.Arranges fewer)
    (hapart : Apart count) (hle : fewer ≤ count) (hcount : 0 < count)
    (hshard : r.locate key < fewer) : s.locate key = r.locate key := by
  obtain ⟨-, node, hnode, hnext⟩ := hr.next_of_locate hcount key
  exact hs.locate_of_next (hapart.mono hle) hshard hnode (hnext.mono hle)

end Arranges

/-- With a shard more, the keys that go to it are those whose next point is one of its own. Every
other key has the same shard with it and without it. -/
theorem locate_grown {count : Nat} (hapart : Apart (count + 1)) (key : Bytes) :
    ((ofShards (count + 1)).locate key = count ↔
      ∃ node < pointsPerShard, IsNext (count + 1) (position key) (position (label count node))) ∧
    ((ofShards (count + 1)).locate key ≠ count →
      (ofShards (count + 1)).locate key = (ofShards count).locate key) := by
  have hgrown := arranges_ofShards (count + 1)
  obtain ⟨hlt, node, hnode, hnext⟩ := hgrown.next_of_locate (Nat.succ_pos count) key
  refine ⟨⟨fun hnew => ⟨node, hnode, ?_⟩, ?_⟩, fun hold => ?_⟩
  · rwa [hnew] at hnext
  · rintro ⟨node', hnode', hnext'⟩
    exact hgrown.locate_of_next hapart (Nat.lt_succ_self count) hnode' hnext'
  · have hfirst : (ofShards (count + 1)).locate key < count := by omega
    exact (hgrown.locate_of_fewer (arranges_ofShards count) hapart (Nat.le_succ count)
      (Nat.succ_pos count) hfirst).symm

theorem label_eq (shard node : Nat) : label shard node =
    Bytes.ofText "SHARD-" ++ Bytes.ofText (toString shard) ++ Bytes.ofText "-NODE-" ++
      Bytes.ofText (toString node) := by
  simp only [label, Bytes.ofText_append]
  rfl

theorem apart_two : Apart 2 := by
  have hhashes : ((List.range pointsPerShard).all fun node =>
      (List.range pointsPerShard).all fun node' =>
        (murmur seed (label 0 node)).toNat != (murmur seed (label 1 node')).toNat) = true := by
    simp only [label_eq]
    decide +kernel
  have hne : ∀ node < pointsPerShard, ∀ node' < pointsPerShard,
      position (label 0 node) ≠ position (label 1 node') := by
    intro node hnode node' hnode' heq
    have hhash : murmur seed (label 0 node) = murmur seed (label 1 node') :=
      congrArg Int64.toUInt64 heq
    have hrow := List.all_eq_true.mp hhashes node (List.mem_range.mpr hnode)
    have hdiffer := List.all_eq_true.mp hrow node' (List.mem_range.mpr hnode')
    rw [hhash, bne_self_eq_false] at hdiffer
    cases hdiffer
  intro shard hshard node hnode shard' hshard' node' hnode' heq
  have hcases : shard = shard' ∨ shard = 0 ∧ shard' = 1 ∨ shard = 1 ∧ shard' = 0 := by omega
  rcases hcases with hsame | ⟨rfl, rfl⟩ | ⟨rfl, rfl⟩
  · exact hsame
  · exact absurd heq (hne node hnode node' hnode')
  · exact absurd heq.symm (hne node' hnode' node hnode)

/-- Of two keys that are labels, the second shard takes over its own, and the other one stays. -/
theorem locate_grown_labels : Apart 2 ∧ (ofShards 2).locate (label 1 0) = 1 ∧
    (ofShards 2).locate (label 0 0) = (ofShards 1).locate (label 0 0) := by
  refine ⟨apart_two, ?_, ?_⟩
  · exact (locate_grown apart_two (label 1 0)).1.mpr ⟨0, by decide, .self 2 _⟩
  · refine (locate_grown apart_two (label 0 0)).2 ?_
    rw [(arranges_ofShards 2).locate_of_next apart_two (by decide) (by decide) (.self 2 _)]
    decide

end Holdfast.Ring
