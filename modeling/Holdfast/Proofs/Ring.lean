import Holdfast.Ring
import Mathlib.Data.List.Basic

namespace Holdfast.Ring

/-- Where nothing holds after what does not hold, all holds before the end that is found, and
nothing from there on. -/
theorem bisect_spec {holds : Nat → Bool}
    (hdown : ∀ {i j}, i ≤ j → holds j = true → holds i = true) {low high : Nat} (hle : low ≤ high) :
    bisect holds low high ≤ high ∧
      (∀ i, low ≤ i → i < bisect holds low high → holds i = true) ∧
      ∀ i, bisect holds low high ≤ i → i < high → holds i = false := by
  fun_induction bisect holds low high with
  | case1 low high hlt middle hmiddle ih =>
    obtain ⟨hhigh, hbefore, hafter⟩ := ih (by omega)
    refine ⟨hhigh, ?_, hafter⟩
    intro i _ hi
    rcases Nat.lt_or_ge middle i with hright | hleft
    · exact hbefore i hright hi
    · exact hdown hleft hmiddle
  | case2 low high hlt middle hmiddle ih =>
    obtain ⟨hhigh, hbefore, hafter⟩ := ih (by omega)
    refine ⟨by omega, hbefore, ?_⟩
    intro i hi _
    rcases Nat.lt_or_ge i middle with hleft | hright
    · exact hafter i hi hleft
    · exact Bool.eq_false_iff.mpr fun h => hmiddle (hdown hright h)
  | case3 low high hlt =>
    exact ⟨hle, fun i hlow hi => absurd hi (by omega), fun i hi hhigh => absurd hhigh (by omega)⟩

/-- A ring of `count` shards: it has their points, in the order of the positions. -/
structure Arranges (r : Ring) (count : Nat) : Prop where
  perm : r.points.toList.Perm ((List.range count).flatMap pointsOf)
  sorted : r.points.toList.Pairwise fun p q => p.position ≤ q.position

theorem arranges_ofShards (count : Nat) : (ofShards count).Arranges count where
  perm := List.mergeSort_perm _ _
  sorted := by
    have htrans : ∀ a b c : Point, decide (a.position ≤ b.position) = true →
        decide (b.position ≤ c.position) = true → decide (a.position ≤ c.position) = true := by
      simp only [decide_eq_true_eq]
      exact fun _ _ _ => Int64.le_trans
    have htotal : ∀ a b : Point,
        (decide (a.position ≤ b.position) || decide (b.position ≤ a.position)) = true := by
      simp only [Bool.or_eq_true, decide_eq_true_eq]
      exact fun a b => Int64.le_total a.position b.position
    simpa [ofShards] using
      List.pairwise_mergeSort htrans htotal ((List.range count).flatMap pointsOf)

/-- `p` is the next position to `target` among those of the points of `count` shards: the least one
at or after it, or the least of all if there is none. -/
def IsNext (count : Nat) (target p : Int64) : Prop :=
  (target ≤ p ∧ ∀ shard < count, ∀ node < pointsPerShard,
    target ≤ position (label shard node) → p ≤ position (label shard node)) ∨
  ((∀ shard < count, ∀ node < pointsPerShard, position (label shard node) < target) ∧
    ∀ shard < count, ∀ node < pointsPerShard, p ≤ position (label shard node))

namespace Arranges

variable {r : Ring} {count : Nat}

theorem size (hr : r.Arranges count) : r.points.size = pointsPerShard * count := by
  have hlength := hr.perm.length_eq
  simpa [pointsOf, List.length_flatMap, Nat.mul_comm] using hlength

theorem mem_iff (hr : r.Arranges count) {p : Point} : p ∈ r.points ↔
    p.shard < count ∧ ∃ node < pointsPerShard, position (label p.shard node) = p.position := by
  rw [← Array.mem_toList_iff, hr.perm.mem_iff]
  simp only [List.mem_flatMap, List.mem_range, pointsOf, List.mem_map]
  constructor
  · rintro ⟨shard, hshard, node, hnode, rfl⟩
    exact ⟨hshard, node, hnode, rfl⟩
  · rintro ⟨hshard, node, hnode, hposition⟩
    exact ⟨p.shard, hshard, node, hnode, by rw [hposition]⟩

theorem le_of_le (hr : r.Arranges count) {i j : Nat} (hij : i ≤ j) (hj : j < r.points.size) :
    r.points[i].position ≤ r.points[j].position := by
  rcases Nat.lt_or_eq_of_le hij with hlt | rfl
  · exact List.pairwise_iff_getElem.mp hr.sorted i j (by simp; omega) (by simpa using hj) hlt
  · exact Int64.le_refl _

theorem lt_countBefore_iff (hr : r.Arranges count) {i : Nat} (hi : i < r.points.size)
    (target : Int64) : i < r.countBefore target ↔ r.points[i].position < target := by
  have hdown : ∀ {i j : Nat}, i ≤ j → (r.points[j]?.any fun p => p.position < target) = true →
      (r.points[i]?.any fun p => p.position < target) = true := by
    intro i j hij h
    have hj : j < r.points.size := by
      by_contra hnot
      simp [hnot] at h
    have hi : i < r.points.size := by omega
    rw [Array.getElem?_eq_getElem hj] at h
    rw [Array.getElem?_eq_getElem hi]
    exact decide_eq_true (Int64.lt_of_le_of_lt (hr.le_of_le hij hj) (of_decide_eq_true h))
  obtain ⟨-, hbefore, hafter⟩ := bisect_spec hdown (Nat.zero_le r.points.size)
  unfold countBefore
  constructor
  · intro h
    have := hbefore i (Nat.zero_le i) h
    simpa [hi] using this
  · intro h
    by_contra hnot
    have := hafter i (Nat.le_of_not_lt hnot) hi
    simp [hi, h] at this

theorem exists_index (hr : r.Arranges count) {shard node : Nat} (hshard : shard < count)
    (hnode : node < pointsPerShard) : ∃ i, ∃ h : i < r.points.size,
      r.points[i].position = position (label shard node) := by
  have hmem : ⟨position (label shard node), shard⟩ ∈ r.points :=
    hr.mem_iff.mpr ⟨hshard, node, hnode, rfl⟩
  obtain ⟨i, hi, heq⟩ := Array.mem_iff_getElem.mp hmem
  exact ⟨i, hi, by rw [heq]⟩

theorem isNext_countBefore (hr : r.Arranges count) {target : Int64}
    (hlt : r.countBefore target < r.points.size) :
    IsNext count target r.points[r.countBefore target].position := by
  refine .inl ⟨?_, ?_⟩
  · rw [← Int64.not_lt, ← hr.lt_countBefore_iff hlt]
    exact Nat.lt_irrefl _
  · intro shard hshard node hnode hle
    obtain ⟨i, hi, heq⟩ := hr.exists_index hshard hnode
    rw [← heq] at hle ⊢
    rw [← Int64.not_lt, ← hr.lt_countBefore_iff hi] at hle
    exact hr.le_of_le (Nat.le_of_not_lt hle) hi

theorem isNext_first (hr : r.Arranges count) {target : Int64} (hfirst : 0 < r.points.size)
    (hge : r.points.size ≤ r.countBefore target) : IsNext count target r.points[0].position := by
  refine .inr ⟨?_, ?_⟩
  · intro shard hshard node hnode
    obtain ⟨i, hi, heq⟩ := hr.exists_index hshard hnode
    rw [← heq, ← hr.lt_countBefore_iff hi]
    exact Nat.lt_of_lt_of_le hi hge
  · intro shard hshard node hnode
    obtain ⟨i, hi, heq⟩ := hr.exists_index hshard hnode
    rw [← heq]
    exact hr.le_of_le (Nat.zero_le i) hi

/-- The shard of a key is the owner of some point that is next to it. -/
theorem exists_owner (hr : r.Arranges count) (hcount : 0 < count) (key : Bytes) :
    ∃ p ∈ r.points, p.shard = r.locate key ∧ IsNext count (position key) p.position := by
  rcases Nat.lt_or_ge (r.countBefore (position key)) r.points.size with hlt | hge
  · refine ⟨r.points[r.countBefore (position key)], Array.getElem_mem hlt, ?_,
      hr.isNext_countBefore hlt⟩
    simp [locate, hlt]
  · have hfirst : 0 < r.points.size := by
      rw [hr.size]
      exact Nat.mul_pos (by decide) hcount
    refine ⟨r.points[0], Array.getElem_mem hfirst, ?_, hr.isNext_first hfirst hge⟩
    simp [locate, hge, hfirst]

end Arranges

/-- Every key belongs to a shard that is there. -/
theorem locate_lt {count : Nat} (h : 0 < count) (key : Bytes) :
    (ofShards count).locate key < count := by
  have hring := arranges_ofShards count
  obtain ⟨p, hp, hshard, -⟩ := hring.exists_owner h key
  rw [← hshard]
  exact (hring.mem_iff.mp hp).1

/-- A key belongs to a shard that is there and that has the next point after the key. This is so on
every ring of these shards, also where points of several shards are at one position. -/
theorem locate_successor {count : Nat} (hcount : 0 < count) :
    (ofShards count).Arranges count ∧ ∀ {r : Ring}, r.Arranges count →
      r.points.size = 160 * count ∧ ∀ key, r.locate key < count ∧
        ∃ node < pointsPerShard, IsNext count (position key) (position (label (r.locate key) node)) := by
  refine ⟨arranges_ofShards count, ?_⟩
  intro r hr
  refine ⟨hr.size, ?_⟩
  intro key
  obtain ⟨p, hp, hshard, hnext⟩ := hr.exists_owner hcount key
  obtain ⟨hlt, node, hnode, hposition⟩ := hr.mem_iff.mp hp
  rw [← hposition] at hnext
  rw [← hshard]
  exact ⟨hlt, node, hnode, hnext⟩

/-- The label of a point, taken as a key, belongs to the point's shard: the point is at the key, and
those of the other shard come after it. -/
theorem locate_successor_label : 0 < 2 ∧ (ofShards 2).locate (label 1 23) = 1 := by
  have htwo : 0 < 2 := by decide
  have hplace : position (label 1 23) = -9070998140040707904 := by decide +kernel
  have hafter : ∀ node < pointsPerShard, -9070998140040707904 < position (label 0 node) := by
    decide +kernel
  obtain ⟨hring, hrings⟩ := locate_successor htwo
  obtain ⟨hlt, node, hnode, hnext⟩ := (hrings hring).2 (label 1 23)
  refine ⟨htwo, ?_⟩
  rcases hnext with ⟨-, hleast⟩ | ⟨hbefore, -⟩
  · have hle := hleast 1 (by decide) 23 (by decide) (Int64.le_refl _)
    by_contra hother
    have hzero : (ofShards 2).locate (label 1 23) = 0 := by omega
    rw [hzero, hplace] at hle
    exact absurd (hafter node hnode) (Int64.not_lt.mpr hle)
  · exact absurd (hbefore 1 (by decide) 23 (by decide)) Int64.lt_irrefl

end Holdfast.Ring
