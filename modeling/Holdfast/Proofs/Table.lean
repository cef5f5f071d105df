import Holdfast.Table
import Mathlib.Tactic.Common

namespace Holdfast.Table

variable {κ α : Type} [DecidableEq κ]

theorem mem_of_get? {t : Table κ α} {key : κ} {a : α} (h : t.get? key = some a) :
    (key, a) ∈ t := by
  induction t with
  | nil => cases h
  | cons p t ih =>
    obtain ⟨k, b⟩ := p
    by_cases hk : k = key
    · subst hk
      simp only [get?, if_true, Option.some.injEq] at h
      exact h ▸ List.mem_cons_self
    · simp only [get?, hk, if_false] at h
      exact List.mem_cons_of_mem _ (ih h)

/-- Where every key stands once, what stands with it is what is found under it. -/
theorem get?_of_mem {t : Table κ α} (hd : (t.map Prod.fst).Nodup) {key : κ} {a : α}
    (h : (key, a) ∈ t) : t.get? key = some a := by
  induction t with
  | nil => cases h
  | cons p t ih =>
    obtain ⟨k, b⟩ := p
    simp only [List.map_cons, List.nodup_cons] at hd
    rcases List.mem_cons.mp h with he | h
    · cases he
      simp [get?]
    · have hk : k ≠ key := by
        rintro rfl
        exact hd.1 (List.mem_map_of_mem h)
      simp only [get?, hk, if_false]
      exact ih hd.2 h

theorem set_of_absent {t : Table κ α} {key : κ} (h : t.get? key = none) (a : α) :
    t.set key a = t ++ [(key, a)] := by
  induction t with
  | nil => rfl
  | cons p t ih =>
    obtain ⟨k, b⟩ := p
    by_cases hk : k = key
    · simp [get?, hk] at h
    · simp only [get?, hk, if_false] at h
      simp [set, hk, ih h]

theorem nodup_set_of_absent {t : Table κ α} (hd : (t.map Prod.fst).Nodup) {key : κ}
    (h : t.get? key = none) (a : α) : ((t.set key a).map Prod.fst).Nodup := by
  have hnew : key ∉ t.map Prod.fst := by
    intro hmem
    obtain ⟨⟨k, b⟩, hp, rfl⟩ := List.mem_map.mp hmem
    rw [get?_of_mem hd hp] at h
    cases h
  rw [set_of_absent h, List.map_append]
  refine List.nodup_append.mpr ⟨hd, by simp, ?_⟩
  intro k hk k' hk' he
  obtain rfl : k' = key := by simpa using hk'
  exact hnew (he ▸ hk)

theorem map_fst_set_of_present {t : Table κ α} {key : κ} {b : α} (h : t.get? key = some b) (a : α) :
    (t.set key a).map Prod.fst = t.map Prod.fst := by
  induction t with
  | nil => cases h
  | cons p t ih =>
    obtain ⟨k, c⟩ := p
    by_cases hk : k = key
    · simp [set, hk]
    · simp only [get?, hk, if_false] at h
      simp [set, hk, ih h]

theorem nodup_set {t : Table κ α} (hd : (t.map Prod.fst).Nodup) (key : κ) (a : α) :
    ((t.set key a).map Prod.fst).Nodup := by
  cases h : t.get? key with
  | none => exact nodup_set_of_absent hd h a
  | some b => rwa [map_fst_set_of_present h]

theorem mem_set {t : Table κ α} (hd : (t.map Prod.fst).Nodup) {key : κ} {a : α} {p : κ × α}
    (h : p ∈ t.set key a) : p = (key, a) ∨ (p ∈ t ∧ p.1 ≠ key) := by
  have hget := get?_of_mem (nodup_set hd key a) h
  by_cases hk : p.1 = key
  · rw [hk, get?_set_self] at hget
    exact .inl (Prod.ext hk (Option.some.inj hget).symm)
  · rw [get?_set_ne t a hk] at hget
    exact .inr ⟨mem_of_get? hget, hk⟩

/-- What is found under a key stays if it is let through. -/
theorem get?_filter {t : Table κ α} {p : κ × α → Bool} {key : κ}
    (h : ∀ a, t.get? key = some a → p (key, a) = true) : get? (t.filter p) key = get? t key := by
  induction t with
  | nil => rfl
  | cons q t ih =>
    obtain ⟨k, b⟩ := q
    by_cases hk : k = key
    · subst hk
      have hp : p (k, b) = true := h b (by simp [get?])
      simp [hp, get?]
    · have hrest : get? (t.filter p) key = get? t key := by
        apply ih
        intro a ha
        exact h a (by simpa [get?, hk] using ha)
      cases hp : p (k, b) <;> simp [hp, get?, hk, hrest]

end Holdfast.Table
