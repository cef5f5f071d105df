namespace Holdfast

/-- Values under keys, at most one for each key, in the order in which the keys came. -/
abbrev Table (κ α : Type) := List (κ × α)

namespace Table
variable {κ α : Type} [DecidableEq κ]

def get? (t : Table κ α) (key : κ) : Option α :=
  match t with
  | [] => none
  | (k, a) :: rest => if k = key then some a else get? rest key

/-- Replaces the value under a key, or puts a new key last. -/
def set (t : Table κ α) (key : κ) (a : α) : Table κ α :=
  match t with
  | [] => [(key, a)]
  | (k, b) :: rest => if k = key then (key, a) :: rest else (k, b) :: set rest key a

def erase (t : Table κ α) (key : κ) : Table κ α := t.filter fun (k, _) => k ≠ key

@[simp] theorem get?_set_self (t : Table κ α) (key : κ) (a : α) :
    get? (set t key a) key = some a := by
  induction t with
  | nil => simp [set, get?]
  | cons p t ih =>
    obtain ⟨k, b⟩ := p
    by_cases h : k = key <;> simp [set, get?, h, ih]

theorem get?_set_ne (t : Table κ α) (a : α) {key other : κ} (h : other ≠ key) :
    get? (set t key a) other = get? t other := by
  induction t with
  | nil => simp [set, get?, Ne.symm h]
  | cons p t ih =>
    obtain ⟨k, b⟩ := p
    by_cases hk : k = key
    · subst hk; simp [set, get?, Ne.symm h]
    · simp [set, get?, hk, ih]

@[simp] theorem get?_erase_self (t : Table κ α) (key : κ) : get? (erase t key) key = none := by
  induction t with
  | nil => rfl
  | cons p t ih =>
    obtain ⟨k, b⟩ := p
    by_cases h : k = key
    · simpa [erase, h] using ih
    · simpa [erase, h, get?] using ih

theorem get?_erase_ne (t : Table κ α) {key other : κ} (h : other ≠ key) :
    get? (erase t key) other = get? t other := by
  induction t with
  | nil => rfl
  | cons p t ih =>
    obtain ⟨k, b⟩ := p
    by_cases hk : k = key
    · subst hk
      simpa [erase, get?, Ne.symm h] using ih
    · by_cases ho : k = other
      · subst ho; simp [erase, get?, hk]
      · simpa [erase, get?, hk, ho] using ih

end Table
end Holdfast
