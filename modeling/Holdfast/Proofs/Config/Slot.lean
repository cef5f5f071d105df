import Holdfast.Config.Field
import Mathlib.Data.List.Pairwise
import Mathlib.Data.List.Perm.Basic

namespace Holdfast.Config

open Json (Value)

section Steps

variable {α β : Type} {x : Except ReadError α} {b : β}

theorem bind_eq_ok {f : α → Except ReadError β} :
    (x >>= f) = .ok b ↔ ∃ a, x = .ok a ∧ f a = .ok b := by
  cases x <;> simp [bind, Except.bind]

theorem map_eq_ok {f : α → β} : (f <$> x) = .ok b ↔ ∃ a, x = .ok a ∧ f a = b := by
  cases x <;> simp [Functor.map, Except.map]

@[simp]
theorem pure_eq_ok {a : α} : (pure a : Except ReadError α) = .ok b' ↔ a = b' := by
  simp [pure, Except.pure]

@[simp]
theorem throw_ne_ok {e : ReadError} : (throw e : Except ReadError β) ≠ .ok b := by
  simp [throw, throwThe, MonadExceptOf.throw]

end Steps

variable {ρ : Type}

/-- A field together with the place of its content in the record. -/
structure Slot (ρ : Type) where
  name : String
  Content : Type
  read : Reader Content
  get : ρ → Option Content
  put : Content → ρ → ρ
  /-- What counts where the field is left out; nothing if it must be given. -/
  standard : Option Content

namespace Slot

def field (s : Slot ρ) : Field ρ :=
  ⟨s.name, fun d => (s.get d).isSome, fun v d => return s.put (← s.read v) d⟩

/-- The content that counts. -/
def value (s : Slot ρ) (d : ρ) : Option s.Content := (s.get d).or s.standard

/-- Neither of the fields gets into the other's way. -/
structure Apart (s t : Slot ρ) : Prop where
  name : s.name ≠ t.name
  left : ∀ a d, s.get (t.put a d) = s.get d
  right : ∀ a d, t.get (s.put a d) = t.get d
  comm : ∀ a b d, s.put a (t.put b d) = t.put b (s.put a d)

theorem apart_iff {s t : Slot ρ} : s.Apart t ↔ s.name ≠ t.name ∧
    (∀ a d, s.get (t.put a d) = s.get d) ∧ (∀ a d, t.get (s.put a d) = t.get d) ∧
      ∀ a b d, s.put a (t.put b d) = t.put b (s.put a d) :=
  ⟨fun h => ⟨h.name, h.left, h.right, h.comm⟩, fun h => ⟨h.1, h.2.1, h.2.2.1, h.2.2.2⟩⟩

instance : Std.Symm (@Apart ρ) :=
  ⟨fun _ _ h => ⟨h.name.symm, h.right, h.left, fun a b d => (h.comm b a d).symm⟩⟩

theorem field_read (s : Slot ρ) (v : Value) (d : ρ) :
    s.field.read v d = (s.read v).map fun a => s.put a d := by
  simp only [field]
  cases s.read v <;> rfl

end Slot

/-- Each field has a name and a place of its own. -/
structure Lawful (slots : List (Slot ρ)) : Prop where
  apart : slots.Pairwise Slot.Apart
  get_put : ∀ s ∈ slots, ∀ a d, s.get (s.put a d) = some a

variable {slots : List (Slot ρ)}

theorem Lawful.eq_or_apart (h : Lawful slots) {s t : Slot ρ} (hs : s ∈ slots) (ht : t ∈ slots) :
    s = t ∨ s.Apart t := by
  by_cases he : s = t
  · exact .inl he
  · exact .inr (h.apart.forall hs ht he)

theorem Lawful.eq_of_name (h : Lawful slots) {s t : Slot ρ} (hs : s ∈ slots) (ht : t ∈ slots)
    (he : s.name = t.name) : s = t :=
  (h.eq_or_apart hs ht).resolve_right fun hapart => hapart.name he

theorem Lawful.tail {s : Slot ρ} (h : Lawful (s :: slots)) : Lawful slots :=
  ⟨h.apart.of_cons, fun t ht => h.get_put t (List.mem_cons_of_mem _ ht)⟩

theorem Lawful.head {s : Slot ρ} (h : Lawful (s :: slots)) {t : Slot ρ} (ht : t ∈ slots) :
    s.Apart t :=
  List.rel_of_pairwise_cons h.apart ht

/-- The members take the record from `d` to `d'`. -/
inductive Fills (slots : List (Slot ρ)) : ρ → List (Option String × Value) → ρ → Prop
  | done (d : ρ) : Fills slots d [] d
  | skip {d d' : ρ} {key : String} {v : Value} {ms : List (Option String × Value)}
      (unknown : ∀ s ∈ slots, s.name ≠ key) (whole : v.isWhole = true) (rest : Fills slots d ms d') :
      Fills slots d ((some key, v) :: ms) d'
  | put {d d' : ρ} {s : Slot ρ} {v : Value} {a : s.Content} {ms : List (Option String × Value)}
      (known : s ∈ slots) (first : s.get d = none) (read : s.read v = .ok a)
      (rest : Fills slots (s.put a d) ms d') : Fills slots d ((some s.name, v) :: ms) d'

theorem readMembers_skip {key : String} (hkey : ∀ s ∈ slots, s.name ≠ key) (v : Value) (d : ρ)
    (rest : List (Option String × Value)) :
    readMembers (slots.map Slot.field) d ((some key, v) :: rest) =
      if v.isWhole then readMembers (slots.map Slot.field) d rest else .error .malformed := by
  have hfind : (slots.map Slot.field).find? (·.name = key) = none := by
    simpa [Slot.field] using hkey
  rw [readMembers, hfind]

theorem readMembers_put (h : Lawful slots) {s : Slot ρ} (hs : s ∈ slots) (v : Value) (d : ρ)
    (rest : List (Option String × Value)) :
    readMembers (slots.map Slot.field) d ((some s.name, v) :: rest) =
      if (s.get d).isSome then .error .malformed
      else (s.read v).bind fun a => readMembers (slots.map Slot.field) (s.put a d) rest := by
  have hfind : (slots.map Slot.field).find? (·.name = s.name) = some s.field := by
    cases hfind : (slots.map Slot.field).find? (·.name = s.name) with
    | none =>
      rw [List.find?_eq_none] at hfind
      exact absurd (by simp [Slot.field]) (hfind s.field (List.mem_map_of_mem hs))
    | some f =>
      obtain ⟨t, ht, rfl⟩ := List.mem_map.mp (List.mem_of_find?_eq_some hfind)
      have hname : t.name = s.name := by simpa [Slot.field] using List.find?_some hfind
      rw [h.eq_of_name ht hs hname]
  rw [readMembers, hfind]
  dsimp only
  rw [Slot.field_read]
  cases s.read v <;> rfl

theorem readMembers_iff (h : Lawful slots) {d d' : ρ} {ms : List (Option String × Value)} :
    readMembers (slots.map Slot.field) d ms = .ok d' ↔ Fills slots d ms d' := by
  constructor
  · intro hread
    induction ms generalizing d with
    | nil =>
      cases hread
      exact .done _
    | cons m ms ih =>
      obtain ⟨key, v⟩ := m
      cases key with
      | none => cases hread
      | some key =>
        by_cases hkey : ∃ s ∈ slots, s.name = key
        · obtain ⟨s, hs, rfl⟩ := hkey
          rw [readMembers_put h hs] at hread
          split at hread
          · cases hread
          · next hfirst =>
            cases ha : s.read v with
            | error e => rw [ha] at hread; cases hread
            | ok a =>
              rw [ha] at hread
              exact .put hs (by simpa using hfirst) ha (ih hread)
        · have hkey' : ∀ s ∈ slots, s.name ≠ key := fun s hs he => hkey ⟨s, hs, he⟩
          rw [readMembers_skip hkey'] at hread
          split at hread
          · next hwhole => exact .skip hkey' hwhole (ih hread)
          · cases hread
  · intro hfills
    induction hfills with
    | done => rfl
    | skip unknown whole _ ih => rw [readMembers_skip unknown, if_pos whole, ih]
    | put known first read _ ih =>
      rw [readMembers_put h known, first, read]
      exact ih

namespace Fills

/-- The order of the members does not matter. -/
theorem perm (h : Lawful slots) {d d' : ρ} {ms ms' : List (Option String × Value)}
    (hfills : Fills slots d ms d') (hperm : ms.Perm ms') : Fills slots d ms' d' := by
  induction hperm generalizing d with
  | nil => exact hfills
  | cons m _ ih =>
    cases hfills with
    | skip unknown whole rest => exact .skip unknown whole (ih rest)
    | put known first read rest => exact .put known first read (ih rest)
  | swap m m' ms =>
    cases hfills with
    | skip unknown whole rest =>
      cases rest with
      | skip unknown' whole' rest => exact .skip unknown' whole' (.skip unknown whole rest)
      | put known first read rest => exact .put known first read (.skip unknown whole rest)
    | put known first read rest =>
      cases rest with
      | skip unknown whole rest => exact .skip unknown whole (.put known first read rest)
      | put known' first' read' rest =>
        rcases h.eq_or_apart known known' with rfl | hapart
        · rw [h.get_put _ known] at first'
          cases first'
        · rw [hapart.right] at first'
          rw [← hapart.comm] at rest
          exact .put known' first' read' (.put known (by rwa [hapart.left]) read rest)
  | trans _ _ ih ih' => exact ih' (ih hfills)

/-- What has been read stays. -/
theorem get_of_some (h : Lawful slots) {d d' : ρ} {ms : List (Option String × Value)}
    (hfills : Fills slots d ms d') {s : Slot ρ} (hs : s ∈ slots) {a : s.Content}
    (ha : s.get d = some a) : s.get d' = some a := by
  induction hfills with
  | done => exact ha
  | skip _ _ _ ih => exact ih ha
  | put known first _ _ ih =>
    rcases h.eq_or_apart hs known with rfl | hapart
    · rw [ha] at first
      cases first
    · exact ih (by rw [hapart.left, ha])

/-- A field that is given has the content that is read from its member. -/
theorem given (h : Lawful slots) {d d' : ρ} {ms : List (Option String × Value)}
    (hfills : Fills slots d ms d') {s : Slot ρ} (hs : s ∈ slots) {v : Value}
    (hv : (some s.name, v) ∈ ms) : ∃ a, s.read v = .ok a ∧ s.get d' = some a := by
  induction hfills with
  | done => cases hv
  | skip unknown _ _ ih =>
    rcases List.mem_cons.mp hv with he | hv
    · cases he
      exact absurd rfl (unknown s hs)
    · exact ih hv
  | @put _ _ t w a _ known _ read rest ih =>
    rcases List.mem_cons.mp hv with he | hv
    · have hname : s.name = t.name := Option.some.inj (congrArg Prod.fst he)
      obtain rfl := h.eq_of_name hs known hname
      obtain rfl : v = w := congrArg Prod.snd he
      exact ⟨a, read, rest.get_of_some h hs (h.get_put s hs ..)⟩
    · exact ih hv

/-- A field that is left out stays as it was. -/
theorem kept (h : Lawful slots) {d d' : ρ} {ms : List (Option String × Value)}
    (hfills : Fills slots d ms d') {s : Slot ρ} (hs : s ∈ slots)
    (hv : ∀ v, (some s.name, v) ∉ ms) : s.get d' = s.get d := by
  induction hfills with
  | done => rfl
  | skip _ _ _ ih => exact ih fun v hmem => hv v (List.mem_cons_of_mem _ hmem)
  | put known _ _ _ ih =>
    rcases h.eq_or_apart hs known with rfl | hapart
    · exact absurd List.mem_cons_self (hv _)
    · rw [ih fun v hmem => hv v (List.mem_cons_of_mem _ hmem), hapart.left]

/-- What is there at the end was there before or has been read. -/
theorem get_or_read (h : Lawful slots) {d d' : ρ} {ms : List (Option String × Value)}
    (hfills : Fills slots d ms d') {s : Slot ρ} (hs : s ∈ slots) :
    s.get d' = s.get d ∨ ∃ v a, s.read v = .ok a ∧ s.get d' = some a := by
  by_cases hv : ∃ v, (some s.name, v) ∈ ms
  · obtain ⟨v, hv⟩ := hv
    exact .inr ⟨v, hfills.given h hs hv⟩
  · exact .inl (hfills.kept h hs fun v hmem => hv ⟨v, hmem⟩)

end Fills

/-- The items take the record from `d` to `d'`; items at the end may be missing. -/
inductive Lists : List (Slot ρ) → ρ → List Value → ρ → Prop
  | done (slots : List (Slot ρ)) (d : ρ) : Lists slots d [] d
  | item {slots : List (Slot ρ)} {s : Slot ρ} {d d' : ρ} {v : Value} {a : s.Content}
      {vs : List Value} (read : s.read v = .ok a) (rest : Lists slots (s.put a d) vs d') :
      Lists (s :: slots) d (v :: vs) d'

theorem readItems_iff {d d' : ρ} {vs : List Value} :
    readItems d (slots.map Slot.field) vs = .ok d' ↔ Lists slots d vs d' := by
  constructor
  · intro hread
    induction vs generalizing slots d with
    | nil =>
      rw [readItems] at hread
      cases hread
      exact .done _ _
    | cons v vs ih =>
      cases slots with
      | nil => cases hread
      | cons s slots =>
        rw [List.map_cons, readItems, Slot.field_read] at hread
        cases ha : s.read v with
        | error e => rw [ha] at hread; cases hread
        | ok a =>
          rw [ha] at hread
          exact .item ha (ih hread)
  · intro hlists
    induction hlists with
    | done => rw [readItems]
    | item read _ ih =>
      rw [List.map_cons, readItems, Slot.field_read, read]
      exact ih

namespace Lists

/-- The items leave the places of other fields alone. -/
theorem kept {d d' : ρ} {vs : List Value} (hlists : Lists slots d vs d') {s : Slot ρ}
    (h : ∀ t ∈ slots, s.Apart t) : s.get d' = s.get d := by
  induction hlists with
  | done => rfl
  | item _ _ ih =>
    rw [ih fun t ht => h t (List.mem_cons_of_mem _ ht), (h _ List.mem_cons_self).left]

theorem get_or_read (h : Lawful slots) {d d' : ρ} {vs : List Value} (hlists : Lists slots d vs d')
    {s : Slot ρ} (hs : s ∈ slots) :
    s.get d' = s.get d ∨ ∃ v a, s.read v = .ok a ∧ s.get d' = some a := by
  induction hlists with
  | done => exact .inl rfl
  | @item _ t d _ v a _ read rest ih =>
    rcases List.mem_cons.mp hs with rfl | hs'
    · refine .inr ⟨v, a, read, ?_⟩
      rw [rest.kept fun _ => h.head, h.get_put s hs]
    · rcases ih h.tail hs' with hkept | hread
      · exact .inl (by rw [hkept, (h.head hs').right])
      · exact .inr hread

/-- An array of all fields is read if each of its items is. -/
theorem of_reads (h : Lawful slots) {P : ∀ s : Slot ρ, s.Content → Prop} {vs : List Value}
    (hread : List.Forall₂ (fun s v => ∃ a, s.read v = .ok a ∧ P s a) slots vs) (d : ρ) :
    ∃ d', Lists slots d vs d' ∧ ∀ s ∈ slots, ∃ a, P s a ∧ s.get d' = some a := by
  induction hread generalizing d with
  | nil => exact ⟨d, .done _ _, by simp⟩
  | @cons s v slots vs hfirst _ ih =>
    obtain ⟨a, read, hP⟩ := hfirst
    obtain ⟨d', rest, hrest⟩ := ih h.tail (s.put a d)
    refine ⟨d', .item read rest, ?_⟩
    rintro t (_ | ⟨_, ht⟩)
    · refine ⟨a, hP, ?_⟩
      rw [rest.kept fun _ => h.head, h.get_put s List.mem_cons_self]
    · exact hrest t ht

/-- An item may be replaced by one that is read as the same content. -/
theorem replace {d d' : ρ} {vs vs' : List Value} {v w : Value}
    (hlists : Lists slots d (vs ++ v :: vs') d')
    (h : ∀ s, slots[vs.length]? = some s → ∀ a, s.read v = .ok a → s.read w = .ok a) :
    Lists slots d (vs ++ w :: vs') d' := by
  induction vs generalizing slots d with
  | nil =>
    cases hlists with
    | item read rest => exact .item (h _ rfl _ read) rest
  | cons u vs ih =>
    cases hlists with
    | item read rest => exact .item read (ih rest h)

end Lists

end Holdfast.Config
