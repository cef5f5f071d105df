import Holdfast.Proofs.Config.Schema
import Mathlib.Data.List.Forall2

namespace Holdfast.Config

open Json (Value)

/-- The fields of a record in the order of their declaration, each with the value that stands for it
where it is left out, unless it must be given. -/
abbrev Layout := List (String × Option Value)

/-- What an array has in the place of a field: the value that the object gives it, or else the one
that stands for it. -/
def Stands (ms : List (Option String × Value)) (f : String × Option Value) (item : Value) : Prop :=
  (some f.1, item) ∈ ms ∨ (∀ v, (some f.1, v) ∉ ms) ∧ f.2 = some item

/-- Ways to write a record otherwise: its members in another order, one more member that is no
field, and all its fields as an array; and whatever `within` allows in the value of a field. -/
inductive Respelled (layout : Layout) (within : String → Value → Value → Prop) :
    Value → Value → Prop
  | refl (v : Value) : Respelled layout within v v
  | permuted {ms ms' : List (Option String × Value)} (order : ms.Perm ms') (whole : Bool) :
      Respelled layout within (.object ms whole) (.object ms' whole)
  | padded {key : String} {v : Value} (unknown : key ∉ layout.map Prod.fst)
      (sound : v.isWhole = true) (ms ms' : List (Option String × Value)) (whole : Bool) :
      Respelled layout within (.object (ms ++ ms') whole)
        (.object (ms ++ (some key, v) :: ms') whole)
  | listed {ms : List (Option String × Value)} {items : List Value}
      (all : List.Forall₂ (Stands ms) layout items) (whole : Bool) :
      Respelled layout within (.object ms whole) (.array items whole)
  | member {key : String} {v v' : Value} (known : key ∈ layout.map Prod.fst)
      (value : within key v v') (ms ms' : List (Option String × Value)) (whole : Bool) :
      Respelled layout within (.object (ms ++ (some key, v) :: ms') whole)
        (.object (ms ++ (some key, v') :: ms') whole)
  | item {key : String} {v v' : Value} {vs : List Value}
      (place : (layout.map Prod.fst)[vs.length]? = some key) (value : within key v v')
      (vs' : List Value) (whole : Bool) :
      Respelled layout within (.array (vs ++ v :: vs') whole) (.array (vs ++ v' :: vs') whole)
  | trans {u v w : Value} (first : Respelled layout within u v)
      (second : Respelled layout within v w) : Respelled layout within u w

/-- A field as it is laid out. -/
structure Declares {ρ : Type} (s : Slot ρ) (f : String × Option Value) : Prop where
  name : s.name = f.1
  standard : ∀ v, f.2 = some v → ∃ a, s.read v = .ok a ∧ s.standard = some a

theorem Declares.required {ρ : Type} (s : Slot ρ) : Declares s (s.name, none) :=
  ⟨rfl, by simp⟩

theorem Declares.standing {ρ : Type} {s : Slot ρ} {v : Value} {a : s.Content}
    (hread : s.read v = .ok a) (hstandard : s.standard = some a) : Declares s (s.name, some v) := by
  refine ⟨rfl, ?_⟩
  rintro w ⟨⟩
  exact ⟨a, hread, hstandard⟩

variable {ρ : Type} {S : Schema ρ} {layout : Layout} {within : String → Value → Value → Prop}

theorem names_of_declares {slots : List (Slot ρ)} (h : List.Forall₂ Declares slots layout) :
    layout.map Prod.fst = slots.map Slot.name := by
  induction h with
  | nil => rfl
  | cons hfirst _ ih => rw [List.map_cons, List.map_cons, hfirst.name, ih]

/-- The member of a field may be replaced by one with the same content. -/
theorem Fills.replace {slots : List (Slot ρ)} (h : Lawful slots) {d d' : ρ} {s : Slot ρ}
    (hs : s ∈ slots) {v v' : Value} (hv : ∀ a, s.read v = .ok a → s.read v' = .ok a)
    {ms ms' : List (Option String × Value)}
    (hfills : Fills slots d (ms ++ (some s.name, v) :: ms') d') :
    Fills slots d (ms ++ (some s.name, v') :: ms') d' := by
  have hfirst := hfills.perm h List.perm_middle
  refine Fills.perm h ?_ List.perm_middle.symm
  generalize ms ++ ms' = rest at hfirst ⊢
  generalize hm : ((some s.name, v) : Option String × Value) = m at hfirst
  cases hfirst with
  | @skip  _ _ key _ _ unknown _ _ =>
    cases hm
    exact absurd rfl (unknown s hs)
  | @put _ _ t w a _ known first read rest =>
    have hname : s.name = t.name := Option.some.inj (congrArg Prod.fst hm)
    obtain rfl := h.eq_of_name hs known hname
    obtain rfl : v = w := congrArg Prod.snd hm
    exact .put known first (hv a read) rest

theorem forall₂_chain {α β γ : Type*} {R : α → β → Prop} {Q : β → γ → Prop} {T : α → γ → Prop}
    {xs : List α} {ys : List β} {zs : List γ} (h : List.Forall₂ R xs ys)
    (h' : List.Forall₂ Q ys zs) (hT : ∀ x ∈ xs, ∀ y z, R x y → Q y z → T x z) :
    List.Forall₂ T xs zs := by
  induction h generalizing zs with
  | nil =>
    cases h'
    exact .nil
  | @cons x y xs ys hfirst _ ih =>
    cases h' with
    | cons hfirst' hrest' =>
      exact .cons (hT x List.mem_cons_self _ _ hfirst hfirst')
        (ih hrest' fun x hx => hT x (List.mem_cons_of_mem _ hx))

/-- All fields of an object, as an array, give the same record but for what is left out. -/
theorem Schema.read_listed (hlayout : List.Forall₂ Declares S.slots layout)
    {ms : List (Option String × Value)} {items : List Value}
    (hitems : List.Forall₂ (Stands ms) layout items) {d : ρ} (hfills : Fills S.slots S.empty ms d) :
    ∃ d', Lists S.slots S.empty items d' ∧ ∀ s ∈ S.slots, s.value d' = s.value d := by
  have hread : List.Forall₂ (fun s v => ∃ a, s.read v = .ok a ∧ s.value d = some a)
      S.slots items := by
    refine forall₂_chain hlayout hitems ?_
    rintro s hs f item ⟨hname, hstandard⟩ hstands
    rw [Stands, ← hname] at hstands
    rcases hstands with hgiven | ⟨habsent, hitem⟩
    · obtain ⟨a, hread, hget⟩ := hfills.given S.lawful hs hgiven
      exact ⟨a, hread, by rw [Slot.value, hget]; rfl⟩
    · obtain ⟨a, hread, ha⟩ := hstandard item hitem
      refine ⟨a, hread, ?_⟩
      rw [Slot.value, hfills.kept S.lawful hs habsent, S.blank s hs, ha]
      rfl
  obtain ⟨d', hlists, hd'⟩ := Lists.of_reads S.lawful hread S.empty
  refine ⟨d', hlists, ?_⟩
  intro s hs
  obtain ⟨a, hvalue, hget⟩ := hd' s hs
  rw [hvalue, Slot.value, hget]
  rfl

theorem Respelled.read (hlayout : List.Forall₂ Declares S.slots layout)
    (hwithin : ∀ s ∈ S.slots, ∀ v v', within s.name v v' → ∀ a, s.read v = .ok a →
      s.read v' = .ok a)
    {v v' : Value} (h : Respelled layout within v v') {d : ρ} (hread : S.read v = .ok d) :
    ∃ d', S.read v' = .ok d' ∧ ∀ s ∈ S.slots, s.value d' = s.value d := by
  have hnames := names_of_declares hlayout
  induction h generalizing d with
  | refl => exact ⟨d, hread, fun _ _ => rfl⟩
  | permuted order whole =>
    obtain ⟨hwhole, hfills⟩ := Schema.read_object.mp hread
    exact ⟨d, Schema.read_object.mpr ⟨hwhole, hfills.perm S.lawful order⟩, fun _ _ => rfl⟩
  | @padded key v unknown sound ms ms' whole =>
    obtain ⟨hwhole, hfills⟩ := Schema.read_object.mp hread
    have hunknown : ∀ s ∈ S.slots, s.name ≠ key := by
      rintro s hs rfl
      exact unknown (hnames ▸ List.mem_map_of_mem hs)
    have hpadded := (Fills.skip hunknown sound hfills).perm S.lawful List.perm_middle.symm
    exact ⟨d, Schema.read_object.mpr ⟨hwhole, hpadded⟩, fun _ _ => rfl⟩
  | listed all whole =>
    obtain ⟨hwhole, hfills⟩ := Schema.read_object.mp hread
    obtain ⟨d', hlists, hvalues⟩ := Schema.read_listed hlayout all hfills
    exact ⟨d', Schema.read_array.mpr ⟨hwhole, hlists⟩, hvalues⟩
  | member known value ms ms' whole =>
    obtain ⟨hwhole, hfills⟩ := Schema.read_object.mp hread
    rw [hnames] at known
    obtain ⟨s, hs, rfl⟩ := List.mem_map.mp known
    exact ⟨d, Schema.read_object.mpr
      ⟨hwhole, hfills.replace S.lawful hs (hwithin s hs _ _ value)⟩, fun _ _ => rfl⟩
  | item place value vs' whole =>
    obtain ⟨hwhole, hlists⟩ := Schema.read_array.mp hread
    rw [hnames, List.getElem?_map] at place
    refine ⟨d, Schema.read_array.mpr ⟨hwhole, hlists.replace ?_⟩, fun _ _ => rfl⟩
    intro s hs
    rw [hs, Option.map_some, Option.some.injEq] at place
    subst place
    exact hwithin s (List.mem_of_getElem? hs) _ _ value
  | trans _ _ ih ih' =>
    obtain ⟨d', hread', hvalues⟩ := ih hread
    obtain ⟨d'', hread'', hvalues'⟩ := ih' hread'
    exact ⟨d'', hread'', fun s hs => (hvalues' s hs).trans (hvalues s hs)⟩

/-- Values that are not records are written in one way only. -/
def Nowhere (_ : String) (_ _ : Value) : Prop := False

/-- A record of plain fields says the same however it is written. -/
theorem Respelled.read_map {α : Type} {finish : ρ → α}
    (hlayout : List.Forall₂ Declares S.slots layout)
    (hfinish : ∀ {d d'}, (∀ s ∈ S.slots, s.value d' = s.value d) → finish d' = finish d)
    {v v' : Value} (h : Respelled layout Nowhere v v') {a : α}
    (hread : finish <$> S.read v = .ok a) : finish <$> S.read v' = .ok a := by
  obtain ⟨d, hd, rfl⟩ := map_eq_ok.mp hread
  obtain ⟨d', hd', hvalues⟩ := h.read hlayout (fun _ _ _ _ hnone => hnone.elim) hd
  exact map_eq_ok.mpr ⟨d', hd', hfinish hvalues⟩

end Holdfast.Config
