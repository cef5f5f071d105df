import Holdfast.Proofs.Config.Schema
import Holdfast.Proofs.Endpoint

namespace Holdfast

/-- The endpoints that are named as peers or as masters. -/
def MasterSource.endpoints : MasterSource → List Endpoint
  | .sentinel peers => peers
  | .static masters => masters

namespace Config

open Json (Value)

theorem SourceKind.endpoints_source (kind : SourceKind) (es : List Endpoint) :
    (kind.source es).endpoints = es := by
  cases kind <;> rfl

/-- A master source beside its tag. -/
def sourceSchema (kind : SourceKind) : Schema (Option (List Endpoint)) where
  slots := [endpointsSlot kind]
  empty := none
  lawful := lawful_endpointsSlot kind
  blank := blank_endpointsSlot kind

theorem readSource_object {ms : List (Option String × Value)} {whole : Bool} {m : MasterSource} :
    readSource (.object ms whole) = .ok m ↔
      (Value.object ms whole).isHoldable nestingRoom = true ∧ ∃ kind others es,
        splitTag none [] ms = .ok (kind, others) ∧
          readMembers [endpointsField kind] none others = .ok (some es) ∧ kind.source es = m := by
  unfold readSource
  cases (Value.object ms whole).isHoldable nestingRoom with
  | false => simp [bind_eq_ok]
  | true => simp [bind_eq_ok, Option.exists]

theorem readSource_array {vs : List Value} {whole : Bool} {m : MasterSource} :
    readSource (.array vs whole) = .ok m ↔
      (Value.array vs whole).isHoldable nestingRoom = true ∧ ∃ tag items kind es,
        vs = tag :: items ∧ readKind tag = .ok kind ∧
          readItems none [endpointsField kind] items = .ok (some es) ∧ kind.source es = m := by
  unfold readSource
  cases (Value.array vs whole).isHoldable nestingRoom with
  | false => simp [bind_eq_ok]
  | true => cases vs <;> simp [bind_eq_ok, Option.exists]

/-- Every item of a list that has been read has been read itself. -/
theorem read_of_mem_readList {α : Type} {read : Reader α} {v : Value} {xs : List α}
    (h : readList read v = .ok xs) : ∀ x ∈ xs, ∃ w, read w = .ok x := by
  cases v with
  | array items whole =>
    rw [readList, bind_eq_ok] at h
    obtain ⟨ys, hitems, hwhole⟩ := h
    obtain rfl : ys = xs := by
      split at hwhole
      · simpa using hwhole
      · simp at hwhole
    clear hwhole
    induction items generalizing ys with
    | nil =>
      cases hitems
      simp
    | cons v items ih =>
      rw [List.mapM_cons, bind_eq_ok] at hitems
      obtain ⟨y, hy, hitems⟩ := hitems
      rw [bind_eq_ok] at hitems
      obtain ⟨ys', hys', he⟩ := hitems
      rw [pure_eq_ok] at he
      subst he
      rintro x (_ | ⟨_, hx⟩)
      · exact ⟨v, hy⟩
      · exact ih _ hys' x hx
  | _ => cases h

theorem legible_of_readEndpoint {v : Value} {e : Endpoint} (h : readEndpoint v = .ok e) :
    e.Legible := by
  rw [readEndpoint, bind_eq_ok] at h
  obtain ⟨s, -, hparse⟩ := h
  split at hparse
  · next e' he =>
    rw [pure_eq_ok] at hparse
    subst hparse
    exact .of_parse he
  · simp at hparse

/-- What is read beside the tag is a list of endpoints. -/
theorem readList_of_readSource {v : Value} {m : MasterSource} (h : readSource v = .ok m) :
    ∃ w, readList readEndpoint w = .ok m.endpoints := by
  have hread : ∃ (kind : SourceKind) (w : Value) (es : List Endpoint),
      (sourceSchema kind).read w = .ok (some es) ∧ kind.source es = m := by
    cases v with
    | object ms whole =>
      obtain ⟨-, kind, others, es, -, hread, hm⟩ := readSource_object.mp h
      rw [endpointsField_eq] at hread
      exact ⟨kind, .object others true, es, 
        Schema.read_object.mpr ⟨rfl, (readMembers_iff (lawful_endpointsSlot kind)).mp hread⟩, hm⟩
    | array vs whole =>
      obtain ⟨-, tag, items, kind, es, -, -, hread, hm⟩ := readSource_array.mp h
      rw [endpointsField_eq] at hread
      exact ⟨kind, .array items true, es, 
        Schema.read_array.mpr ⟨rfl, readItems_iff.mp hread⟩, hm⟩
    | _ =>
      unfold readSource at h
      generalize Value.isHoldable nestingRoom _ = hold at h
      cases hold <;> simp [bind_eq_ok] at h
  obtain ⟨kind, w, es, hw, rfl⟩ := hread
  rw [SourceKind.endpoints_source]
  exact Schema.read_of_get hw List.mem_cons_self rfl

/-- Only legible endpoints are read. -/
theorem legible_of_readSource {v : Value} {m : MasterSource} (h : readSource v = .ok m) :
    ∀ e ∈ m.endpoints, e.Legible := by
  obtain ⟨w, hw⟩ := readList_of_readSource h
  intro e he
  obtain ⟨u, hu⟩ := read_of_mem_readList hw e he
  exact legible_of_readEndpoint hu

theorem membersHoldable_iff {room : Nat} {ms : List (Option String × Value)} :
    Value.membersHoldable room ms = true ↔
      ∀ m ∈ ms, m.1.isSome = true ∧ m.2.isHoldable room = true := by
  induction ms with
  | nil => simp [Value.membersHoldable]
  | cons m ms ih =>
    obtain ⟨key, v⟩ := m
    simp [Value.membersHoldable, ih]

theorem splitTag_other {kind : Option SourceKind} {m : Option String × Value}
    (h : m.1 ≠ some "kind") (others ms : List (Option String × Value)) :
    splitTag kind others (m :: ms) = splitTag kind (m :: others) ms := by
  obtain ⟨key, v⟩ := m
  have hkey : key ≠ some "kind" := h
  simp [splitTag, hkey]

/-- After the tag only other members may follow. -/
theorem splitTag_some {k kind : SourceKind} {others ms rest : List (Option String × Value)} :
    splitTag (some k) others ms = .ok (kind, rest) ↔
      k = kind ∧ (∀ m ∈ ms, m.1 ≠ some "kind") ∧ others.reverse ++ ms = rest := by
  induction ms generalizing others with
  | nil => simp [splitTag]
  | cons m ms ih =>
    by_cases h : m.1 = some "kind"
    · obtain ⟨_, v⟩ := m
      obtain rfl := h
      simp [splitTag]
    · rw [splitTag_other h, ih]
      simp [h]

/-- The tag is cut out wherever it stands. -/
theorem splitTag_append {kind : SourceKind} {v : Value} (hv : readKind v = .ok kind)
    {before after : List (Option String × Value)}
    (h : ∀ m ∈ before ++ after, m.1 ≠ some "kind") (others : List (Option String × Value)) :
    splitTag none others (before ++ (some "kind", v) :: after) =
      .ok (kind, others.reverse ++ (before ++ after)) := by
  induction before generalizing others with
  | nil =>
    have hrest : splitTag (some kind) others after = .ok (kind, others.reverse ++ after) :=
      splitTag_some.mpr ⟨rfl, h, rfl⟩
    simpa [splitTag, hv, Except.bind] using hrest
  | cons m before ih =>
    rw [List.cons_append, splitTag_other (h m List.mem_cons_self),
      ih fun m' hm' => h m' (List.mem_cons_of_mem _ hm')]
    simp

/-- There is one tag, and the rest is what stands around it. -/
theorem splitTag_inv {kind : SourceKind} {others ms rest : List (Option String × Value)}
    (h : splitTag none others ms = .ok (kind, rest)) : ∃ before v after,
      ms = before ++ (some "kind", v) :: after ∧ (∀ m ∈ before ++ after, m.1 ≠ some "kind") ∧
        readKind v = .ok kind ∧ others.reverse ++ (before ++ after) = rest := by
  induction ms generalizing others with
  | nil => cases h
  | cons m ms ih =>
    by_cases hm : m.1 = some "kind"
    · obtain ⟨_, v⟩ := m
      obtain rfl := hm
      have hbind : (readKind v >>= fun k => splitTag (some k) others ms) = .ok (kind, rest) := by
        simpa [splitTag, bind] using h
      obtain ⟨k, hv, hrest⟩ := bind_eq_ok.mp hbind
      obtain ⟨rfl, hother, rfl⟩ := splitTag_some.mp hrest
      exact ⟨[], v, ms, rfl, hother, hv, rfl⟩
    · rw [splitTag_other hm] at h
      obtain ⟨before, v, after, rfl, hother, hv, rfl⟩ := ih h
      refine ⟨m :: before, v, after, rfl, ?_, hv, by simp⟩
      rintro m' (_ | ⟨_, hm'⟩)
      · exact hm
      · exact hother m' hm'

/-- A master source may be written with its members in any order. -/
theorem readSource_perm {ms ms' : List (Option String × Value)} (hperm : ms.Perm ms')
    {whole : Bool} {m : MasterSource} (h : readSource (.object ms whole) = .ok m) :
    readSource (.object ms' whole) = .ok m := by
  obtain ⟨hold, kind, others, es, hsplit, hread, hm⟩ := readSource_object.mp h
  obtain ⟨before, v, after, rfl, hother, hv, rfl⟩ := splitTag_inv hsplit
  obtain ⟨before', after', rfl⟩ : ∃ before' after', ms' = before' ++ (some "kind", v) :: after' :=
    List.append_of_mem (hperm.subset (by simp))
  have hrest : (before ++ after).Perm (before' ++ after') :=
    (List.perm_cons _).mp ((List.perm_middle.symm.trans hperm).trans List.perm_middle)
  have hother' : ∀ m ∈ before' ++ after', m.1 ≠ some "kind" :=
    fun m hm => hother m (hrest.symm.subset hm)
  have hold' : (Value.object (before' ++ (some "kind", v) :: after') whole).isHoldable nestingRoom =
      true := by
    rw [Value.isHoldable, Bool.and_eq_true, membersHoldable_iff] at hold ⊢
    exact ⟨hold.1, fun m hm => hold.2 m (hperm.symm.subset hm)⟩
  refine readSource_object.mpr ⟨hold', kind, _, es, splitTag_append hv hother' [], ?_, hm⟩
  rw [endpointsField_eq] at hread ⊢
  have hlawful := lawful_endpointsSlot kind
  exact (readMembers_iff hlawful).mpr (((readMembers_iff hlawful).mp hread).perm hlawful hrest)

end Config
end Holdfast
