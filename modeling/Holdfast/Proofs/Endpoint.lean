import Holdfast.Endpoint
import Holdfast.Proofs.Text

namespace Holdfast.Endpoint

open Text

/-- The host is there and does not begin with a blank. -/
structure Legible (e : Endpoint) : Prop where
  nonempty : e.host ≠ ""
  start : ∀ c, e.host.toList.head? = some c → isBlank c = false

theorem legible_iff {e : Endpoint} :
    (e.host ≠ "" ∧ (e.host.toList.head?.all fun c => !isBlank c) = true) ↔ e.Legible := by
  constructor
  · rintro ⟨hhost, hstart⟩
    refine ⟨hhost, ?_⟩
    intro c hc
    simpa [hc] using hstart
  · intro h
    refine ⟨h.nonempty, ?_⟩
    cases hc : e.host.toList.head? with
    | none => rfl
    | some c => simp [h.start c hc]

instance : DecidablePred Legible := fun _ => decidable_of_iff _ legible_iff

theorem readPort?_decimal (port : UInt16) : readPort? (decimal port.toNat) = some port := by
  have hlt : port.toNat < 65536 := port.toNat_lt
  unfold readPort?
  rw [readUpTo?_decimal (by omega), Option.map_some, UInt16.ofNat_toNat]

theorem toList_toText (e : Endpoint) :
    e.toText.toList = e.host.toList ++ ':' :: decimal e.port.toNat := by
  have htext : ∀ s : String, toString s = s := fun _ => rfl
  simp [toText, htext, decimal]

/-- An endpoint is read back from its text if its host can be told from what stands around it. -/
theorem parse_toText {e : Endpoint} (h : e.Legible) : parse e.toText = .ok e := by
  have hhost : e.host.toList ≠ [] := fun he => h.nonempty (String.toList_eq_nil_iff.mp he)
  have hcolon : ':' ∉ decimal e.port.toNat := fun hmem => absurd (isDigit_decimal hmem) (by decide)
  have htrim : trim e.toText.toList = e.toText.toList := by
    rw [toList_toText]
    refine trim_eq_self ?_ ?_
    · intro c hc
      rw [List.head?_append_of_ne_nil _ hhost] at hc
      exact h.start c hc
    · intro c hc
      rw [List.getLast?_append_of_ne_nil _ (List.cons_ne_nil _ _),
        List.getLast?_cons_of_ne_nil (decimal_ne_nil _)] at hc
      exact (isWord_decimal _).2 c (List.mem_of_getLast? hc)
  unfold parse ofParts
  rw [htrim, toList_toText, cutLast_append hcolon]
  dsimp only
  rw [readPort?_decimal]
  simp [hhost, String.ofList_toList]

/-- Only a legible endpoint is read from a text. -/
theorem Legible.of_parse {s : String} {e : Endpoint} (h : parse s = .ok e) : e.Legible := by
  unfold parse at h
  split at h
  · next host port hcut =>
    obtain ⟨htrim, -⟩ := eq_of_cutLast hcut
    unfold ofParts at h
    split at h
    · cases h
    · split at h
      · cases h
      · next hhost =>
        cases h
        refine ⟨?_, ?_⟩
        · intro he
          have hnil : host = [] := by simpa using congrArg String.toList he
          exact hhost (by rw [hnil]; rfl)
        · intro c hc
          rw [String.toList_ofList] at hc
          have hhead : (trim s.toList).head? = some c := by
            rw [htrim, List.head?_append, hc]
            rfl
          exact isBlank_head_trim hhead
  · cases h

end Holdfast.Endpoint
