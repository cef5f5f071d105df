import Holdfast.Proofs.Config.Written
import Holdfast.Proofs.Json.Roundtrip

namespace Holdfast.Config

/-- A document is read if it is one value, which says what the reader asks for. -/
theorem readDocument_eq_ok {α : Type} {read : Reader α} {d : Json.Document} {a : α} :
    readDocument read d = .ok a ↔ ∃ v, d = ⟨some v, true⟩ ∧ read v = .ok a := by
  unfold readDocument
  cases d with
  | mk root clean => cases root <;> cases clean <;> simp [bind_eq_ok]

theorem parse_eq_ok {text : String} {c : Config} : parse text = .ok c ↔
    ∃ v, Json.Document.parse text = ⟨some v, true⟩ ∧ read v = .ok c :=
  readDocument_eq_ok

theorem ofText_eq_ok {text : String} {c : Config} :
    ofText text = .ok c ↔ parse text = .ok c ∧ c.validate = .ok () := by
  constructor
  · intro h
    unfold ofText at h
    split at h
    · cases h
    · next c' hparse =>
      split at h
      · cases h
      · next hvalid =>
        cases h
        exact ⟨hparse, hvalid⟩
  · rintro ⟨hparse, hvalid⟩
    simp [ofText, hparse, hvalid]

/-- Only legible endpoints come into a configuration that is read. -/
theorem legible_of_read {v : Json.Value} {c : Config} (h : read v = .ok c) :
    ∀ e ∈ c.masters.endpoints, e.Legible := by
  rw [read_eq, bind_eq_ok] at h
  obtain ⟨d, hread, hfinish⟩ := h
  have hmasters : d.masters = some c.masters := by
    unfold Draft.finish at hfinish
    split at hfinish
    · next hm =>
      cases hfinish
      exact hm
    · cases hfinish
  obtain ⟨w, hw⟩ := Schema.read_of_get hread
    (List.mem_cons_of_mem _ List.mem_cons_self) hmasters
  exact legible_of_readSource hw

theorem parse_toText {c : Config} (h : ∀ e ∈ c.masters.endpoints, e.Legible) :
    parse c.toText = .ok c :=
  parse_eq_ok.mpr ⟨c.write, Json.Document.parse_render (isPlain_write c), read_write h⟩

/-- A valid configuration with legible endpoints is read back from its text. Every text that is
accepted gives such a configuration, which therefore comes back however often it is written and
read. -/
theorem ofText_toText :
    (∀ c : Config, c.validate = .ok () → (∀ e ∈ c.masters.endpoints, e.Legible) →
      ofText c.toText = .ok c) ∧
    (∀ text c, ofText text = .ok c →
      c.validate = .ok () ∧ ∀ e ∈ c.masters.endpoints, e.Legible) ∧
    ∀ text c, ofText text = .ok c → ofText c.toText = .ok c := by
  have hback : ∀ c : Config, c.validate = .ok () → (∀ e ∈ c.masters.endpoints, e.Legible) →
      ofText c.toText = .ok c := fun c hvalid hlegible =>
    ofText_eq_ok.mpr ⟨parse_toText hlegible, hvalid⟩
  have hsound : ∀ text c, ofText text = .ok c →
      c.validate = .ok () ∧ ∀ e ∈ c.masters.endpoints, e.Legible := by
    intro text c h
    obtain ⟨hparse, hvalid⟩ := ofText_eq_ok.mp h
    obtain ⟨v, -, hread⟩ := parse_eq_ok.mp hparse
    exact ⟨hvalid, legible_of_read hread⟩
  refine ⟨hback, hsound, ?_⟩
  intro text c h
  obtain ⟨hvalid, hlegible⟩ := hsound text c h
  exact hback c hvalid hlegible

/-- Names that need every kind of escape, and numbers at their limits. -/
def extremes : Config where
  shards := ["\"\\\x00\x1f\n/é😀", " b "]
  masters := .static [⟨"::1", 0⟩, ⟨"h\t ", 65535⟩]
  pool := ⟨0, 18446744073709551615, 1, false⟩
  username := some ""
  database := -9223372036854775808
  lock := ⟨9223372036854775807, -1⟩

/-- A text with blanks, an escape that is not needed and a member that is skipped. -/
def loose : String :=
  "\x7b\"topology\" : \x7b\"masters\":[\" h:1\"],\"kind\":\"static\"\x7d,\n" ++
    "\"shards\":[\"\\u0061\"], \"x\":null\x7d"

theorem ofText_toText_extremes :
    ofText extremes.toText = .ok extremes ∧
      (∀ e ∈ extremes.masters.endpoints, e.Legible) ∧
        ∃ c, ofText loose = .ok c ∧ c.toText ≠ loose ∧ ofText c.toText = .ok c := by
  have hback := ofText_toText.1 extremes (by decide) (by decide)
  have hloose : ofText loose = .ok { shards := ["a"], masters := .static [⟨"h", 1⟩] } := by
    decide +kernel
  exact ⟨hback, (ofText_toText.2.1 _ _ hback).2, _, hloose, by decide +kernel,
    ofText_toText.2.2 _ _ hloose⟩

end Holdfast.Config
