import Holdfast.Proofs.Config.Roundtrip
import Holdfast.Proofs.Text.Grammar

namespace Holdfast

open Text

namespace Endpoint

theorem readPort?_eq_some_iff {port : List Char} {p : UInt16} :
    readPort? port = some p ↔ IsNumeral port p.toNat := by
  have hlt : p.toNat < 65536 := p.toNat_lt
  unfold readPort?
  rw [Option.map_eq_some_iff]
  constructor
  · rintro ⟨n, hn, rfl⟩
    obtain ⟨hnumeral, hle⟩ := readUpTo?_eq_some_iff.mp hn
    rwa [UInt16.toNat_ofNat_of_lt' (by simp [UInt16.size]; omega)]
  · intro h
    exact ⟨p.toNat, readUpTo?_eq_some_iff.mpr ⟨h, by omega⟩, UInt16.ofNat_toNat⟩

theorem readPort?_eq_none_iff {port : List Char} :
    readPort? port = none ↔ ∀ p : UInt16, ¬ IsNumeral port p.toNat := by
  simp only [Option.eq_none_iff_forall_ne_some, ne_eq, readPort?_eq_some_iff]

/-- The host is taken as it stands, and the port is what its digits stand for. -/
theorem ofParts_eq_ok {host port : List Char} {e : Endpoint} : ofParts host port = .ok e ↔
    host ≠ [] ∧ host = e.host.toList ∧ IsNumeral port e.port.toNat := by
  unfold ofParts
  cases hport : readPort? port with
  | none =>
    have hno : ¬ IsNumeral port e.port.toNat := by
      rw [← readPort?_eq_some_iff, hport]
      simp
    simp [hno]
  | some p =>
    have hread : ∀ q : UInt16, IsNumeral port q.toNat ↔ p = q := by
      intro q
      rw [← readPort?_eq_some_iff, hport, Option.some.injEq]
    rw [hread]
    dsimp only
    split
    · next hnil => simp [List.isEmpty_iff.mp hnil]
    · next hhost =>
      rw [Except.ok.injEq]
      constructor
      · rintro rfl
        exact ⟨fun he => hhost (List.isEmpty_iff.mpr he), String.toList_ofList.symm, rfl⟩
      · rintro ⟨-, rfl, rfl⟩
        rw [String.ofList_toList]

/-- A port that is none is reported together with its host, whatever that is. -/
theorem ofParts_unreadable {port : List Char} (h : ∀ p : UInt16, ¬ IsNumeral port p.toNat)
    (host : List Char) : ofParts host port = .error ⟨String.ofList (host ++ ':' :: port)⟩ := by
  unfold ofParts
  rw [readPort?_eq_none_iff.mpr h]

/-- A text that says where an endpoint is: without the blanks around it, its host, a colon, which is
the last one, and its port in digits. -/
structure Spells (cs : List Char) (e : Endpoint) : Prop where
  host : e.host ≠ ""
  text : ∃ port, Trims cs (e.host.toList ++ ':' :: port) ∧ ':' ∉ port ∧ IsNumeral port e.port.toNat

theorem parse_eq_ok {s : String} {e : Endpoint} : parse s = .ok e ↔ Spells s.toList e := by
  constructor
  · intro h
    unfold parse at h
    split at h
    · next host port hcut =>
      obtain ⟨hne, rfl, hport⟩ := ofParts_eq_ok.mp h
      obtain ⟨htrim, hcolon⟩ := eq_of_cutLast hcut
      refine ⟨fun he => hne (by rw [he]; rfl), port, ?_, hcolon, hport⟩
      exact trim_eq_iff.mp htrim
    · cases h
  · rintro ⟨hhost, port, htext, hcolon, hport⟩
    have hne : e.host.toList ≠ [] := fun he => hhost (String.toList_eq_nil_iff.mp he)
    unfold parse
    rw [trim_eq_iff.mpr htext, cutLast_append hcolon]
    exact ofParts_eq_ok.mpr ⟨hne, rfl, hport⟩

end Endpoint

namespace Config

theorem readEndpoint_eq_ok {v : Json.Value} {e : Endpoint} : readEndpoint v = .ok e ↔
    ∃ s, readText v = .ok s ∧ Endpoint.parse s = .ok e := by
  rw [readEndpoint, bind_eq_ok]
  constructor
  · rintro ⟨s, hs, hparse⟩
    split at hparse
    · next e' he =>
      rw [pure_eq_ok] at hparse
      exact ⟨s, hs, hparse ▸ he⟩
    · exact absurd hparse throw_ne_ok
  · rintro ⟨s, hs, hparse⟩
    exact ⟨s, hs, by rw [hparse]; rfl⟩

end Config

namespace Endpoint

open Config (readDocument readEndpoint)

/-- An endpoint is read back from its document just if it is read back from its text. -/
theorem readDocument_write (e : Endpoint) :
    readDocument readEndpoint (.parse e.write.render) = .ok e ↔ parse e.toText = .ok e := by
  have hplain : e.write.isPlain = true := Config.isPlain_writeText e.toText
  have htext : Config.readText e.write = .ok e.toText := rfl
  rw [Json.Document.parse_render hplain, Config.readDocument_eq_ok]
  simp [Config.readEndpoint_eq_ok, htext]

/-- A text is accepted just if it spells an endpoint, and then that one is read. An endpoint is read
back from its text, and from its document, just if it has a host that does not begin with a blank;
whatever has been read is such an endpoint. -/
theorem spelled_and_shown :
    (∀ s e, parse s = .ok e ↔ Spells s.toList e) ∧
    (∀ e, parse e.toText = .ok e ↔ e.Legible) ∧
    (∀ e, readDocument readEndpoint (.parse e.write.render) = .ok e ↔ e.Legible) ∧
    ∀ s e, parse s = .ok e → parse e.toText = .ok e ∧
      readDocument readEndpoint (.parse e.write.render) = .ok e := by
  have hshown : ∀ e : Endpoint, parse e.toText = .ok e ↔ e.Legible := fun e =>
    ⟨Legible.of_parse, parse_toText⟩
  have hwritten : ∀ e : Endpoint,
      readDocument readEndpoint (.parse e.write.render) = .ok e ↔ e.Legible := fun e =>
    (readDocument_write e).trans (hshown e)
  refine ⟨fun s e => parse_eq_ok, hshown, hwritten, ?_⟩
  intro s e h
  have hlegible := Legible.of_parse h
  exact ⟨(hshown e).mpr hlegible, (hwritten e).mpr hlegible⟩

/-- A host with a colon and a blank at its end, among blanks, and a port with a plus sign. A host
that begins with a blank is read as another one. -/
theorem spelled_and_shown_loose :
    Spells " a:b :+0080\t".toList ⟨"a:b ", 80⟩ ∧ parse "a:b :80" = .ok ⟨"a:b ", 80⟩ ∧
      readDocument readEndpoint (.parse "\"a:b :80\"") = .ok ⟨"a:b ", 80⟩ ∧
      parse (toText ⟨" a", 1⟩) ≠ .ok ⟨" a", 1⟩ := by
  obtain ⟨hspelled, hshown, -, hback⟩ := spelled_and_shown
  have hread : parse " a:b :+0080\t" = .ok ⟨"a:b ", 80⟩ := by decide
  obtain ⟨htext, hdocument⟩ := hback _ _ hread
  exact ⟨(hspelled _ _).mp hread, htext, hdocument, fun h => absurd ((hshown _).mp h) (by decide)⟩

end Endpoint
end Holdfast
