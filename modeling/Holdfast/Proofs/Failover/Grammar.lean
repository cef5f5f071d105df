import Holdfast.Failover.Announcement
import Holdfast.Proofs.Endpoint.Grammar

namespace Holdfast.Failover.Announcement

open Text

/-- Five words are a name and two endpoints, of which the old one is read first. -/
theorem parse_of_five {s : String} {name oldHost oldPort newHost newPort : List Char}
    (h : Spaced [name, oldHost, oldPort, newHost, newPort] s.toList) : parse s =
      (readEndpoint oldHost oldPort).bind fun old => (readEndpoint newHost newPort).bind fun new =>
        .ok ⟨String.ofList name, old, new⟩ := by
  unfold parse
  rw [h.words_eq]
  rfl

theorem parse_of_other {s : String} {ws : List (List Char)} (h : Spaced ws s.toList)
    (hlength : ws.length ≠ 5) : parse s = .error (.fieldCount ws.length) := by
  unfold parse
  rw [h.words_eq]
  split
  · exact absurd rfl hlength
  · rfl

theorem readEndpoint_eq_ok {host port : List Char} {e : Endpoint} :
    readEndpoint host port = .ok e ↔ Endpoint.ofParts host port = .ok e := by
  unfold readEndpoint
  cases Endpoint.ofParts host port <;> simp [Except.mapError]

theorem readEndpoint_unreadable {port : List Char} (h : ∀ p : UInt16, ¬ IsNumeral port p.toNat)
    (host : List Char) :
    readEndpoint host port = .error (.endpoint ⟨String.ofList (host ++ ':' :: port)⟩) := by
  unfold readEndpoint
  rw [Endpoint.ofParts_unreadable h]
  rfl

theorem readEndpoint_readable {host port : List Char} {p : UInt16} (hhost : host ≠ [])
    (h : IsNumeral port p.toNat) : readEndpoint host port = .ok ⟨String.ofList host, p⟩ :=
  readEndpoint_eq_ok.mpr (Endpoint.ofParts_eq_ok.mpr ⟨hhost, String.toList_ofList.symm, h⟩)

/-- A text announces a switch just if it has five words of which the third and the fifth are ports;
the name and the hosts are taken as they stand. -/
theorem parse_eq_ok {s : String} {ws : List (List Char)} (h : Spaced ws s.toList)
    {a : Announcement} : parse s = .ok a ↔ ∃ oldPort newPort,
      ws = [a.shard.toList, a.old.host.toList, oldPort, a.new.host.toList, newPort] ∧
      IsNumeral oldPort a.old.port.toNat ∧ IsNumeral newPort a.new.port.toNat := by
  constructor
  · intro hparse
    by_cases hlength : ws.length = 5
    · obtain ⟨name, rest, rfl⟩ := List.exists_cons_of_length_eq_add_one hlength
      obtain ⟨oldHost, oldPort, newHost, newPort, rfl⟩ :=
        List.length_eq_four.mp (Nat.succ.inj hlength)
      rw [parse_of_five h] at hparse
      cases hold : readEndpoint oldHost oldPort with
      | error _ =>
        rw [hold] at hparse
        cases hparse
      | ok old =>
        cases hnew : readEndpoint newHost newPort with
        | error _ =>
          rw [hold, hnew] at hparse
          cases hparse
        | ok new =>
          rw [hold, hnew] at hparse
          cases hparse
          obtain ⟨-, rfl, holdPort⟩ := Endpoint.ofParts_eq_ok.mp (readEndpoint_eq_ok.mp hold)
          obtain ⟨-, rfl, hnewPort⟩ := Endpoint.ofParts_eq_ok.mp (readEndpoint_eq_ok.mp hnew)
          exact ⟨oldPort, newPort, by rw [String.toList_ofList], holdPort, hnewPort⟩
    · rw [parse_of_other h hlength] at hparse
      cases hparse
  · rintro ⟨oldPort, newPort, rfl, hold, hnew⟩
    have hwords := h.isWord
    simp only [List.forall_mem_cons] at hwords
    obtain ⟨-, holdHost, -, hnewHost, -⟩ := hwords
    rw [parse_of_five h, readEndpoint_readable holdHost.1 hold,
      readEndpoint_readable hnewHost.1 hnew]
    simp only [String.ofList_toList]
    rfl

/-- Every text has its words, and they alone decide what it announces, wherever and whichever blanks
stand between and around them: a switch if there are five of them, of which the third and the fifth
are ports. Else the number of words is reported if it is another one, and if not, the first endpoint
whose port is none. -/
theorem announces_by_words :
    (∀ s : String, ∃! ws, Spaced ws s.toList) ∧
    ∀ {s : String} {ws : List (List Char)}, Spaced ws s.toList →
      (∀ t : String, Spaced ws t.toList → parse t = parse s) ∧
      (∀ a, parse s = .ok a ↔ ∃ oldPort newPort,
        ws = [a.shard.toList, a.old.host.toList, oldPort, a.new.host.toList, newPort] ∧
        IsNumeral oldPort a.old.port.toNat ∧ IsNumeral newPort a.new.port.toNat) ∧
      (ws.length ≠ 5 → parse s = .error (.fieldCount ws.length)) ∧
      ∀ {name oldHost oldPort newHost newPort : List Char},
        ws = [name, oldHost, oldPort, newHost, newPort] →
        ((∀ p : UInt16, ¬ IsNumeral oldPort p.toNat) →
          parse s = .error (.endpoint ⟨String.ofList (oldHost ++ ':' :: oldPort)⟩)) ∧
        ((∃ p : UInt16, IsNumeral oldPort p.toNat) → (∀ p : UInt16, ¬ IsNumeral newPort p.toNat) →
          parse s = .error (.endpoint ⟨String.ofList (newHost ++ ':' :: newPort)⟩)) := by
  refine ⟨?_, ?_⟩
  · intro s
    exact ⟨words s.toList, spaced_words s.toList, fun ws h => h.words_eq.symm⟩
  · intro s ws h
    refine ⟨?_, fun a => parse_eq_ok h, parse_of_other h, ?_⟩
    · intro t ht
      unfold parse
      rw [ht.words_eq, h.words_eq]
    · rintro name oldHost oldPort newHost newPort rfl
      rw [parse_of_five h]
      refine ⟨?_, ?_⟩
      · intro hold
        rw [readEndpoint_unreadable hold]
        rfl
      · rintro ⟨p, hold⟩ hnew
        have hwords := h.isWord
        simp only [List.forall_mem_cons] at hwords
        obtain ⟨-, holdHost, -⟩ := hwords
        rw [readEndpoint_readable holdHost.1 hold, readEndpoint_unreadable hnew]
        rfl

/-- Blanks of several kinds, a plus sign and a zero; a port beyond the last one before a text that is
no port at all; and a word that is missing. -/
theorem announces_by_words_loose :
    parse "\ta  h\u00a0+06379 i 65535\n" = .ok ⟨"a", ⟨"h", 6379⟩, ⟨"i", 65535⟩⟩ ∧
      parse "a h +06379 i 65535" = parse "\ta  h\u00a0+06379 i 65535\n" ∧
      parse "a h 65536 i x" = .error (.endpoint ⟨"h:65536"⟩) ∧
      parse "a h 1 i" = .error (.fieldCount 4) := by
  have hloose : Spaced (["a", "h", "+06379", "i", "65535"].map String.toList)
      "\ta  h\u00a0+06379 i 65535\n".toList := words_eq_iff.mp (by decide)
  have hplain : Spaced (["a", "h", "+06379", "i", "65535"].map String.toList)
      "a h +06379 i 65535".toList := words_eq_iff.mp (by decide)
  have hbad : Spaced (["a", "h", "65536", "i", "x"].map String.toList)
      "a h 65536 i x".toList := words_eq_iff.mp (by decide)
  have hshort : Spaced (["a", "h", "1", "i"].map String.toList) "a h 1 i".toList :=
    words_eq_iff.mp (by decide)
  obtain ⟨hsame, hswitch, -⟩ := announces_by_words.2 hloose
  obtain ⟨-, -, -, hports⟩ := announces_by_words.2 hbad
  obtain ⟨-, -, hcount, -⟩ := announces_by_words.2 hshort
  refine ⟨(hswitch _).mpr ⟨_, _, rfl, ?_, ?_⟩, hsame _ hplain, (hports rfl).1 ?_, hcount (by decide)⟩
  · exact Endpoint.readPort?_eq_some_iff.mp (by decide)
  · exact Endpoint.readPort?_eq_some_iff.mp (by decide)
  · exact Endpoint.readPort?_eq_none_iff.mp (by decide)

end Holdfast.Failover.Announcement
