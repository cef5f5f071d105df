import Holdfast.Proofs.Token

namespace Holdfast

namespace Lock

open Bytes (number value)

namespace Token

variable {bs : Bytes} {t : Token}

theorem exists_ofBytes?_iff : (∃ t, ofBytes? bs = some t) ↔ bs.length = 24 := by
  unfold ofBytes? length
  split <;> simp_all

/-- What is read from bytes: the number of the first sixteen, and that of the last eight. -/
theorem fields_of_ofBytes? (h : ofBytes? bs = some t) :
    t.owner.toNat = value (bs.take 16) ∧ t.expiry.toNat = value (bs.drop 16) := by
  have hlength : bs.length = 24 := exists_ofBytes?_iff.mp ⟨t, h⟩
  have howner : value (bs.take 16) < 2 ^ 128 := by
    have hlt := Bytes.value_lt (bs.take 16)
    rwa [List.length_take_of_le (by omega)] at hlt
  have hexpiry : value (bs.drop 16) < 2 ^ 64 := by
    have hlt := Bytes.value_lt (bs.drop 16)
    rwa [List.length_drop, hlength] at hlt
  unfold ofBytes? at h
  split at h
  · cases h
    exact ⟨Nat.mod_eq_of_lt howner, Nat.mod_eq_of_lt hexpiry⟩
  · cases h

theorem bytes_of_ofBytes? (h : ofBytes? bs = some t) : t.bytes = bs := by
  have hlength : bs.length = 24 := exists_ofBytes?_iff.mp ⟨t, h⟩
  obtain ⟨howner, hexpiry⟩ := fields_of_ofBytes? h
  have hfront : (bs.take 16).length = 16 := List.length_take_of_le (by omega)
  have hback : (bs.drop 16).length = 8 := by rw [List.length_drop, hlength]
  calc t.bytes
      = Bytes.bigEndian 16 (value (bs.take 16)) ++ Bytes.bigEndian 8 (value (bs.drop 16)) := by
        rw [bytes, howner, hexpiry]
    _ = bs.take 16 ++ bs.drop 16 := by
        rw [Bytes.bigEndian_value hfront, Bytes.bigEndian_value hback]
    _ = bs := List.take_append_drop 16 bs

theorem numbers_of_ofBytes? (h : ofBytes? bs = some t) :
    number (bs.reverse.drop 8) = t.owner.toNat ∧ number (bs.reverse.take 8) = t.expiry.toNat := by
  have hlength : bs.length = 24 := exists_ofBytes?_iff.mp ⟨t, h⟩
  obtain ⟨howner, hexpiry⟩ := fields_of_ofBytes? h
  rw [List.drop_reverse, List.take_reverse, hlength, ← Bytes.value_eq_number,
    ← Bytes.value_eq_number]
  exact ⟨howner.symm, hexpiry.symm⟩

theorem ofBytes?_eq_some_iff : ofBytes? bs = some t ↔ t.bytes = bs :=
  ⟨bytes_of_ofBytes?, fun h => h ▸ ofBytes?_bytes t⟩

end Token

/-- What is stored is stale unless it is a token whose expiry has not passed. -/
theorem isStale_iff {bs : Bytes} {now : UInt64} :
    isStale bs now = true ↔ bs.length ≠ 24 ∨ number (bs.reverse.take 8) < now.toNat := by
  cases h : Token.ofBytes? bs with
  | none =>
    have hlength : bs.length ≠ 24 := by
      intro hlength
      obtain ⟨t, ht⟩ := Token.exists_ofBytes?_iff.mpr hlength
      rw [h] at ht
      cases ht
    simp [isStale, h, hlength]
  | some t =>
    have hlength : bs.length = 24 := Token.exists_ofBytes?_iff.mp ⟨t, h⟩
    obtain ⟨-, hexpiry⟩ := Token.numbers_of_ofBytes? h
    simp [isStale, h, hlength, Token.isExpired, UInt64.lt_iff_toNat_lt, hexpiry]

theorem isStale_mono {bs : Bytes} {now later : UInt64} (hle : now ≤ later)
    (h : isStale bs now = true) : isStale bs later = true := by
  rw [isStale_iff] at h ⊢
  have hle' := UInt64.le_iff_toNat_le.mp hle
  omega

/-- Owner and expiry can be read off the bytes of their token, most significant byte first. Just the
strings of 24 bytes can be read, each as the one token that is written so. A stored value is stale
when it is no token, and once the time is past the number in its last eight bytes, for good. -/
theorem token_codec :
    (∀ owner expiry, number ((Token.bytes ⟨owner, expiry⟩).reverse.drop 8) = owner.toNat ∧
      number ((Token.bytes ⟨owner, expiry⟩).reverse.take 8) = expiry.toNat) ∧
    (∀ bs, (∃ t, Token.ofBytes? bs = some t) ↔ bs.length = 24) ∧
    (∀ bs t, Token.ofBytes? bs = some t ↔ t.bytes = bs) ∧
    (∀ t u : Token, t.bytes = u.bytes ↔ t.owner = u.owner ∧ t.expiry = u.expiry) ∧
    (∀ bs now, isStale bs now = true ↔
      bs.length ≠ 24 ∨ number (bs.reverse.take 8) < now.toNat) ∧
    ∀ bs now later, now ≤ later → isStale bs now = true → isStale bs later = true := by
  refine ⟨?_, fun bs => Token.exists_ofBytes?_iff, fun bs t => Token.ofBytes?_eq_some_iff, ?_,
    fun bs now => isStale_iff, fun bs now later => isStale_mono⟩
  · intro owner expiry
    exact Token.numbers_of_ofBytes? (Token.ofBytes?_bytes ⟨owner, expiry⟩)
  · intro t u
    rw [Token.bytes_inj, Token.mk.injEq]

/-- A token that expires at 1000 is not stale then, but is a millisecond later and ever after. -/
theorem token_codec_expired : (1001 : UInt64) ≤ 5000 ∧
    isStale (Token.bytes ⟨7, 1000⟩) 1000 = false ∧ isStale (Token.bytes ⟨7, 1000⟩) 1001 = true ∧
    isStale (Token.bytes ⟨7, 1000⟩) 5000 = true := by
  obtain ⟨hread, -, -, -, hstale, hlater⟩ := token_codec
  have hexpiry : number ((Token.bytes ⟨7, 1000⟩).reverse.take 8) = 1000 := (hread 7 1000).2
  have hiff : ∀ now : UInt64, isStale (Token.bytes ⟨7, 1000⟩) now = true ↔ 1000 < now.toNat := by
    intro now
    rw [hstale, hexpiry, Token.length_bytes]
    simp [Token.length]
  have hafter : isStale (Token.bytes ⟨7, 1000⟩) 1001 = true := (hiff 1001).mpr (by decide)
  refine ⟨by decide, ?_, hafter, hlater _ 1001 5000 (by decide) hafter⟩
  exact Bool.eq_false_iff.mpr fun h => absurd ((hiff 1000).mp h) (by decide)

end Lock
end Holdfast
