import Holdfast.Lock.Token
import Holdfast.Proofs.Bytes.Digits

namespace Holdfast

namespace Lock.Token

@[simp] theorem length_bytes (t : Token) : t.bytes.length = length := by
  simp [bytes, length]

/-- Decoding what a token was written as gives the token. -/
@[simp] theorem ofBytes?_bytes (t : Token) : ofBytes? t.bytes = some t := by
  have howner : Bytes.value (t.bytes.take 16) = t.owner.toNat := by
    have ht : t.bytes.take 16 = Bytes.bigEndian 16 t.owner.toNat :=
      List.take_left' (Bytes.length_bigEndian ..)
    rw [ht, Bytes.value_bigEndian]
    exact Nat.mod_eq_of_lt t.owner.isLt
  have hexpiry : Bytes.value (t.bytes.drop 16) = t.expiry.toNat := by
    have ht : t.bytes.drop 16 = Bytes.bigEndian 8 t.expiry.toNat :=
      List.drop_left' (Bytes.length_bigEndian ..)
    rw [ht, Bytes.value_bigEndian]
    exact Nat.mod_eq_of_lt t.expiry.toNat_lt
  simp [ofBytes?, howner, hexpiry]

theorem bytes_injective : Function.Injective bytes := by
  intro a b h
  have := congrArg ofBytes? h
  simpa using this

@[simp] theorem bytes_inj {a b : Token} : a.bytes = b.bytes ↔ a = b :=
  bytes_injective.eq_iff

end Lock.Token

namespace Lock

/-- A stored token is stale exactly when its expiry has passed. -/
@[simp] theorem isStale_bytes (t : Token) (now : UInt64) :
    isStale t.bytes now = decide (t.expiry < now) := by
  simp [isStale, Token.isExpired]

/-- A token that was judged stale had expired by the wall clock it was judged at. -/
theorem expiry_lt_of_isStale {t : Token} {clock : Nat}
    (h : isStale t.bytes (UInt64.ofNat clock) = true) : t.expiry.toNat < clock := by
  have hlt : t.expiry < UInt64.ofNat clock := by simpa using h
  have hmod : (UInt64.ofNat clock).toNat ≤ clock := by
    rw [UInt64.toNat_ofNat']
    exact Nat.mod_le clock (2 ^ 64)
  exact Nat.lt_of_lt_of_le (UInt64.lt_iff_toNat_lt.mp hlt) hmod

end Lock
end Holdfast
