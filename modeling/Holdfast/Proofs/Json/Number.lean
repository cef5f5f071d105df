import Holdfast.Proofs.Json.Plain
import Holdfast.Proofs.Text
import Mathlib.Data.List.TakeWhile

namespace Holdfast.Json.Number

open Text

theorem isDigit_decimal {n : Nat} {c : Char} (h : c ∈ decimal n) : isDigit c = true := by
  simpa [isDigit] using isDigit_iff.mp (Text.isDigit_decimal h)

theorem takeWhile_decimal (n : Nat) : (decimal n).takeWhile isDigit = decimal n :=
  List.takeWhile_eq_self_iff.mpr fun _ => isDigit_decimal

theorem dropWhile_decimal (n : Nat) : (decimal n).dropWhile isDigit = [] :=
  List.dropWhile_eq_nil_iff.mpr fun _ => isDigit_decimal

/-- A number is written without leading zeros. -/
theorem decimal_head {n : Nat} (h : (decimal n).head? = some '0') : n = 0 := by
  induction n using Nat.strongRecOn with
  | ind n ih =>
    by_cases hn : n < 10
    · rw [decimal, Nat.toDigits_of_lt_base hn] at h
      interval_cases n <;> simp_all [Nat.digitChar]
    · have hdigits : decimal n = decimal (n / 10) ++ [Nat.digitChar (n % 10)] :=
        Nat.toDigits_of_base_le (by decide) (by omega)
      obtain ⟨c, cs, hcs⟩ := List.exists_cons_of_ne_nil (decimal_ne_nil (n / 10))
      have hhead : (decimal (n / 10)).head? = some '0' := by
        rw [hdigits, hcs] at h
        rw [hcs]
        exact h
      have := ih (n / 10) (by omega) hhead
      omega

theorem length_decimal_of_head {n : Nat} (h : (decimal n).head? = some '0') :
    (decimal n).length = 1 := by
  rw [decimal_head h]
  rfl

/-- The characters of a whole number are its sign and its digits. -/
theorem toChars_ofInt (i : Int) :
    (ofInt i).toChars = (if i < 0 then ['-'] else []) ++ decimal i.natAbs := by
  simp [ofInt, toChars]

/-- A whole number is read back from its characters. -/
theorem ofChars?_ofInt (i : Int) : ofChars? (ofInt i).toChars = some (ofInt i) := by
  have hminus : ∀ rest, decimal i.natAbs ≠ '-' :: rest := by
    intro rest he
    have hdigit := isDigit_decimal (n := i.natAbs) (c := '-') (by simp [he])
    exact absurd hdigit (by decide)
  rw [toChars_ofInt]
  by_cases hi : i < 0
  · simpa [hi, ofChars?, takeWhile_decimal, dropWhile_decimal, decimal_ne_nil, exponentOf?, ofInt]
      using length_decimal_of_head
  · simpa [hi, ofChars?, takeWhile_decimal, dropWhile_decimal, decimal_ne_nil, exponentOf?, ofInt]
      using length_decimal_of_head

/-- A whole number keeps its value. -/
theorem toInt?_ofInt (i : Int) : (ofInt i).toInt? = some i := by
  have hvalue : (if i < 0 then -(i.natAbs : Int) else i.natAbs) = i := by split <;> omega
  have hzero : i < 0 → decimal i.natAbs ≠ ['0'] := by
    intro hi hdigits
    have := decimal_head (n := i.natAbs) (by rw [hdigits]; rfl)
    omega
  have hinteger : ((ofInt i).fraction.isEmpty && (ofInt i).exponent.isNone &&
      !((ofInt i).negative && (ofInt i).whole = ['0'])) = true := by
    by_cases hi : i < 0
    · simp [ofInt, hi, hzero hi]
    · simp [ofInt, hi]
  rw [toInt?, if_pos hinteger, ofInt, readNat?_decimal]
  simpa using hvalue

theorem isProper_ofInt (i : Int) : (ofInt i).isProper = true := by
  have hall : ∀ c ∈ decimal i.natAbs, Lexer.isNumeric c = true := by
    intro c hc
    simp [Lexer.isNumeric, isDigit_decimal hc]
  obtain ⟨c, cs, hcs⟩ := List.exists_cons_of_ne_nil (decimal_ne_nil i.natAbs)
  have hc : isDigit c = true := isDigit_decimal (n := i.natAbs) (by simp [hcs])
  rw [isProper, ofChars?_ofInt, toChars_ofInt]
  split
  · simpa [Lexer.isNumeric] using hall
  · simp only [List.nil_append, decide_true, Bool.true_and, Bool.and_eq_true, List.all_eq_true]
    exact ⟨hall, by simp [hcs, hc]⟩

end Holdfast.Json.Number
