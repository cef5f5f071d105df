import Holdfast.Text.Blank
import Holdfast.Text.Decimal
import Mathlib.Data.List.DropRight

namespace Holdfast.Text

/-- A word: it is not empty, and nothing in it is blank. -/
def IsWord (cs : List Char) : Prop := cs ≠ [] ∧ ∀ c ∈ cs, isBlank c = false

theorem isWord_iff {cs : List Char} :
    (!cs.isEmpty && cs.all fun c => !isBlank c) = true ↔ IsWord cs := by
  simp [IsWord]

instance : DecidablePred IsWord := fun _ => decidable_of_iff _ isWord_iff

theorem pieces_append (cs : List Char) {c : Char} (hc : isBlank c = true) (ds : List Char) :
    pieces (cs ++ c :: ds) = ((pieces cs).1, (pieces cs).2 ++ (pieces ds).1 :: (pieces ds).2) := by
  induction cs with
  | nil => simp [pieces, hc]
  | cons a cs ih => by_cases ha : isBlank a = true <;> simp [pieces, ha, ih]

theorem pieces_word {w : List Char} (hw : ∀ c ∈ w, isBlank c = false) : pieces w = (w, []) := by
  induction w with
  | nil => rfl
  | cons a w ih =>
    have ha := hw a List.mem_cons_self
    have hrest := ih fun c h => hw c (List.mem_cons_of_mem _ h)
    simp [pieces, ha, hrest]

/-- A blank ends a word, if there is one. -/
theorem words_split (cs : List Char) {c : Char} (hc : isBlank c = true) (ds : List Char) :
    words (cs ++ c :: ds) = words cs ++ words ds := by
  unfold words
  rw [pieces_append cs hc]
  exact List.filter_append (_ :: _) _

theorem words_word {w : List Char} (hw : IsWord w) : words w = [w] := by
  unfold words
  rw [pieces_word hw.2]
  simp [hw.1]

/-- A word before a blank is the first word. -/
theorem words_append {w : List Char} (hw : IsWord w) {c : Char} (hc : isBlank c = true)
    (cs : List Char) : words (w ++ c :: cs) = w :: words cs := by
  rw [words_split w hc, words_word hw]
  rfl

theorem trimStart_eq_self {cs : List Char} (h : ∀ c, cs.head? = some c → isBlank c = false) :
    trimStart cs = cs := by
  cases cs with
  | nil => rfl
  | cons c cs => simp [trimStart, h c rfl]

/-- A text that neither begins nor ends with a blank stays as it is. -/
theorem trim_eq_self {cs : List Char} (hstart : ∀ c, cs.head? = some c → isBlank c = false)
    (hend : ∀ c, cs.getLast? = some c → isBlank c = false) : trim cs = cs := by
  have hreverse : trimStart cs.reverse = cs.reverse :=
    trimStart_eq_self fun c hc => hend c (by rwa [List.head?_reverse] at hc)
  rw [trim, trimStart_eq_self hstart]
  exact (congrArg List.reverse hreverse).trans cs.reverse_reverse

/-- What is left of a text does not begin with a blank. -/
theorem isBlank_head_trim {cs : List Char} {c : Char} (h : (trim cs).head? = some c) :
    isBlank c = false := by
  obtain ⟨rest, hrest⟩ : trim cs <+: trimStart cs := List.rdropWhile_prefix isBlank _
  have hhead : (trimStart cs).head? = some c := by rw [← hrest, List.head?_append, h]; rfl
  have := List.head?_dropWhile_not isBlank cs
  rw [trimStart] at hhead
  simpa [hhead] using this

theorem isDigit_iff {c : Char} : c.isDigit = true ↔ '0' ≤ c ∧ c ≤ '9' := by
  simp [Char.isDigit, Char.le_def, UInt32.le_iff_toNat_le]

/-- Digits are read as the number that they stand for. -/
theorem readDigits?_eq {cs : List Char} (h : ∀ c ∈ cs, c.isDigit = true) (acc : Nat) :
    readDigits? acc cs = some (Nat.ofDigitChars 10 cs acc) := by
  induction cs generalizing acc with
  | nil => rfl
  | cons c cs ih =>
    have hc := isDigit_iff.mp (h c List.mem_cons_self)
    have hvalue : digitValue? c = some (c.toNat - '0'.toNat) := by
      unfold digitValue?
      rw [if_pos hc]
    have hrest := ih (fun c h' => h c (List.mem_cons_of_mem _ h')) (acc * 10 + (c.toNat - '0'.toNat))
    rw [readDigits?, hvalue, Option.bind_some, hrest, Nat.ofDigitChars_cons, Nat.mul_comm]

theorem isDigit_decimal {n : Nat} {c : Char} (h : c ∈ decimal n) : c.isDigit = true :=
  Nat.isDigit_of_mem_toDigits (by decide) (by decide) h

theorem decimal_ne_nil (n : Nat) : decimal n ≠ [] := Nat.toDigits_ne_nil

/-- A number is read back from its digits. -/
theorem readNat?_decimal (n : Nat) : readNat? (decimal n) = some n := by
  obtain ⟨c, cs, hcs⟩ := List.exists_cons_of_ne_nil (decimal_ne_nil n)
  have hdigits : readDigits? 0 (decimal n) = some n := by
    rw [readDigits?_eq fun c => isDigit_decimal]
    exact congrArg some (Nat.ofDigitChars_toDigits (by decide) (by decide))
  rw [hcs] at hdigits ⊢
  exact hdigits

theorem readUpTo?_decimal {limit n : Nat} (h : n ≤ limit) : readUpTo? limit (decimal n) = some n := by
  have hplus : ∀ rest, decimal n ≠ '+' :: rest := by
    intro rest he
    have hdigit := isDigit_decimal (n := n) (c := '+') (by simp [he])
    exact absurd hdigit (by decide)
  unfold readUpTo?
  split
  · next rest he => exact absurd he (hplus rest)
  · dsimp only
    rw [readNat?_decimal]
    simp [h]

/-- Digits are no blanks. -/
theorem isWord_decimal (n : Nat) : IsWord (decimal n) := by
  refine ⟨decimal_ne_nil n, ?_⟩
  intro c hc
  obtain ⟨hlow, hhigh⟩ := isDigit_iff.mp (isDigit_decimal hc)
  have hlow' : 48 ≤ c.toNat := hlow
  have hhigh' : c.toNat ≤ 57 := hhigh
  simp [isBlank]
  omega

end Holdfast.Text
