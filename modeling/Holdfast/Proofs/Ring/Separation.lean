import Holdfast.Proofs.Bytes.Digits
import Holdfast.Ring
import Mathlib.Logic.Function.Basic

namespace Holdfast.Ring

open Function (Bijective Injective Involutive)

def divisor : UInt64 := 0x5f7a0ea7e59b19bd

theorem multiplier_mul_divisor : multiplier * divisor = 1 := by decide

theorem bijective_multiply : Bijective (· * multiplier) := by
  have hdivide : ∀ h : UInt64, h * multiplier * divisor = h := by
    intro h
    rw [UInt64.mul_assoc, multiplier_mul_divisor, UInt64.mul_one]
  have hmultiply : ∀ h : UInt64, h * divisor * multiplier = h := by
    intro h
    rw [UInt64.mul_assoc, UInt64.mul_comm divisor, multiplier_mul_divisor, UInt64.mul_one]
  exact Function.bijective_iff_has_inverse.mpr ⟨(· * divisor), hdivide, hmultiply⟩

theorem involutive_xor (k : UInt64) : Involutive (· ^^^ k) := by
  intro h
  calc h ^^^ k ^^^ k
      = h ^^^ (k ^^^ k) := UInt64.xor_assoc h k k
    _ = h := by rw [UInt64.xor_self, UInt64.xor_zero]

theorem shiftRight_twice (h : UInt64) : h >>> 47 >>> 47 = 0 := by
  have hlt : h.toNat < 2 ^ 94 := Nat.lt_trans h.toNat_lt (by decide)
  apply UInt64.toNat_inj.mp
  calc (h >>> 47 >>> 47).toNat
      = h.toNat >>> 47 >>> 47 := by
        simp only [UInt64.toNat_shiftRight, UInt64.reduceToNat, Nat.reduceMod]
    _ = h.toNat >>> 94 := (Nat.shiftRight_add h.toNat 47 47).symm
    _ = 0 := Nat.shiftRight_eq_zero h.toNat 94 hlt

/-- Folding twice gives the word back: what is moved down twice is all gone. -/
theorem involutive_foldHigh : Involutive foldHigh := by
  intro h
  calc foldHigh (foldHigh h)
      = h ^^^ (h >>> 47) ^^^ (h >>> 47 ^^^ h >>> 47 >>> 47) := by
        rw [foldHigh, foldHigh, UInt64.shiftRight_xor]
    _ = h ^^^ (h >>> 47) ^^^ (h >>> 47) := by rw [shiftRight_twice, UInt64.xor_zero]
    _ = h := involutive_xor (h >>> 47) h

theorem bijective_foldHigh : Bijective foldHigh := involutive_foldHigh.bijective

theorem bijective_scramble : Bijective scramble :=
  bijective_multiply.comp (bijective_foldHigh.comp bijective_multiply)

theorem bijective_absorb (k : UInt64) : Bijective (absorb · k) :=
  bijective_multiply.comp (involutive_xor (scramble k)).bijective

theorem injective_absorb (h : UInt64) : Injective (absorb h) := by
  have hxor : Injective (h ^^^ ·) := by
    intro k l heq
    simpa using heq
  exact bijective_multiply.injective.comp (hxor.comp bijective_scramble.injective)

theorem bijective_absorbTail (tail : Bytes) : Bijective (absorbTail · tail) := by
  cases tail with
  | nil => exact Function.bijective_id
  | cons b bs =>
    exact bijective_multiply.comp (involutive_xor (Bytes.littleEndian (b :: bs))).bijective

theorem absorbTail_ne {tail tail' : Bytes} (hlength : tail.length = tail'.length)
    (hshort : tail.length ≤ 8) (hne : tail ≠ tail') (h : UInt64) :
    absorbTail h tail ≠ absorbTail h tail' := by
  intro heq
  cases tail with
  | nil => exact hne (List.eq_nil_of_length_eq_zero hlength.symm).symm
  | cons b bs =>
    cases tail' with
    | nil => cases hlength
    | cons b' bs' =>
      have hxor := bijective_multiply.injective heq
      exact hne (Bytes.littleEndian_inj hlength hshort (UInt64.xor_right_inj h |>.mp hxor))

theorem bijective_finish : Bijective finish :=
  bijective_foldHigh.comp (bijective_multiply.comp bijective_foldHigh)

/-- The state after a whole text: its blocks, and then what is left over. -/
def drain (h : UInt64) (data : Bytes) : UInt64 :=
  absorbTail (absorbBlocks h data).1 (absorbBlocks h data).2

theorem murmur_eq (seed : UInt64) (data : Bytes) :
    murmur seed data = finish (drain (seed ^^^ (UInt64.ofNat data.length * multiplier)) data) :=
  rfl

theorem drain_block {block : Bytes} (hblock : block.length = 8) (h : UInt64) (rest : Bytes) :
    drain h (block ++ rest) = drain (absorb h (Bytes.littleEndian block)) rest := by
  match block, hblock with
  | [_, _, _, _, _, _, _, _], _ => rfl

theorem drain_tail {tail : Bytes} (htail : tail.length < 8) (h : UInt64) :
    drain h tail = absorbTail h tail := by
  have hblocks : absorbBlocks h tail = (h, tail) := by
    fun_cases absorbBlocks h tail with
    | case1 => simp at htail; omega
    | case2 => rfl
  rw [drain, hblocks]

/-- A text is short of a block, or begins with one. -/
@[elab_as_elim]
theorem blocks_induction {P : Bytes → Prop} (tail : ∀ tail, tail.length < 8 → P tail)
    (block : ∀ block rest, block.length = 8 → P rest → P (block ++ rest)) (data : Bytes) :
    P data := by
  induction hlength : data.length using Nat.strongRecOn generalizing data with
  | ind n ih =>
    rcases Nat.lt_or_ge data.length 8 with hshort | hlong
    · exact tail data hshort
    · rw [← List.take_append_drop 8 data]
      refine block _ _ (by simpa using hlong) (ih _ ?_ (data.drop 8) rfl)
      simp
      omega

theorem bijective_drain (data : Bytes) : Bijective (drain · data) := by
  induction data using blocks_induction with
  | tail tail htail =>
    have heq : (drain · tail) = (absorbTail · tail) := funext (drain_tail htail)
    rw [heq]
    exact bijective_absorbTail tail
  | block block rest hblock ih =>
    have heq : (drain · (block ++ rest)) =
        (drain · rest) ∘ (absorb · (Bytes.littleEndian block)) :=
      funext fun h => drain_block hblock h rest
    rw [heq]
    exact ih.comp (bijective_absorb (Bytes.littleEndian block))

/-- Two texts of one length that are not the same, but are so outside of a single block of eight
bytes. The blocks are counted from zero; the last one is what is left over, and may be short. -/
structure DifferWithin (block : Nat) (data data' : Bytes) : Prop where
  length_eq : data.length = data'.length
  ne : data ≠ data'
  agree : ∀ i < data.length, i / 8 ≠ block → data[i]? = data'[i]?

namespace DifferWithin

variable {n : Nat} {data data' block block' rest rest' : Bytes}

theorem eq_of_agree (hlength : data.length = data'.length)
    (h : ∀ i < data.length, data[i]? = data'[i]?) : data = data' := by
  apply List.ext_getElem?'
  intro i hi
  rw [← hlength, Nat.max_self] at hi
  exact h i hi

theorem rest_length (h : DifferWithin n (block ++ rest) (block' ++ rest'))
    (hblock : block.length = 8) (hblock' : block'.length = 8) : rest.length = rest'.length := by
  have hlength := h.length_eq
  simp at hlength
  omega

theorem agree_block (h : DifferWithin n (block ++ rest) (block' ++ rest'))
    (hblock : block.length = 8) (hblock' : block'.length = 8) (hn : n ≠ 0) : block = block' := by
  apply eq_of_agree (hblock.trans hblock'.symm)
  intro i hi
  have heq := h.agree i (by simp; omega) (by omega)
  rwa [List.getElem?_append_left hi, List.getElem?_append_left (by omega)] at heq

theorem agree_rest (h : DifferWithin n (block ++ rest) (block' ++ rest'))
    (hblock : block.length = 8) (hblock' : block'.length = 8) {i : Nat} (hi : i < rest.length)
    (hn : i / 8 + 1 ≠ n) : rest[i]? = rest'[i]? := by
  have heq := h.agree (8 + i) (by simp; omega) (by omega)
  rwa [List.getElem?_append_right (by omega), List.getElem?_append_right (by omega), hblock,
    hblock', Nat.add_sub_cancel_left] at heq

theorem first (h : DifferWithin 0 (block ++ rest) (block' ++ rest')) (hblock : block.length = 8)
    (hblock' : block'.length = 8) : block ≠ block' ∧ rest = rest' := by
  have hrest : rest = rest' :=
    eq_of_agree (h.rest_length hblock hblock') fun i hi =>
      h.agree_rest hblock hblock' hi (Nat.succ_ne_zero _)
  refine ⟨?_, hrest⟩
  rintro rfl
  exact h.ne (by rw [hrest])

theorem later (h : DifferWithin (n + 1) (block ++ rest) (block' ++ rest'))
    (hblock : block.length = 8) (hblock' : block'.length = 8) :
    block = block' ∧ DifferWithin n rest rest' := by
  have hfirst : block = block' := h.agree_block hblock hblock' (Nat.succ_ne_zero n)
  refine ⟨hfirst, h.rest_length hblock hblock', ?_, ?_⟩
  · rintro rfl
    exact h.ne (by rw [hfirst])
  · intro i hi hn
    exact h.agree_rest hblock hblock' hi (by omega)

end DifferWithin

/-- A difference within a single block is still there when all has been absorbed. -/
theorem DifferWithin.drain_ne {n : Nat} {data data' : Bytes} (h : DifferWithin n data data')
    (state : UInt64) : drain state data ≠ drain state data' := by
  induction data using blocks_induction generalizing n data' state with
  | tail tail htail =>
    rw [drain_tail htail, drain_tail (h.length_eq ▸ htail)]
    exact absorbTail_ne h.length_eq (Nat.le_of_lt htail) h.ne state
  | block block rest hblock ih =>
    have hlong : 8 ≤ data'.length := by
      rw [← h.length_eq, List.length_append, hblock]
      exact Nat.le_add_right 8 rest.length
    obtain ⟨block', rest', hblock', rfl⟩ : ∃ block' rest', block'.length = 8 ∧
        block' ++ rest' = data' :=
      ⟨data'.take 8, data'.drop 8, List.length_take_of_le hlong, List.take_append_drop 8 data'⟩
    rw [drain_block hblock, drain_block hblock']
    cases n with
    | zero =>
      obtain ⟨hne, rfl⟩ := h.first hblock hblock'
      intro heq
      have habsorb := (bijective_drain rest).injective heq
      have hword := injective_absorb state habsorb
      exact hne (Bytes.littleEndian_inj (hblock.trans hblock'.symm) (Nat.le_of_eq hblock) hword)
    | succ n =>
      obtain ⟨rfl, hrest⟩ := h.later hblock hblock'
      exact ih hrest _

/-- Every part of a text counts in its hash. Under no seed do two texts that differ within a single
block have one hash, and no text takes two seeds to one hash or leaves out a hash. -/
theorem murmur_separates (data : Bytes) :
    (∀ {n : Nat} {data' : Bytes}, DifferWithin n data data' →
      ∀ seed, murmur seed data ≠ murmur seed data') ∧
    Bijective (murmur · data) := by
  constructor
  · intro n data' hdiffer seed heq
    rw [murmur_eq, murmur_eq, hdiffer.length_eq] at heq
    exact hdiffer.drain_ne _ (bijective_finish.injective heq)
  · exact bijective_finish.comp ((bijective_drain data).comp
      (involutive_xor (UInt64.ofNat data.length * multiplier)).bijective)

/-- Of 17 zeros, a byte changed in the second block, and the one that is left over changed. -/
theorem murmur_separates_zeros :
    let zeros : Bytes := List.replicate 17 0
    (DifferWithin 1 zeros (zeros.set 11 5) ∧ DifferWithin 2 zeros (zeros.set 16 5)) ∧
      murmur seed zeros ≠ murmur seed (zeros.set 11 5) ∧
      murmur seed zeros ≠ murmur seed (zeros.set 16 5) ∧ Bijective (murmur · zeros) := by
  intro zeros
  have hblock : DifferWithin 1 zeros (zeros.set 11 5) := ⟨by decide, by decide, by decide⟩
  have htail : DifferWithin 2 zeros (zeros.set 16 5) := ⟨by decide, by decide, by decide⟩
  obtain ⟨hseparates, hbijective⟩ := murmur_separates zeros
  exact ⟨⟨hblock, htail⟩, hseparates hblock seed, hseparates htail seed, hbijective⟩

end Holdfast.Ring
