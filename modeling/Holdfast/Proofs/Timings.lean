import Holdfast.Lock.Options
import Mathlib.Data.Nat.Dist

namespace Holdfast.Lock

/-- `n` is nearer to `x` than any other number from `low` to `high`. -/
structure IsNearest (low high x n : Nat) : Prop where
  low_le : low ≤ n
  le_high : n ≤ high
  dist_lt : ∀ m, low ≤ m → m ≤ high → m ≠ n → Nat.dist n x < Nat.dist m x

namespace IsNearest

variable {low high high' x y n m : Nat}

theorem of_mem (hlow : low ≤ n) (hhigh : n ≤ high) : IsNearest low high n n := by
  refine ⟨hlow, hhigh, ?_⟩
  intro m _ _ hne
  unfold Nat.dist
  omega

theorem of_lt (h : low ≤ high) (hx : x < low) : IsNearest low high x low := by
  refine ⟨Nat.le_refl low, h, ?_⟩
  intro m hlow _ hne
  unfold Nat.dist
  omega

theorem of_gt (h : low ≤ high) (hx : high < x) : IsNearest low high x high := by
  refine ⟨h, Nat.le_refl high, ?_⟩
  intro m _ hhigh hne
  unfold Nat.dist
  omega

theorem unique (h : IsNearest low high x n) (h' : IsNearest low high x m) : n = m := by
  by_contra hne
  have hlt := h.dist_lt m h'.low_le h'.le_high (Ne.symm hne)
  have hlt' := h'.dist_lt n h.low_le h.le_high hne
  omega

theorem mono (h : IsNearest low high x n) (h' : IsNearest low high' y m) (hhigh : high ≤ high')
    (hle : x ≤ y) : n ≤ m := by
  by_contra hlt
  have hn := h.dist_lt m h'.low_le (by have := h.le_high; omega) (by omega)
  have hm := h'.dist_lt n h.low_le (by have := h.le_high; omega) (by omega)
  unfold Nat.dist at hn hm
  omega

end IsNearest

/-- Clamping gives the nearest number between the ends. -/
theorem isNearest_of_clamp? {low high n m : UInt64} (h : clamp? low high n = some m) :
    IsNearest low.toNat high.toNat n.toNat m.toNat := by
  unfold clamp? at h
  split at h
  · rename_i hle
    have hle' := UInt64.le_iff_toNat_le.mp hle
    cases h
    split
    · rename_i hlow
      exact .of_lt hle' (UInt64.lt_iff_toNat_lt.mp hlow)
    · split
      · rename_i hhigh
        exact .of_gt hle' (UInt64.lt_iff_toNat_lt.mp hhigh)
      · rename_i hlow hhigh
        exact .of_mem (UInt64.le_iff_toNat_le.mp (UInt64.not_lt.mp hlow))
          (UInt64.le_iff_toNat_le.mp (UInt64.not_lt.mp hhigh))
  · cases h

namespace Options

theorem toNat_holdAsked (o : Options) : o.holdAsked.toNat = o.hold.toInt.natAbs := by
  have habs : o.holdAsked.toNat = o.hold.toBitVec.abs.toNat := rfl
  have hint : o.hold.toInt = o.hold.toBitVec.toInt := rfl
  have hlt := o.hold.toBitVec.isLt
  rw [habs, hint, BitVec.toNat_abs, BitVec.toInt_eq_msb_cond]
  split <;> omega

theorem toNat_sleepAsked (o : Options) : o.sleepAsked.toNat = o.sleep.toInt.toNat := by
  have hmax : max o.sleep 0 = if o.sleep ≤ 0 then 0 else o.sleep := rfl
  rw [sleepAsked, hmax]
  split
  · rename_i hle
    have hle' : o.sleep.toInt ≤ 0 := Int64.le_iff_toInt_le.mp hle
    exact (Int.toNat_of_nonpos hle').symm
  · rename_i hlt
    exact Int64.toNat_toUInt64_of_le (Int64.le_of_lt (Int64.not_le.mp hlt))

theorem isNearest_holdSeconds (o : Options) :
    IsNearest 1 86400 o.hold.toInt.natAbs o.holdSeconds := by
  obtain ⟨hold, hsome, -⟩ := o.exists_hold
  rw [holdSeconds_of_some hsome, ← toNat_holdAsked]
  exact isNearest_of_clamp? hsome

theorem isNearest_sleepMillis (o : Options) :
    IsNearest 9 (o.holdSeconds * 1000) o.sleep.toInt.toNat o.sleepMillis := by
  obtain ⟨longest, hlongest, hmillis⟩ := o.exists_longestSleep
  obtain ⟨sleep, hsome, -⟩ := o.exists_sleep
  rw [sleepMillis_of_some hsome, ← toNat_sleepAsked, ← hmillis]
  rw [sleep?_of_longest hlongest] at hsome
  exact isNearest_of_clamp? hsome

def settled (o : Options) : Options := ⟨Int64.ofNat o.holdSeconds, Int64.ofNat o.sleepMillis⟩

theorem holdSeconds_settled (o : Options) : o.settled.holdSeconds = o.holdSeconds := by
  have hhold := o.isNearest_holdSeconds
  have hlt := hhold.le_high
  have hsame : o.settled.hold.toInt.natAbs = o.holdSeconds := by
    rw [settled, Int64.toInt_ofNat_of_lt (by omega), Int.natAbs_natCast]
  have hagain := o.settled.isNearest_holdSeconds
  rw [hsame] at hagain
  exact hagain.unique (.of_mem hhold.low_le hhold.le_high)

theorem sleepMillis_settled (o : Options) : o.settled.sleepMillis = o.sleepMillis := by
  have hsleep := o.isNearest_sleepMillis
  have hlt := hsleep.le_high
  have hlt' := o.isNearest_holdSeconds.le_high
  have hsame : o.settled.sleep.toInt.toNat = o.sleepMillis := by
    rw [settled, Int64.toInt_ofNat_of_lt (by omega), Int.toNat_natCast]
  have hagain := o.settled.isNearest_sleepMillis
  rw [hsame, holdSeconds_settled] at hagain
  exact hagain.unique (.of_mem hsleep.low_le hsleep.le_high)

theorem holdSeconds_mono {o p : Options} (h : o.hold.toInt.natAbs ≤ p.hold.toInt.natAbs) :
    o.holdSeconds ≤ p.holdSeconds :=
  o.isNearest_holdSeconds.mono p.isNearest_holdSeconds (Nat.le_refl 86400) h

theorem sleepMillis_mono {o p : Options} (hhold : o.hold.toInt.natAbs ≤ p.hold.toInt.natAbs)
    (hsleep : o.sleep ≤ p.sleep) : o.sleepMillis ≤ p.sleepMillis := by
  have hlonger : o.holdSeconds * 1000 ≤ p.holdSeconds * 1000 :=
    Nat.mul_le_mul_right 1000 (holdSeconds_mono hhold)
  have hasked : o.sleep.toInt.toNat ≤ p.sleep.toInt.toNat :=
    Int.toNat_le_toNat (Int64.le_iff_toInt_le.mp hsleep)
  exact o.isNearest_sleepMillis.mono p.isNearest_sleepMillis hlonger hasked

end Options

/-- Whatever is asked for, both timings are there: no clamp has its ends the wrong way round, and
each word on the way holds the exact number. They are the nearest ones that are allowed to what is
asked for, stay as they are when they are asked for themselves, and a longer sleep or hold that is
asked for makes no sleep shorter. -/
theorem timings_clamped (o : Options) :
    ((∃ hold, o.hold? = some hold ∧ hold.toNat = o.holdSeconds) ∧
      (∃ longest, o.longestSleep? = some longest ∧ longest.toNat = o.holdSeconds * 1000) ∧
      ∃ sleep, o.sleep? = some sleep ∧ sleep.toNat = o.sleepMillis) ∧
    (o.holdAsked.toNat = o.hold.toInt.natAbs ∧ o.sleepAsked.toNat = o.sleep.toInt.toNat) ∧
    IsNearest 1 86400 o.hold.toInt.natAbs o.holdSeconds ∧
    IsNearest 9 (o.holdSeconds * 1000) o.sleep.toInt.toNat o.sleepMillis ∧
    (o.settled.holdSeconds = o.holdSeconds ∧ o.settled.sleepMillis = o.sleepMillis) ∧
    ∀ p : Options, o.hold.toInt.natAbs ≤ p.hold.toInt.natAbs → o.sleep ≤ p.sleep →
      o.sleepMillis ≤ p.sleepMillis := by
  obtain ⟨hold, hhold, -⟩ := o.exists_hold
  obtain ⟨sleep, hsleep, -⟩ := o.exists_sleep
  refine ⟨⟨⟨hold, hhold, ?_⟩, o.exists_longestSleep, sleep, hsleep, ?_⟩,
    ⟨o.toNat_holdAsked, o.toNat_sleepAsked⟩, o.isNearest_holdSeconds, o.isNearest_sleepMillis,
    ⟨o.holdSeconds_settled, o.sleepMillis_settled⟩, fun p => Options.sleepMillis_mono⟩
  · rw [Options.holdSeconds_of_some hhold]
  · rw [Options.sleepMillis_of_some hsleep]

/-- The least number of all asks for the longest hold there is, and with a longer sleep asked for
than five seconds of hold allow the sleep is no shorter. -/
theorem timings_clamped_least :
    let o : Options := ⟨-5, 50000⟩
    let p : Options := ⟨Int64.minValue, 60000⟩
    (o.hold.toInt.natAbs ≤ p.hold.toInt.natAbs ∧ o.sleep ≤ p.sleep) ∧
      o.sleepMillis ≤ p.sleepMillis ∧ p.holdSeconds = 86400 := by
  intro o p
  have hhold : o.hold.toInt.natAbs ≤ p.hold.toInt.natAbs := by decide
  have hsleep : o.sleep ≤ p.sleep := by decide
  obtain ⟨-, -, -, -, -, hmono⟩ := timings_clamped o
  obtain ⟨-, -, hnearest, -⟩ := timings_clamped p
  exact ⟨⟨hhold, hsleep⟩, hmono p hhold hsleep, hnearest.unique (.of_gt (by decide) (by decide))⟩

end Holdfast.Lock
