namespace Holdfast.Lock

def minHold : UInt64 := 1

def maxHold : UInt64 := 86400

def minSleep : UInt64 := 9

/-- The timings of a lock as they are asked for: seconds of hold, milliseconds between attempts. -/
structure Options where
  hold : Int64 := 86400
  sleep : Int64 := 9
deriving DecidableEq, Repr

/-- `n` moved to the nearest end of `[low, high]`. Ends that are the wrong way round have nothing
between them. -/
def clamp? (low high n : UInt64) : Option UInt64 :=
  if low ≤ high then some (if n < low then low else if high < n then high else n) else none

theorem clamp?_of_le {low high : UInt64} (h : low ≤ high) (n : UInt64) :
    ∃ m, clamp? low high n = some m ∧ low ≤ m ∧ m ≤ high := by
  unfold clamp?
  rw [if_pos h]
  refine ⟨_, rfl, ?_⟩
  split
  · exact ⟨UInt64.le_refl low, h⟩
  · split
    · exact ⟨h, UInt64.le_refl high⟩
    · exact ⟨UInt64.not_lt.mp ‹_›, UInt64.not_lt.mp ‹_›⟩

namespace Options

variable (o : Options)

/-- The seconds that are asked for, without their sign. The least number of all has no absolute
value of its own type, but has one among the words without sign. -/
def holdAsked : UInt64 := o.hold.abs.toUInt64

/-- The milliseconds that are asked for, or none at all where the number is below zero. -/
def sleepAsked : UInt64 := (max o.sleep 0).toUInt64

/-- Seconds a lock is held before others may take it over. -/
def hold? : Option UInt64 := clamp? minHold maxHold o.holdAsked

theorem exists_hold : ∃ hold, o.hold? = some hold ∧ minHold ≤ hold ∧ hold ≤ maxHold :=
  clamp?_of_le (by decide) o.holdAsked

theorem isSome_hold : o.hold?.isSome := by
  obtain ⟨hold, hsome, -⟩ := o.exists_hold
  rw [hsome, Option.isSome_some]

/-- The seconds of the hold, which there always are. -/
def holdSeconds : Nat := (o.hold?.get o.isSome_hold).toNat

variable {o} in
theorem holdSeconds_of_some {hold : UInt64} (h : o.hold? = some hold) :
    o.holdSeconds = hold.toNat := by
  simp [holdSeconds, h]

theorem holdSeconds_pos : 0 < o.holdSeconds := by
  obtain ⟨hold, hsome, hlow, -⟩ := o.exists_hold
  rw [holdSeconds_of_some hsome]
  exact UInt64.le_iff_toNat_le.mp hlow

/-- The milliseconds of the whole hold. -/
def longestSleep? : Option UInt64 := o.hold?.map (· * 1000)

/-- Milliseconds between attempts, at most the whole hold. -/
def sleep? : Option UInt64 := do clamp? minSleep (← o.longestSleep?) o.sleepAsked

/-- No hold that is allowed has more milliseconds than fit in a word. -/
theorem exists_longestSleep :
    ∃ longest, o.longestSleep? = some longest ∧ longest.toNat = o.holdSeconds * 1000 := by
  obtain ⟨hold, hsome, -, hhigh⟩ := o.exists_hold
  refine ⟨hold * 1000, by rw [longestSleep?, hsome, Option.map_some], ?_⟩
  have hle : hold.toNat ≤ 86400 := UInt64.le_iff_toNat_le.mp hhigh
  rw [holdSeconds_of_some hsome, UInt64.toNat_mul]
  exact Nat.mod_eq_of_lt (by simp; omega)

variable {o} in
theorem sleep?_of_longest {longest : UInt64} (h : o.longestSleep? = some longest) :
    o.sleep? = clamp? minSleep longest o.sleepAsked := by
  rw [sleep?, h]
  rfl

theorem exists_sleep : ∃ sleep, o.sleep? = some sleep ∧ minSleep ≤ sleep := by
  obtain ⟨longest, hlongest, hmillis⟩ := o.exists_longestSleep
  have hordered : minSleep ≤ longest := by
    have hpos := o.holdSeconds_pos
    rw [UInt64.le_iff_toNat_le, hmillis]
    show 9 ≤ o.holdSeconds * 1000
    omega
  obtain ⟨sleep, hclamp, hlow, -⟩ := clamp?_of_le hordered o.sleepAsked
  exact ⟨sleep, (sleep?_of_longest hlongest).trans hclamp, hlow⟩

theorem isSome_sleep : o.sleep?.isSome := by
  obtain ⟨sleep, hsome, -⟩ := o.exists_sleep
  rw [hsome, Option.isSome_some]

/-- The milliseconds of the sleep, which there always are. -/
def sleepMillis : Nat := (o.sleep?.get o.isSome_sleep).toNat

variable {o} in
theorem sleepMillis_of_some {sleep : UInt64} (h : o.sleep? = some sleep) :
    o.sleepMillis = sleep.toNat := by
  simp [sleepMillis, h]

theorem sleepMillis_pos : 0 < o.sleepMillis := by
  obtain ⟨sleep, hsome, hlow⟩ := o.exists_sleep
  have hle : 9 ≤ sleep.toNat := UInt64.le_iff_toNat_le.mp hlow
  rw [sleepMillis_of_some hsome]
  omega

end Options
end Holdfast.Lock
