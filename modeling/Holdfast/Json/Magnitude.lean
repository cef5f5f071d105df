import Holdfast.Json.Number

namespace Holdfast.Json.Number

def wordLimit : Nat := 1 <<< 64

/-- Takes digits onto a significand while it fits a word; the number taken comes with it. -/
def takeDigits (significand : Nat) : List Char → Nat × Nat
  | [] => (significand, 0)
  | c :: cs =>
    let next := significand * 10 + (c.toNat - '0'.toNat)
    if next < wordLimit then
      let (final, taken) := takeDigits next cs
      (final, taken + 1)
    else (significand, 0)

/-- `n` to 53 significant bits, ties to even. -/
def round53 (n : Nat) : Nat :=
  let extra := n.log2 + 1 - 53
  let unit := 1 <<< extra
  let quotient := n / unit
  let rest := n % unit
  let up := unit < 2 * rest || (unit = 2 * rest && quotient % 2 = 1)
  (if up then quotient + 1 else quotient) * unit

/-- From here on a product of doubles overflows: half a unit above the largest of them. -/
def overflow : Nat := 1 <<< 1024 - 1 <<< 970

def exponentValue (n : Number) : Int :=
  match n.exponent with
  | none => 0
  | some (negative, digits) =>
    let e := (digits.foldl (fun e c => e * 10 + (c.toNat - '0'.toNat)) 0 : Nat)
    if negative then -(e : Int) else e

/-- Whether the leading digits that fit a word, scaled by a power of ten, are finite as a double. -/
def isFinite (n : Number) : Bool :=
  let (significand, taken) := takeDigits 0 n.whole
  let (significand, places) := takeDigits significand n.fraction
  let scale := n.exponentValue + (n.whole.length - taken : Nat) - (places : Int)
  if significand = 0 || scale < 0 then true
  else if 308 < scale then false
  else round53 significand * round53 (Nat.pow 10 scale.toNat) < overflow

end Holdfast.Json.Number
