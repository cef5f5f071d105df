import Holdfast.Text.Decimal

namespace Holdfast.Json

/-- A number as it is written. -/
structure Number where
  negative : Bool
  whole : List Char
  fraction : List Char
  exponent : Option (Bool × List Char)
deriving DecidableEq, Repr

namespace Number

def isDigit (c : Char) : Bool := '0' ≤ c && c ≤ '9'

/-- The exponent's sign and digits, if the rest of a number is an exponent or nothing. -/
def exponentOf? : List Char → Option (Option (Bool × List Char))
  | [] => some none
  | e :: rest =>
    if e = 'e' ∨ e = 'E' then
      let (negative, digits) := match rest with
        | '-' :: ds => (true, ds)
        | '+' :: ds => (false, ds)
        | ds => (false, ds)
      if digits.isEmpty || !digits.all isDigit then none else some (some (negative, digits))
    else none

/-- A minus sign if any, digits without a leading zero, then a fraction and an exponent if any. -/
def ofChars? (cs : List Char) : Option Number := do
  let (negative, cs) := match cs with
    | '-' :: rest => (true, rest)
    | rest => (false, rest)
  let whole := cs.takeWhile isDigit
  let rest := cs.dropWhile isDigit
  if whole.isEmpty || (whole.head? = some '0' && whole.length ≠ 1) then none else
  match rest with
  | '.' :: tail =>
    let fraction := tail.takeWhile isDigit
    if fraction.isEmpty then none else
    let exponent ← exponentOf? (tail.dropWhile isDigit)
    return ⟨negative, whole, fraction, exponent⟩
  | _ =>
    let exponent ← exponentOf? rest
    return ⟨negative, whole, [], exponent⟩

/-- A number without fraction and exponent; minus zero is no integer. -/
def toInt? (n : Number) : Option Int :=
  if n.fraction.isEmpty && n.exponent.isNone && !(n.negative && n.whole = ['0']) then
    (Text.readNat? n.whole).map fun m => if n.negative then -(m : Int) else m
  else none

def ofInt (i : Int) : Number := ⟨i < 0, Text.decimal i.natAbs, [], none⟩

def toChars (n : Number) : List Char :=
  (if n.negative then ['-'] else []) ++ n.whole ++
    (if n.fraction.isEmpty then [] else '.' :: n.fraction) ++
    match n.exponent with
    | none => []
    | some (negative, digits) => 'e' :: (if negative then ['-'] else []) ++ digits

end Number
end Holdfast.Json
