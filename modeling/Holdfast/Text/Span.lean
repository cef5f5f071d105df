namespace Holdfast.Text

def dropTrailingZeros (s : List Char) : List Char := (s.reverse.dropWhile (· == '0')).reverse

/-- A span of milliseconds in the largest unit that it fills, without trailing zeros. -/
def spanText (ms : Nat) : String :=
  if ms = 0 then "0ns"
  else if ms < 1000 then s!"{ms}ms"
  else
    let thousandths := ms % 1000
    if thousandths = 0 then s!"{ms / 1000}s"
    else
      let digits := Nat.toDigits 10 (1000 + thousandths)
      s!"{ms / 1000}.{String.ofList (dropTrailingZeros (digits.drop 1))}s"

end Holdfast.Text
