import Holdfast.Bytes

namespace Holdfast.Ring

/-- The odd multiplier of MurmurHash64A. -/
def multiplier : UInt64 := 0xc6a4a7935bd1e995

def foldHigh (h : UInt64) : UInt64 := h ^^^ (h >>> 47)

def scramble (k : UInt64) : UInt64 := foldHigh (k * multiplier) * multiplier

def absorb (h k : UInt64) : UInt64 := (h ^^^ scramble k) * multiplier

/-- Absorbs whole blocks of eight bytes; fewer than eight are left over. -/
def absorbBlocks (h : UInt64) : Bytes → UInt64 × Bytes
  | b0 :: b1 :: b2 :: b3 :: b4 :: b5 :: b6 :: b7 :: rest =>
    absorbBlocks (absorb h (Bytes.littleEndian [b0, b1, b2, b3, b4, b5, b6, b7])) rest
  | tail => (h, tail)

def absorbTail (h : UInt64) (tail : Bytes) : UInt64 :=
  if tail.isEmpty then h else (h ^^^ Bytes.littleEndian tail) * multiplier

def finish (h : UInt64) : UInt64 := foldHigh (foldHigh h * multiplier)

/-- MurmurHash64A, with blocks read least significant byte first. -/
def murmur (seed : UInt64) (data : Bytes) : UInt64 :=
  let (h, tail) := absorbBlocks (seed ^^^ (UInt64.ofNat data.length * multiplier)) data
  finish (absorbTail h tail)

end Holdfast.Ring
