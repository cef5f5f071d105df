import Holdfast.Bytes
import Holdfast.Redis.Fault
import Holdfast.Text.Decimal

namespace Holdfast.Redis

/-- A reply of a server. -/
inductive Value
  | status (text : String)
  | bulk (b : Bytes)
  | int (n : Int)
  | nil
  | array (vs : List Value)
  | fault (f : Fault)
deriving Repr

namespace Value

/-- A decimal number of 64 bits, perhaps with a sign. -/
def readInt? (cs : List Char) : Option Int :=
  let n? := match cs with
    | '-' :: cs => (Text.readNat? cs).map fun n => -(n : Int)
    | '+' :: cs => (Text.readNat? cs).map fun n => (n : Int)
    | cs => (Text.readNat? cs).map fun n => (n : Int)
  n?.filter fun n => Int64.minValue.toInt ≤ n && n ≤ Int64.maxValue.toInt

def textOf? (b : Bytes) : Option String := String.fromUTF8? (ByteArray.mk b.toArray)

mutual

/-- The first fault anywhere in a reply. -/
def fault? : Value → Option Fault
  | fault f => some f
  | array vs => faultIn? vs
  | status _ | bulk _ | int _ | nil => none

def faultIn? : List Value → Option Fault
  | [] => none
  | v :: vs => v.fault?.or (faultIn? vs)

end

/-- A fault anywhere in a reply is a fault of the whole. A sound reply that cannot be read as what
is asked for is refused. -/
def read (as? : Value → Option α) (v : Value) : Except Fault α :=
  match v.fault? with
  | some f => .error f
  | none => (as? v).elim (.error .refused) .ok

/-- Values that answer a question with yes or no. -/
def flag? : Value → Option Bool
  | int n => some (n ≠ 0)
  | nil => some false
  | status "OK" | status "1" => some true
  | status "0" => some false
  | bulk b =>
    if b = Bytes.ofText "1" then some true
    else if b = Bytes.ofText "0" then some false
    else none
  | _ => none

/-- One byte of a list; numbers are cut down to their lowest eight bits, texts are not. -/
def byte? : Value → Option UInt8
  | int n => some (UInt8.ofInt n)
  | status s => (Text.readUpTo? 255 s.toList).map UInt8.ofNat
  | bulk b =>
    (textOf? b).bind fun s => (Text.readUpTo? 255 s.toList).map UInt8.ofNat
  | _ => none

def bytes? : Value → Option (Option Bytes)
  | bulk b => some (some b)
  | array vs => (vs.mapM byte?).map some
  | nil => some none
  | _ => none

def int? : Value → Option Int
  | int n => some n
  | status s => readInt? s.toList
  | bulk b => (textOf? b).bind fun s => readInt? s.toList
  | _ => none

def text? : Value → Option String
  | status s => some s
  | bulk b => textOf? b
  | int n => some (toString n)
  | _ => none

def list? : Value → Option (Option (List Value))
  | array vs => some (some vs)
  | nil => some none
  | _ => none

/-- One text that stands alone counts as a list of one. -/
def texts? : Value → Option (Option (List String))
  | array vs => (vs.mapM text?).map some
  | bulk b => (textOf? b).map fun s => some [s]
  | nil => some none
  | _ => none

def asFlag (v : Value) : Except Fault Bool := v.read flag?

def asBytes (v : Value) : Except Fault (Option Bytes) := v.read bytes?

def asInt (v : Value) : Except Fault Int := v.read int?

def asText (v : Value) : Except Fault String := v.read text?

def asList (v : Value) : Except Fault (Option (List Value)) := v.read list?

def asTexts (v : Value) : Except Fault (Option (List String)) := v.read texts?

/-- Any reply will do that is no fault. -/
def asDone (v : Value) : Except Fault Unit := v.read fun _ => some ()

end Value
end Holdfast.Redis
