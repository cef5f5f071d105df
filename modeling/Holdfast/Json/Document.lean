import Holdfast.Json.Token
import Holdfast.Json.Magnitude

namespace Holdfast.Json

/-- A value as far as it could be read. An array or an object that the text breaks off keeps what
came before and is not `whole`; members stay in their order, repeated ones included. -/
inductive Value
  | null
  | bool (b : Bool)
  | number (n : Number)
  | string (s : Option String)
  | array (items : List Value) (whole : Bool)
  | object (members : List (Option String × Value)) (whole : Bool)
deriving Repr, Inhabited

namespace Value

def isWhole : Value → Bool
  | array _ whole => whole
  | object _ whole => whole
  | _ => true

mutual

/-- Whether the value can be held before its meaning is known: its strings are text, its numbers
finite, and it is nested less than `room` deep. -/
def isHoldable (room : Nat) : Value → Bool
  | null => true
  | bool _ => true
  | number n => n.isFinite
  | string s => s.isSome
  | array items whole => whole && 1 < room && areHoldable (room - 1) items
  | object members whole => whole && 1 < room && membersHoldable (room - 1) members

def areHoldable (room : Nat) : List Value → Bool
  | [] => true
  | v :: vs => isHoldable room v && areHoldable room vs

def membersHoldable (room : Nat) : List (Option String × Value) → Bool
  | [] => true
  | (key, v) :: ms => key.isSome && isHoldable room v && membersHoldable room ms

end

end Value

/-- A container that is still open, with what it holds so far in reverse. -/
inductive Frame
  | array (items : List Value)
  | object (members : List (Option String × Value)) (key : Option String)
deriving Repr

inductive Progress
  /-- A value must follow. -/
  | value (outer : List Frame)
  /-- A value or the end of an array that has just begun. -/
  | item (outer : List Frame)
  /-- A key must follow, or, where `first`, the end of the object. -/
  | key (outer : List Frame) (members : List (Option String × Value)) (first : Bool)
  | colon (outer : List Frame) (members : List (Option String × Value)) (key : Option String)
  /-- A value inside a container is complete. -/
  | next (outer : List Frame) (last : Value)
  | complete (root : Value)
  /-- The text stopped being one value; `root` is what had been read. -/
  | broken (root : Option Value)
deriving Repr

namespace Progress

def afterValue (outer : List Frame) (v : Value) : Progress :=
  match outer with
  | [] => complete v
  | _ :: _ => next outer v

/-- Closes every open container around `inner`, none of them whole. -/
def breakOff (inner : Option Value) : List Frame → Progress
  | [] => broken inner
  | .array items :: outer =>
    breakOff (some (.array (inner.toList ++ items).reverse false)) outer
  | .object members k :: outer =>
    let members := match inner with
      | some v => (k, v) :: members
      | none => members
    breakOff (some (.object members.reverse false)) outer

def startValue (outer : List Frame) : Token → Progress
  | .null => afterValue outer .null
  | .bool b => afterValue outer (.bool b)
  | .number n => afterValue outer (.number n)
  | .string s => afterValue outer (.string s)
  | .openArray => item outer
  | .openObject => key outer [] true
  | _ => breakOff none outer

def step (p : Progress) (t : Token) : Progress :=
  match p with
  | value outer => startValue outer t
  | item outer =>
    match t with
    | .closeArray => afterValue outer (.array [] true)
    | _ => startValue (.array [] :: outer) t
  | key outer members first =>
    match t with
    | .string k => colon outer members k
    | .closeObject =>
      if first then afterValue outer (.object [] true)
      else breakOff (some (.object members.reverse false)) outer
    | _ => breakOff (some (.object members.reverse false)) outer
  | colon outer members k =>
    match t with
    | .colon => value (.object members k :: outer)
    | _ => breakOff (some (.object members.reverse false)) outer
  | next [] last => broken (some last)
  | next (.array items :: outer) last =>
    match t with
    | .comma => value (.array (last :: items) :: outer)
    | .closeArray => afterValue outer (.array (last :: items).reverse true)
    | _ => breakOff (some last) (.array items :: outer)
  | next (.object members k :: outer) last =>
    match t with
    | .comma => key outer ((k, last) :: members) false
    | .closeObject => afterValue outer (.object ((k, last) :: members).reverse true)
    | _ => breakOff (some last) (.object members k :: outer)
  | complete root => broken (some root)
  | broken root => broken root

end Progress

/-- What was read of a text, and whether it was exactly one value. -/
structure Document where
  root : Option Value
  clean : Bool
deriving Repr

namespace Document

def ofProgress : Progress → Document
  | .complete root => ⟨some root, true⟩
  | .broken root => ⟨root, false⟩
  | .value outer => ofBroken (Progress.breakOff none outer)
  | .item outer => ofBroken (Progress.breakOff (some (.array [] false)) outer)
  | .key outer members _ =>
    ofBroken (Progress.breakOff (some (.object members.reverse false)) outer)
  | .colon outer members _ =>
    ofBroken (Progress.breakOff (some (.object members.reverse false)) outer)
  | .next outer last => ofBroken (Progress.breakOff (some last) outer)
where
  ofBroken : Progress → Document
    | .broken root => ⟨root, false⟩
    | _ => ⟨none, false⟩

def parse (s : String) : Document :=
  ofProgress ((tokens s).foldl Progress.step (.value []))

end Document
end Holdfast.Json
