import Holdfast.Endpoint
import Holdfast.Json.Document

namespace Holdfast.Config

/-- Why a document gives no configuration. -/
inductive ReadError
  | malformed
  | endpoint (e : InvalidEndpoint)
deriving DecidableEq, Repr

abbrev Reader (α : Type) := Json.Value → Except ReadError α

open Json in
def readText : Reader String
  | .string (some s) => .ok s
  | _ => .error .malformed

def readFlag : Reader Bool
  | .bool b => .ok b
  | _ => .error .malformed

def readInt : Reader Int
  | .number n => match n.toInt? with
    | some i => .ok i
    | none => .error .malformed
  | _ => .error .malformed

/-- A whole number of 64 bits without sign. -/
def readCount : Reader UInt64 := fun v => do
  let i ← readInt v
  if 0 ≤ i ∧ i < UInt64.size then return UInt64.ofNat i.toNat else throw .malformed

/-- A whole number of 64 bits with sign. -/
def readSigned : Reader Int64 := fun v => do
  let i ← readInt v
  if Int64.minValue.toInt ≤ i ∧ i ≤ Int64.maxValue.toInt then return Int64.ofInt i
  else throw .malformed

def readOptional (read : Reader α) : Reader (Option α)
  | .null => .ok none
  | v => some <$> read v

def readList (read : Reader α) : Reader (List α)
  | .array items whole => do
    let list ← items.mapM read
    if whole then return list else throw .malformed
  | _ => .error .malformed

def readEndpoint : Reader Endpoint := fun v => do
  match Endpoint.parse (← readText v) with
  | .ok e => return e
  | .error e => throw (.endpoint e)

/-- A field of a record that is filled in while its document is read. -/
structure Field (ρ : Type) where
  name : String
  isSet : ρ → Bool
  read : Json.Value → ρ → Except ReadError ρ

/-- Members in the order of the document: a field at most once, other members skipped. -/
def readMembers (fields : List (Field ρ)) (record : ρ) :
    List (Option String × Json.Value) → Except ReadError ρ
  | [] => .ok record
  | (none, _) :: _ => .error .malformed
  | (some key, v) :: rest =>
    match fields.find? (·.name = key) with
    | none => if v.isWhole then readMembers fields record rest else .error .malformed
    | some field =>
      if field.isSet record then .error .malformed
      else (field.read v record).bind fun record => readMembers fields record rest

/-- The fields' values in the order of the fields; values at the end may be missing. -/
def readItems (record : ρ) : List (Field ρ) → List Json.Value → Except ReadError ρ
  | _, [] => .ok record
  | [], _ :: _ => .error .malformed
  | field :: fields, v :: vs => (field.read v record).bind fun record => readItems record fields vs

/-- A record is an object of its fields or the array of their values. -/
def readRecord (fields : List (Field ρ)) (empty : ρ) : Reader ρ := fun v => do
  match v with
  | .object members whole =>
    let record ← readMembers fields empty members
    if whole then return record else throw .malformed
  | .array items whole =>
    let record ← readItems empty fields items
    if whole then return record else throw .malformed
  | _ => throw .malformed

end Holdfast.Config
