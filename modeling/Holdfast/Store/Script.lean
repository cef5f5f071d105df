import Holdfast.Lock.Token
import Holdfast.Store.Call

namespace Holdfast.Store

/-- A value in a script: bytes, or the token that the store was sent as the `n`-th distinct one. -/
inductive Script.Value
  | bytes (b : Bytes)
  | sent (n : Nat)
deriving DecidableEq, Repr

inductive Script.Effect
  | previous (v : Option Script.Value)
  | count (n : Int)
deriving DecidableEq, Repr

/-- What a script lays down for one call. -/
inductive Script.Line
  | flag (b : Bool)
  | value (v : Script.Value)
  | nothing
  | effects (es : List Script.Effect)
  | failure (f : Failure)
  | later (ms : Nat) (line : Script.Line)
deriving Repr

/-- What a scripted store was asked for. -/
inductive Script.Entry
  | connect (endpoint : Endpoint)
  | call (conn : Nat) (request : Call)
deriving Repr

/-- A store that answers every call with the next line of a script. -/
structure Script where
  lines : List Script.Line
  log : List Script.Entry := []
  /-- The distinct tokens that were sent, in order. -/
  sent : List Bytes := []
  opened : Nat := 0
deriving Repr

namespace Script

def Value.resolve (sent : List Bytes) : Value → Except Failure Bytes
  | bytes b => .ok b
  | .sent n =>
    match sent[n]? with
    | some b => .ok b
    | none => .error mismatch

def Effect.resolve (sent : List Bytes) : Effect → Except Failure Store.Effect
  | previous none => .ok (.previous none)
  | previous (some v) => (v.resolve sent).map fun b => .previous (some b)
  | count n => .ok (.count n)

namespace Line

/-- How long a line takes. -/
def delay : Line → Nat
  | later ms line => ms + line.delay
  | _ => 0

/-- The line without its delays. -/
def content : Line → Line
  | later _ line => line.content
  | line => line

def connects (l : Line) : Except Failure Unit :=
  match l.content with
  | flag _ => .ok ()
  | failure f => .error f
  | _ => .error mismatch

/-- A line answers only the kind of call it is made for. -/
def answer (sent : List Bytes) (l : Line) (request : Call) : Outcome :=
  match l.content, request with
  | failure f, _ => .error f
  | flag b, .setIfAbsent .. | flag b, .expire .. => .ok (.flag b)
  | flag _, .watch _ | flag _, .unwatch | flag _, .ping => .ok .done
  | value v, .get _ => (v.resolve sent).map fun b => .value (some b)
  | nothing, .get _ => .ok (.value none)
  | nothing, .exec _ => .ok (.effects none)
  | effects es, .exec _ => (es.mapM (Effect.resolve sent)).map fun es => .effects (some es)
  | _, _ => .error mismatch

end Line

def take (s : Script) : Script × Line :=
  match s.lines with
  | [] => (s, .failure (.protocol "script exhausted"))
  | line :: lines => ({ s with lines }, line)

def note (s : Script) (e : Entry) : Script := { s with log := s.log ++ [e] }

/-- The values that a call sends. -/
def valuesOf : Call → List Bytes
  | .setIfAbsent _ value => [value]
  | .exec writes => writes.filterMap fun
    | .put _ value => some value
    | _ => none
  | _ => []

def isToken (value : Bytes) : Bool := value.length = Lock.Token.length

def see (sent : List Bytes) (value : Bytes) : List Bytes :=
  if isToken value && !sent.contains value then sent ++ [value] else sent

/-- The delay and the outcome of an attempt to connect. -/
def connect (s : Script) (e : Endpoint) : Script × Nat × Except Failure Unit :=
  let (s, line) := (s.note (.connect e)).take
  (s, line.delay, line.connects)

/-- A connection gets its number when it is there. -/
def opens (s : Script) : Script × Nat := ({ s with opened := s.opened + 1 }, s.opened + 1)

def call (s : Script) (conn : Nat) (request : Call) : Script × Nat × Outcome :=
  let s := { s with sent := (valuesOf request).foldl see s.sent }
  let (s, line) := (s.note (.call conn request)).take
  (s, line.delay, line.answer s.sent request)

end Script
end Holdfast.Store
