import Holdfast.Text.Blank
import Holdfast.Text.Decimal

namespace Holdfast

/-- The address of a shard's master or of a discovery peer. -/
structure Endpoint where
  host : String
  port : UInt16
deriving DecidableEq, Repr, Inhabited

/-- A text that names no endpoint, as it is reported. -/
structure InvalidEndpoint where
  text : String
deriving DecidableEq, Repr

def InvalidEndpoint.message (e : InvalidEndpoint) : String :=
  s!"invalid endpoint `{e.text}`, expected host:port"

namespace Endpoint

def toText (e : Endpoint) : String := s!"{e.host}:{e.port.toNat}"

instance : ToString Endpoint := ⟨toText⟩

def readPort? (cs : List Char) : Option UInt16 :=
  (Text.readUpTo? 65535 cs).map UInt16.ofNat

/-- An unreadable port is reported before an empty host. -/
def ofParts (host port : List Char) : Except InvalidEndpoint Endpoint :=
  match readPort? port with
  | none => .error ⟨String.ofList (host ++ ':' :: port)⟩
  | some p => if host.isEmpty then .error ⟨s!":{p.toNat}"⟩ else .ok ⟨String.ofList host, p⟩

/-- Blanks around the text do not count, and the last colon ends the host. -/
def parse (s : String) : Except InvalidEndpoint Endpoint :=
  match Text.cutLast ':' (Text.trim s.toList) with
  | some (host, port) => ofParts host port
  | none => .error ⟨s⟩

/-- By host, then by port. -/
def le (a b : Endpoint) : Bool := a.host < b.host || (a.host = b.host && a.port ≤ b.port)

def sort (es : List Endpoint) : List Endpoint := es.mergeSort le

end Endpoint
end Holdfast
