import Holdfast.Pool
import Holdfast.Store.Call

namespace Holdfast

open Store

/-- A connection in use. -/
structure Loan (κ : Type) where
  conn : κ
  isBroken : Bool := false
  /-- Set when a watch begins, cleared when a transaction or the end of the watch has succeeded. -/
  isWatching : Bool := false
deriving Repr

namespace Loan

def before (l : Loan κ) : Call → Loan κ
  | .watch _ => { l with isWatching := true }
  | _ => l

def endsWatch : Call → Bool
  | .unwatch | .exec _ => true
  | _ => false

def after (l : Loan κ) (request : Call) (outcome : Outcome) : Loan κ :=
  if endsWatch request && outcome.isOk then { l with isWatching := false } else l

def markBroken (l : Loan κ) : Loan κ := { l with isBroken := true }

/-- A watch that is still pending would fall to the next caller, so such a connection is unsound. -/
def isSound (l : Loan κ) : Bool := !l.isBroken && !l.isWatching

end Loan

/-- Ends a loan: the connection comes back first, then the permit. -/
def Pool.restore (p : Pool κ) (l : Loan κ) : Pool κ := (p.checkIn l.conn l.isSound).giveBack

end Holdfast
