import Holdfast.Proofs.Failover.Conduct
import Holdfast.Proofs.Failover.Readers

namespace Holdfast.Deployment

open Failover Store

/-- What can be done next: a listener goes on, time passes while nobody can go on, or the listeners
are cancelled. -/
inductive Turn
  | move (index : Nat) (heeds : Bool)
  | wait (now : Nat)
  | cancel

variable {d d' : Deployment} {id : Nat} {notes : List Note}

end Holdfast.Deployment
