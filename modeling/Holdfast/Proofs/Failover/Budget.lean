import Holdfast.Proofs.Config.Validation
import Holdfast.Proofs.Failover.Accounts
import Holdfast.Proofs.Failover.Searching

namespace Holdfast.Deployment

open Failover Store

variable {b : Backend} {peers : List Endpoint} {names : List String} {retries backoff : Nat}
  {d : Deployment} {s : Search} {c : Config} {kind : Kind} {hasDiscovery : Bool}

end Holdfast.Deployment
