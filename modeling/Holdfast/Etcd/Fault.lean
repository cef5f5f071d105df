namespace Holdfast.Etcd

/-- The status of a request, by its gRPC code. -/
inductive Status
  | ok | cancelled | unknown | invalidArgument | deadlineExceeded | notFound | alreadyExists
  | permissionDenied | resourceExhausted | failedPrecondition | aborted | outOfRange
  | unimplemented | internal | unavailable | dataLoss | unauthenticated
deriving DecidableEq, Repr

/-- The statuses in the order of their codes. -/
def Status.all : List Status :=
  [.ok, .cancelled, .unknown, .invalidArgument, .deadlineExceeded, .notFound, .alreadyExists,
   .permissionDenied, .resourceExhausted, .failedPrecondition, .aborted, .outOfRange,
   .unimplemented, .internal, .unavailable, .dataLoss, .unauthenticated]

/-- A code without a status of its own is unknown. -/
def Status.ofCode (code : Int) : Status :=
  if 0 ≤ code then Status.all[code.toNat]?.getD .unknown else .unknown

inductive Fault
  /-- `caused` where another error lies behind the status. -/
  | status (s : Status) (caused : Bool)
  | transport
  | io
  /-- The request or its answer was refused by the client itself. -/
  | client
deriving DecidableEq, Repr

def Status.isTransient (caused : Bool) : Status → Bool
  | .unknown => !caused
  | .deadlineExceeded | .resourceExhausted | .internal | .unavailable | .dataLoss => true
  | _ => false

def Fault.isTransient : Fault → Bool
  | status s caused => s.isTransient caused
  | transport | io => true
  | client => false

end Holdfast.Etcd
