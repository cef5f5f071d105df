namespace Holdfast.Redis

inductive Fault
  /-- The connection was refused, lost or timed out. -/
  | io
  /-- The server is still loading its data. -/
  | loading
  /-- The server asks to try again later. -/
  | tryAgain
  /-- Any other refusal by the server, or a reply of the wrong type. -/
  | refused
deriving DecidableEq, Repr

def Fault.isTransient : Fault → Bool
  | io | loading | tryAgain => true
  | refused => false

end Holdfast.Redis
