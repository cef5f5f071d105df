import Holdfast.Exchange
import Holdfast.Redis.Value

namespace Holdfast.Redis

structure Command where
  name : String
  args : List Bytes := []
deriving DecidableEq, Repr

/-- What is sent to a server. -/
inductive Request
  /-- Opens the connection. -/
  | dial
  | command (c : Command)
  | transaction (cs : List Command)
  | subscribe (channel : String)
deriving DecidableEq, Repr

abbrev Answer (_ : Request) : Type := Except Fault Value

/-- How a connection introduces itself. -/
structure Login where
  user : Option String := none
  password : Option String := none
  database : Int := 0
deriving DecidableEq, Repr

/-- Without a password nobody is named, and database 0 need not be chosen. -/
def Login.commands (l : Login) : List Command :=
  let auth := match l.password with
    | none => []
    | some password => [⟨"AUTH", l.user.toList.map Bytes.ofText ++ [Bytes.ofText password]⟩]
  let select :=
    if l.database = 0 then [] else [⟨"SELECT", [Bytes.ofText (toString l.database)]⟩]
  auth ++ select

/-- A server that cannot be reached. -/
def absent (_ : Unit) (r : Request) : Unit × Answer r := ((), .error .io)

end Holdfast.Redis
