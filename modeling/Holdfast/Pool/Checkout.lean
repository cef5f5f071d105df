import Holdfast.Pool.Loan

namespace Holdfast

open Store

/-- Borrowing a connection from a pool. Whoever is past the queue holds a permit. -/
inductive Checkout (κ : Type)
  | queued (ticket deadline : Nat)
  /-- An idle connection is asked whether it still answers. -/
  | testing (conn : κ)
  | opening
  | over (result : Except Failure (Loan κ))
deriving Repr

namespace Checkout

def fail (f : Failure) : Checkout κ := .over (.error f)

def lend (conn : κ) : Checkout κ := .over (.ok { conn })

/-- The idle connection that came back last, or else a new one. -/
def choose (p : Pool κ) : Pool κ × Checkout κ :=
  match p.takeIdle with
  | (p, some conn) => (p, if p.testOnBorrow then .testing conn else lend conn)
  | (p, none) => (p, .opening)

def start (p : Pool κ) (now : Nat) : Pool κ × Checkout κ :=
  match p.enter with
  | (p, .refused) => (p, fail (.poolClosed p.endpoint))
  | (p, .admitted) => choose p
  | (p, .queued ticket) => (p, .queued ticket (now + p.patience))

/-- Looks after a ticket; nothing happens while it waits and its time is not over. -/
def wake? (p : Pool κ) (now ticket deadline : Nat) : Option (Pool κ × Checkout κ) :=
  match p.collect ticket with
  | (p, .refused) => some (p, fail (.poolClosed p.endpoint))
  | (p, .admitted) => some (choose p)
  | (p, .waiting) =>
    if deadline ≤ now then some (p.withdraw ticket, fail (.poolExhausted p.endpoint)) else none

/-- A connection that does not answer is let go, and the next one is tried. -/
def tested (p : Pool κ) (conn : κ) : Outcome → Pool κ × Checkout κ
  | .ok _ => (p, lend conn)
  | .error _ => choose p

def opened (p : Pool κ) : Except Failure κ → Pool κ × Checkout κ
  | .ok conn => (p, lend conn)
  | .error f => (p.giveBack, fail f)

/-- Gives up wherever the checkout stands. -/
def abandon (p : Pool κ) : Checkout κ → Pool κ
  | .queued ticket _ => p.withdraw ticket
  | .testing _ | .opening => p.giveBack
  | .over (.ok loan) => p.restore loan
  | .over (.error _) => p

end Checkout
end Holdfast
