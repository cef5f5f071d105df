namespace Holdfast

/-- A conversation with a server: requests, each with what follows its answer, and pauses. The type
of an answer depends on the request. -/
inductive Exchange {ι : Type} (ρ : ι → Type) (α : Type) : Type
  | done (a : α)
  | send (request : ι) (next : ρ request → Exchange ρ α)
  | pause (ms : Nat) (rest : Exchange ρ α)

namespace Exchange
variable {ι : Type} {ρ : ι → Type}

def bind (e : Exchange ρ α) (f : α → Exchange ρ β) : Exchange ρ β :=
  match e with
  | done a => f a
  | send request next => send request fun answer => (next answer).bind f
  | pause ms rest => pause ms (rest.bind f)

instance : Monad (Exchange ρ) where
  pure := done
  bind := bind

def ask (request : ι) : Exchange ρ (ρ request) := send request done

def rest (ms : Nat) : Exchange ρ Unit := pause ms (done ())

/-- What a conversation with a server comes to: the server afterwards, the milliseconds of the
pauses, and the result. -/
def run (serve : σ → (request : ι) → σ × ρ request) (s : σ) : Exchange ρ α → σ × Nat × α
  | done a => (s, 0, a)
  | send request next =>
    let (s, answer) := serve s request
    (next answer).run serve s
  | pause ms rest =>
    let (s, elapsed, a) := rest.run serve s
    (s, ms + elapsed, a)

@[simp] theorem bind_done (e : Exchange ρ α) : e.bind done = e := by
  induction e with
  | done => rfl
  | send request next ih => simp [bind, ih]
  | pause ms rest ih => simp [bind, ih]

end Exchange
end Holdfast
