import Holdfast.Proofs.Pool

namespace Holdfast

open Store

namespace Pool

/-- Where a caller of a pool stands between two operations on what it shares with the others. -/
inductive Visit (κ : Type)
  /-- It has found the pool open and is to ask for a permit. -/
  | asking
  /-- It has a permit and is to go for an idle connection. -/
  | admitted
  /-- It waits, or uses its connection, or was turned away. -/
  | resting (c : Checkout κ)
  /-- It has found the pool open and is to put its connection with the idle ones. -/
  | returning (conn : κ)
  /-- All that it has left is its permit. -/
  | parting
  | gone

/-- What a caller does, or what comes to it from the store. -/
inductive Visit.Deed (κ : Type)
  /-- The next operation of its own. -/
  | next
  | ping (conn : κ)
  | answered (o : Outcome)
  | dialled (r : Except Failure κ)
  /-- Uses its connection, or reports that it is broken. -/
  | use (loan : Loan κ)
  /-- Gives up the checkout, or begins to give the connection back. -/
  | leave

/-- One operation of a caller, if it can be done where the caller stands. -/
def Visit.act (v : Visit κ) (p : Pool κ) (now : Nat) (deed : Deed κ) : Option (Pool κ × Visit κ) :=
  match deed, v with
  | .next, .asking =>
    match p.ask with
    | (p, .refused) => some (p, .resting (.fail (.poolClosed p.endpoint)))
    | (p, .admitted) => some (p, .admitted)
    | (p, .queued ticket) => some (p, .resting (.queued ticket (now + p.patience)))
  | .next, .resting (.queued ticket deadline) =>
    match p.collect ticket with
    | (p, .refused) => some (p, .resting (.fail (.poolClosed p.endpoint)))
    | (p, .admitted) => some (p, .admitted)
    | (p, .waiting) =>
      if deadline ≤ now then
        some (p.withdraw ticket, .resting (.fail (.poolExhausted p.endpoint)))
      else none
  | .next, .admitted => let (p, c) := Checkout.choose p; some (p, .resting c)
  | .next, .returning conn => some (p.keep conn, .parting)
  | .next, .parting => some (p.giveBack, .gone)
  | .ping conn, .resting (.testing _) => some (p, .resting (.testing conn))
  | .answered (.ok _), .resting (.testing conn) => some (p, .resting (.lend conn))
  | .answered (.error _), .resting (.testing _) => some (p, .admitted)
  | .dialled r, .resting .opening => let (p, c) := Checkout.opened p r; some (p, .resting c)
  | .use loan, .resting (.over (.ok _)) => some (p, .resting (.over (.ok loan)))
  | .leave, .resting (.over (.ok loan)) =>
    some (p, if loan.isSound && !p.isClosed then .returning loan.conn else .parting)
  | .leave, .resting c => some (c.abandon p, .gone)
  | _, _ => none

/-- A pool with everybody who ever came to it, where each operation on the pool is a move of its
own. A caller goes by the number under which it came. -/
structure Crowd (κ : Type) where
  pool : Pool κ
  now : Nat := 0
  visits : List (Visit κ) := []

namespace Crowd

inductive Move (κ : Type)
  | tick (ms : Nat)
  /-- Somebody comes for a connection, and looks whether the pool is open. -/
  | acquire
  | shut
  | closePermits
  | drain
  | doing (id : Nat) (deed : Visit.Deed κ)

/-- Whoever shuts the pool closes its permits next and drains it then; who finds it shut does no
more. -/
def act (w : Crowd κ) : Move κ → Option (Crowd κ)
  | .tick ms => some { w with now := w.now + ms }
  | .acquire =>
    let v := if w.pool.isClosed then .resting (.fail (.poolClosed w.pool.endpoint)) else .asking
    some { w with visits := w.visits ++ [v] }
  | .shut => some { w with pool := if w.pool.isClosed then w.pool else w.pool.shut }
  | .closePermits =>
    if w.pool.phase = .shut then some { w with pool := w.pool.closePermits } else none
  | .drain => if w.pool.phase = .sealed then some { w with pool := w.pool.drain } else none
  | .doing id deed => do
    let v ← w.visits[id]?
    let (pool, v) ← v.act w.pool w.now deed
    return { w with pool, visits := w.visits.set id v }

def run (w : Crowd κ) : List (Move κ) → Option (Crowd κ)
  | [] => some w
  | m :: ms => (w.act m).bind fun w => w.run ms

/-- A new pool, to which nobody has come yet. -/
def fresh (e : Endpoint) (o : PoolOptions) (b : Backend) : Crowd κ := { pool := .new e o b }

inductive Reaches (w : Crowd κ) : Crowd κ → Prop
  | here : Reaches w w
  | step {u u' : Crowd κ} (h : Reaches w u) (m : Move κ) (hm : u.act m = some u') : Reaches w u'

end Crowd

/-- What one operation of a caller does to the pool, and where it leaves the caller. -/
inductive Passes (p : Pool κ) (now : Nat) : Visit κ → Pool κ → Visit κ → Prop
  | refused (f : Failure) : Passes p now .asking p (.resting (.fail f))
  | admitted (h : 0 < p.free) : Passes p now .asking { p with free := p.free - 1 } .admitted
  | queued (deadline : Nat) : Passes p now .asking
      { p with waiting := p.waiting ++ [p.nextTicket], nextTicket := p.nextTicket + 1 }
      (.resting (.queued p.nextTicket deadline))
  | dismissed (ticket deadline : Nat) (f : Failure) : Passes p now (.resting (.queued ticket deadline))
      (p.withdraw ticket) (.resting (.fail f))
  | granted {ticket : Nat} (deadline : Nat) (h : ticket ∈ p.granted) :
      Passes p now (.resting (.queued ticket deadline))
        { p with granted := p.granted.erase ticket } .admitted
  | chose : Passes p now .admitted (Checkout.choose p).1 (.resting (Checkout.choose p).2)
  | pinged (conn conn' : κ) :
      Passes p now (.resting (.testing conn)) p (.resting (.testing conn'))
  | answered (conn : κ) : Passes p now (.resting (.testing conn)) p (.resting (.lend conn))
  | evicted (conn : κ) : Passes p now (.resting (.testing conn)) p .admitted
  | dialled (conn : κ) : Passes p now (.resting .opening) p (.resting (.lend conn))
  | failed (f : Failure) : Passes p now (.resting .opening) p.giveBack (.resting (.fail f))
  | used (l l' : Loan κ) : Passes p now (.resting (.over (.ok l))) p (.resting (.over (.ok l')))
  | returns (l : Loan κ) (h : p.isClosed = false) :
      Passes p now (.resting (.over (.ok l))) p (.returning l.conn)
  | discards (l : Loan κ) : Passes p now (.resting (.over (.ok l))) p .parting
  | kept (conn : κ) : Passes p now (.returning conn) (p.keep conn) .parting
  | parted : Passes p now .parting p.giveBack .gone
  | withdrew (ticket deadline : Nat) :
      Passes p now (.resting (.queued ticket deadline)) (p.withdraw ticket) .gone
  | gaveUp (c : Checkout κ) (h : (∃ conn, c = .testing conn) ∨ c = .opening) :
      Passes p now (.resting c) p.giveBack .gone
  | left (f : Failure) : Passes p now (.resting (.fail f)) p .gone

variable {κ : Type}

theorem ask_passes {p p' : Pool κ} {now : Nat} {v : Visit κ}
    (h : Visit.act .asking p now .next = some (p', v)) : Passes p now .asking p' v := by
  simp only [Visit.act] at h
  rcases p.ask_cases with ⟨-, heq⟩ | ⟨-, hfree, heq⟩ | ⟨-, -, heq⟩
  · rw [heq] at h
    cases h
    exact .refused _
  · rw [heq] at h
    cases h
    exact .admitted hfree
  · rw [heq] at h
    cases h
    exact .queued _

theorem collect_passes {p p' : Pool κ} {now ticket deadline : Nat} {v : Visit κ}
    (h : Visit.act (.resting (.queued ticket deadline)) p now .next = some (p', v)) :
    Passes p now (.resting (.queued ticket deadline)) p' v := by
  simp only [Visit.act] at h
  rcases p.collect_cases ticket with ⟨-, heq⟩ | ⟨-, ht, heq⟩ | ⟨-, -, heq⟩
  · rw [heq] at h
    cases h
    exact .dismissed _ _ _
  · rw [heq] at h
    cases h
    exact .granted deadline ht
  · rw [heq] at h
    dsimp only at h
    split at h
    · cases h
      exact .dismissed _ _ _
    · cases h

theorem Visit.act_passes {v v' : Visit κ} {p p' : Pool κ} {now : Nat} {deed : Deed κ}
    (h : v.act p now deed = some (p', v')) : Passes p now v p' v' := by
  unfold Visit.act at h
  split at h
  · exact ask_passes h
  · exact collect_passes h
  · cases h; exact .chose
  · cases h; exact .kept _
  · cases h; exact .parted
  · cases h; exact .pinged _ _
  · cases h; exact .answered _
  · cases h; exact .evicted _
  · next r =>
    cases h
    cases r with
    | ok conn => exact .dialled conn
    | error f => exact .failed f
  · cases h; exact .used _ _
  · next l =>
    cases h
    split
    · next hsound =>
      rw [Bool.and_eq_true, Bool.not_eq_true'] at hsound
      exact .returns l hsound.2
    · exact .discards l
  · next c hnot =>
    cases h
    match c with
    | .queued ticket deadline => exact .withdrew ticket deadline
    | .testing conn => exact .gaveUp _ (.inl ⟨conn, rfl⟩)
    | .opening => exact .gaveUp _ (.inr rfl)
    | .over (.ok l) => exact absurd rfl (hnot l)
    | .over (.error f) => exact .left f
  · cases h

namespace Crowd

variable {w w' : Crowd κ}

theorem act_doing {id : Nat} {deed : Visit.Deed κ} (h : w.act (.doing id deed) = some w') :
    ∃ v pool v', w.visits[id]? = some v ∧ Passes w.pool w.now v pool v' ∧
      w' = { w with pool, visits := w.visits.set id v' } := by
  obtain ⟨v, hv, h⟩ := Option.bind_eq_some_iff.mp h
  obtain ⟨⟨pool, v'⟩, hact, h⟩ := Option.bind_eq_some_iff.mp h
  cases h
  exact ⟨v, pool, v', hv, Visit.act_passes hact, rfl⟩

theorem act_closePermits (h : w.act .closePermits = some w') :
    w.pool.phase = .shut ∧ w' = { w with pool := w.pool.closePermits } := by
  simp only [act] at h
  split at h
  · next hphase => cases h; exact ⟨hphase, rfl⟩
  · cases h

theorem act_drain (h : w.act .drain = some w') :
    w.pool.phase = .sealed ∧ w' = { w with pool := w.pool.drain } := by
  simp only [act] at h
  split at h
  · next hphase => cases h; exact ⟨hphase, rfl⟩
  · cases h

theorem run_reaches {u : Crowd κ} {ms : List (Move κ)} (hr : w.Reaches u)
    (h : u.run ms = some w') : w.Reaches w' := by
  induction ms generalizing u with
  | nil => cases h; exact hr
  | cons m ms ih =>
    obtain ⟨v, hm, hrun⟩ := Option.bind_eq_some_iff.mp h
    exact ih (.step hr m hm) hrun

/-- One caller goes on. -/
theorem Reaches.doing {u : Crowd κ} (hr : w.Reaches u) (deed : Visit.Deed κ) {id : Nat}
    {v v' : Visit κ} {pool : Pool κ} (hv : u.visits[id]? = some v)
    (hact : v.act u.pool u.now deed = some (pool, v')) :
    w.Reaches { u with pool, visits := u.visits.set id v' } :=
  .step hr (.doing id deed) (by simp [act, hv, hact])

end Crowd
end Pool
end Holdfast
