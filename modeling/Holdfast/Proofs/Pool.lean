import Holdfast.Pool.Checkout
import Mathlib.Tactic.Common

namespace Holdfast

variable {κ : Type}

namespace Pool

/-- Two states of a pool between which it was only used. -/
def Alike (p q : Pool κ) : Prop := q.endpoint = p.endpoint ∧ q.phase = p.phase

theorem Alike.refl (p : Pool κ) : p.Alike p := ⟨rfl, rfl⟩

theorem Alike.trans {p q r : Pool κ} (h : p.Alike q) (h' : q.Alike r) : p.Alike r :=
  ⟨h'.1.trans h.1, h'.2.trans h.2⟩

theorem Alike.isClosed {p q : Pool κ} (h : p.Alike q) : q.isClosed = p.isClosed := by
  rw [Pool.isClosed, h.2, Pool.isClosed]

theorem isSealed_of_open {p : Pool κ} (h : p.isClosed = false) : p.isSealed = false := by
  cases hphase : p.phase with
  | serving | shut => simp [isSealed, hphase]
  | sealed | drained => simp [isClosed, hphase] at h

@[simp] theorem isClosed_close (p : Pool κ) : p.close.isClosed = true := by
  unfold close
  split
  · assumption
  · rfl

@[simp] theorem endpoint_close (p : Pool κ) : p.close.endpoint = p.endpoint := by
  unfold close
  split <;> rfl

/-- Who asks for a permit is turned away, or gets one, or has to queue. -/
theorem ask_cases (p : Pool κ) :
    (p.isSealed = true ∧ p.ask = (p, .refused)) ∨
    (p.isSealed = false ∧ 0 < p.free ∧ p.ask = ({ p with free := p.free - 1 }, .admitted)) ∨
    (p.isSealed = false ∧ p.free = 0 ∧ p.ask =
      ({ p with waiting := p.waiting ++ [p.nextTicket], nextTicket := p.nextTicket + 1 },
        .queued p.nextTicket)) := by
  cases hseal : p.isSealed with
  | true => left; exact ⟨rfl, by simp [ask, hseal]⟩
  | false =>
    right
    by_cases hfree : 0 < p.free
    · left; exact ⟨rfl, hfree, by simp [ask, hseal, hfree]⟩
    · right; exact ⟨rfl, by omega, by simp [ask, hseal, hfree]⟩

/-- Who looks after a ticket is turned away, or gets the permit that lies ready, or goes on
waiting. -/
theorem collect_cases (p : Pool κ) (ticket : Nat) :
    (p.isSealed = true ∧ p.collect ticket = (p.withdraw ticket, .refused)) ∨
    (p.isSealed = false ∧ ticket ∈ p.granted ∧
      p.collect ticket = ({ p with granted := p.granted.erase ticket }, .admitted)) ∨
    (p.isSealed = false ∧ ticket ∉ p.granted ∧ p.collect ticket = (p, .waiting)) := by
  cases hseal : p.isSealed with
  | true => left; exact ⟨rfl, by simp [collect, hseal]⟩
  | false =>
    right
    by_cases ht : ticket ∈ p.granted
    · left; exact ⟨rfl, ht, by simp [collect, hseal, ht]⟩
    · right; exact ⟨rfl, ht, by simp [collect, hseal, ht]⟩

theorem alike_keep (p : Pool κ) (conn : κ) : p.Alike (p.keep conn) := by
  unfold keep
  split <;> exact ⟨rfl, rfl⟩

theorem alike_giveBack (p : Pool κ) : p.Alike p.giveBack := by
  unfold giveBack
  split <;> exact ⟨rfl, rfl⟩

theorem alike_withdraw (p : Pool κ) (ticket : Nat) : p.Alike (p.withdraw ticket) := by
  unfold withdraw
  split
  · exact Alike.trans ⟨rfl, rfl⟩ (alike_giveBack _)
  · exact ⟨rfl, rfl⟩

@[simp] theorem idle_giveBack (p : Pool κ) : p.giveBack.idle = p.idle := by
  unfold giveBack
  split <;> rfl

@[simp] theorem idle_withdraw (p : Pool κ) (ticket : Nat) : (p.withdraw ticket).idle = p.idle := by
  unfold withdraw
  split
  · exact idle_giveBack _
  · rfl

theorem idle_restore (p : Pool κ) (l : Loan κ) : (p.restore l).idle =
    if l.isSound && !p.isClosed && p.idle.length < p.maxIdle then l.conn :: p.idle else p.idle := by
  rw [restore, idle_giveBack, checkIn, keep]
  by_cases hsound : l.isSound && !p.isClosed
  · by_cases hroom : p.idle.length < p.maxIdle <;> simp [hsound, hroom]
  · simp [hsound]

theorem alike_enter (p : Pool κ) : p.Alike p.enter.1 := by
  unfold enter
  split
  · exact .refl p
  · rcases p.ask_cases with ⟨-, h⟩ | ⟨-, -, h⟩ | ⟨-, -, h⟩
    · rw [h]; exact .refl p
    · rw [h]; exact ⟨rfl, rfl⟩
    · rw [h]; exact ⟨rfl, rfl⟩

theorem alike_collect (p : Pool κ) (ticket : Nat) : p.Alike (p.collect ticket).1 := by
  rcases p.collect_cases ticket with ⟨-, h⟩ | ⟨-, -, h⟩ | ⟨-, -, h⟩
  · rw [h]; exact alike_withdraw p ticket
  · rw [h]; exact ⟨rfl, rfl⟩
  · rw [h]; exact .refl p

theorem alike_takeIdle (p : Pool κ) : p.Alike p.takeIdle.1 := by
  unfold takeIdle
  split <;> exact ⟨rfl, rfl⟩

theorem alike_restore (p : Pool κ) (l : Loan κ) : p.Alike (p.restore l) := by
  have hin : p.Alike (p.checkIn l.conn l.isSound) := by
    unfold checkIn
    split
    · exact alike_keep p l.conn
    · exact .refl p
  exact hin.trans (alike_giveBack _)

end Pool

namespace Checkout

open Pool Store

/-- Whoever has a permit takes an idle connection, or opens one where there is none. -/
theorem choose_cases (p : Pool κ) : (p.idle = [] ∧ choose p = (p, .opening)) ∨
    ∃ conn rest, p.idle = conn :: rest ∧
      choose p = ({ p with idle := rest }, if p.testOnBorrow then .testing conn else lend conn) := by
  cases hidle : p.idle with
  | nil => left; exact ⟨rfl, by simp [choose, takeIdle, hidle]⟩
  | cons conn rest => right; exact ⟨conn, rest, rfl, by simp [choose, takeIdle, hidle]⟩

theorem start_closed {p : Pool κ} (h : p.isClosed = true) (now : Nat) :
    start p now = (p, fail (.poolClosed p.endpoint)) := by
  simp [start, enter, h]

/-- Who asks an open pool is let in or has to queue. -/
theorem start_open {p : Pool κ} (h : p.isClosed = false) (now : Nat) :
    (0 < p.free ∧ start p now = choose { p with free := p.free - 1 }) ∨
      (p.free = 0 ∧ start p now =
        ({ p with waiting := p.waiting ++ [p.nextTicket], nextTicket := p.nextTicket + 1 },
          .queued p.nextTicket (now + p.patience))) := by
  have hseal := isSealed_of_open h
  rcases p.ask_cases with ⟨hsealed, -⟩ | ⟨-, hfree, hask⟩ | ⟨-, hfree, hask⟩
  · rw [hseal] at hsealed
    cases hsealed
  · left; exact ⟨hfree, by simp [start, enter, h, hask]⟩
  · right; exact ⟨hfree, by simp [start, enter, h, hask]⟩

/-- Where the permits are closed everybody is sent away who looks after a ticket. -/
theorem wake?_sealed {p : Pool κ} (h : p.isSealed = true) (now ticket deadline : Nat) :
    wake? p now ticket deadline = some (p.withdraw ticket, fail (.poolClosed p.endpoint)) := by
  have hendpoint : (p.withdraw ticket).endpoint = p.endpoint := (alike_withdraw p ticket).1
  simp [wake?, collect, h, hendpoint]

/-- A caller leaves the queue because the permits were closed, because one lies ready for it, or
because its time is over. -/
theorem wake?_cases {p : Pool κ} {now ticket deadline : Nat} {next : Pool κ × Checkout κ}
    (hnext : wake? p now ticket deadline = some next) :
    (p.isSealed = true ∧
      next = (p.withdraw ticket, fail (.poolClosed (p.withdraw ticket).endpoint))) ∨
    (p.isSealed = false ∧ ticket ∈ p.granted ∧
      next = choose { p with granted := p.granted.erase ticket }) ∨
    (p.isSealed = false ∧ ticket ∉ p.granted ∧ deadline ≤ now ∧
      next = (p.withdraw ticket, fail (.poolExhausted p.endpoint))) := by
  rcases p.collect_cases ticket with ⟨hseal, heq⟩ | ⟨hseal, ht, heq⟩ | ⟨hseal, ht, heq⟩
  · left; exact ⟨hseal, by simpa [wake?, heq, eq_comm] using hnext⟩
  · right; left; exact ⟨hseal, ht, by simpa [wake?, heq, eq_comm] using hnext⟩
  · right; right; exact ⟨hseal, ht, by simpa [wake?, heq, eq_comm] using hnext⟩

theorem alike_choose (p : Pool κ) : p.Alike (choose p).1 := by
  have h := alike_takeIdle p
  unfold choose
  split
  · next heq => rwa [heq] at h
  · next heq => rwa [heq] at h

theorem alike_start (p : Pool κ) (now : Nat) : p.Alike (start p now).1 := by
  have h := alike_enter p
  unfold start
  split
  · next heq => rwa [heq] at h
  · next heq => rw [heq] at h; exact h.trans (alike_choose _)
  · next heq => rwa [heq] at h

theorem alike_wake? {p : Pool κ} {now ticket deadline : Nat} {next : Pool κ × Checkout κ}
    (hnext : wake? p now ticket deadline = some next) : p.Alike next.1 := by
  have h := alike_collect p ticket
  unfold wake? at hnext
  split at hnext
  · next heq => rw [heq] at h; cases hnext; exact h
  · next heq => rw [heq] at h; cases hnext; exact h.trans (alike_choose _)
  · next heq =>
    rw [heq] at h
    split at hnext
    · cases hnext; exact h.trans (alike_withdraw _ ticket)
    · cases hnext

theorem alike_tested (p : Pool κ) (conn : κ) (o : Outcome) : p.Alike (tested p conn o).1 := by
  cases o with
  | ok r => exact .refl p
  | error f => exact alike_choose p

theorem alike_opened (p : Pool κ) (r : Except Failure κ) : p.Alike (opened p r).1 := by
  cases r with
  | ok conn => exact .refl p
  | error f => exact alike_giveBack p

theorem alike_abandon (p : Pool κ) (c : Checkout κ) : p.Alike (abandon p c) := by
  match c with
  | .queued ticket _ => exact alike_withdraw p ticket
  | .testing _ => exact alike_giveBack p
  | .opening => exact alike_giveBack p
  | .over (.ok loan) => exact alike_restore p loan
  | .over (.error _) => exact .refl p

end Checkout
end Holdfast
