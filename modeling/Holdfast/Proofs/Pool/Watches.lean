import Holdfast.Proofs.Connection
import Holdfast.Proofs.Pool.Hall

namespace Holdfast

open Store Memory

namespace Memory

/-- How a call leaves the watches of a connection: only a watch adds to them, and they are over where
a call that ends them has succeeded. -/
structure Follows (c : Connection) (r : Call) (c' : Connection) (settled : Option Outcome) :
    Prop where
  clean : c.watched = [] → (∀ key, r ≠ .watch key) → c'.watched = []
  ended : ∀ x, settled = some (.ok x) → Loan.endsWatch r → c'.watched = []

theorem Connection.call_follows (c : Connection) (s : Server) (now : Nat) (r : Call) :
    Follows c r (c.call s now r).1 (Pool.settled? (c.call s now r).2.2) := by
  cases hcut : c.isCut s with
  | true =>
    rw [call_cut hcut]
    exact ⟨fun hclean _ => hclean, fun x hx => by cases hx⟩
  | false =>
    cases r with
    | watch key => exact ⟨fun _ hr => absurd rfl (hr key), fun x _ hends => by cases hends⟩
    | unwatch => exact ⟨fun _ _ => by simp [call, hcut], fun x _ _ => by simp [call, hcut]⟩
    | exec ws =>
      have hwatched : (c.call s now (.exec ws)).1.watched = [] := by
        cases hu : c.isUntouched s.node now <;> simp [call, hcut, exec, hu]
      exact ⟨fun _ _ => hwatched, fun x _ _ => hwatched⟩
    | get key =>
      have hsame : (c.call s now (.get key)).1 = c := by
        cases hd : s.readDelay <;> simp [call, hcut, hd]
      rw [hsame]
      exact ⟨fun hclean _ => hclean, fun x _ hends => by cases hends⟩
    | setIfAbsent | expire | ping =>
      refine ⟨fun hclean _ => ?_, fun x _ hends => by cases hends⟩
      simp [call, hcut, hclean]

namespace Cluster

theorem call_follows (c : Cluster) (conn : Connection) (now : Nat) (r : Call) :
    Follows conn r (c.call conn now r).2.1 (Pool.settled? (c.call conn now r).2.2) := by
  unfold call
  split
  · exact ⟨fun hclean _ => hclean, fun x hx => by cases hx⟩
  · next s hs => exact conn.call_follows s now r

theorem connect_watched {c : Cluster} {e : Endpoint} {conn : Connection}
    (h : (c.connect e).2 = .ok conn) : conn.watched = [] := by
  unfold connect at h
  split at h
  · cases h
  · next s hs =>
    split at h
    · next new hnew =>
      obtain rfl := Except.ok.inj h
      unfold Server.connect at hnew
      split at hnew
      · cases hnew; rfl
      · cases hnew
    · cases h

/-- A transaction on a connection that watches nothing runs, or does not get through. -/
theorem call_exec {conn : Connection} (h : conn.watched = []) (c : Cluster) (now : Nat)
    (ws : List Write) : ∃ o, (c.call conn now (.exec ws)).2.2 = .now o ∧
      (o = .error (.unreachable conn.endpoint) ∨ ∃ es, o = .ok (.effects (some es))) := by
  unfold call
  split
  · exact ⟨_, rfl, .inl rfl⟩
  · next s hs =>
    cases hcut : conn.isCut s with
    | true =>
      rw [Connection.call_cut hcut]
      exact ⟨_, rfl, .inl rfl⟩
    | false =>
      have hu : conn.isUntouched s.node now = true := by simp [Connection.isUntouched, h]
      refine ⟨.ok (.effects (some (s.node.applyAll now ws).2)), ?_, .inr ⟨_, rfl⟩⟩
      simp [Connection.call, hcut, Connection.exec, hu]

end Cluster
end Memory

namespace Pool

/-- Whether a watch was begun after which nothing that ends it is known to have succeeded. -/
def Pending (notes : List Note) : Prop :=
  ∃ later key earlier, notes = later ++ .asked (.watch key) :: earlier ∧
    ∀ request r, .heard request (.ok r) ∈ later → Loan.endsWatch request = false

def Note.health? : Note → Option Bool
  | .reported isHealthy => some isHealthy
  | .asked _ | .heard .. => none

/-- The health that was reported last. A connection of which nothing was reported is healthy. -/
def isHealthy (notes : List Note) : Bool := (notes.findSome? Note.health?).getD true

theorem not_pending_nil : ¬ Pending [] := by
  rintro ⟨later, key, earlier, h, -⟩
  simp at h

theorem pending_cons (n : Note) (notes : List Note) :
    Pending (n :: notes) ↔ (∃ key, n = .asked (.watch key)) ∨
      (Pending notes ∧ ∀ request r, n = .heard request (.ok r) →
        Loan.endsWatch request = false) := by
  constructor
  · rintro ⟨later, key, earlier, h, hlater⟩
    cases later with
    | nil =>
      left
      exact ⟨key, (List.cons.inj h).1⟩
    | cons m later =>
      right
      obtain ⟨rfl, rfl⟩ := List.cons.inj h
      refine ⟨⟨later, key, earlier, rfl, ?_⟩, ?_⟩
      · intro request r hmem
        exact hlater request r (List.mem_cons_of_mem _ hmem)
      · rintro request r rfl
        exact hlater request r List.mem_cons_self
  · rintro (⟨key, rfl⟩ | ⟨⟨later, key, earlier, rfl, hlater⟩, hn⟩)
    · exact ⟨[], key, notes, rfl, by simp⟩
    · refine ⟨n :: later, key, earlier, rfl, ?_⟩
      intro request r hmem
      rcases List.mem_cons.mp hmem with heq | hmem
      · exact hn request r heq.symm
      · exact hlater request r hmem

end Pool

/-- A loan that shows what its borrower has done, on a connection that watches nothing unless the
loan shows it. -/
structure Loan.Shows (l : Loan Connection) (asked : Option (Call × Option Outcome))
    (notes : List Pool.Note) : Prop where
  watching : l.isWatching = true ↔ Pool.Pending notes
  broken : l.isBroken = !Pool.isHealthy notes
  clean : l.isWatching = false → l.conn.watched = []
  ended : ∀ r x, asked = some (r, some (.ok x)) → Loan.endsWatch r → l.conn.watched = []

namespace Loan.Shows

open Pool

variable {l : Loan Connection} {asked : Option (Call × Option Outcome)} {notes : List Note}

/-- A loan is sound where it was not reported broken and no watch is pending. -/
theorem isSound_iff (h : l.Shows asked notes) :
    l.isSound = true ↔ isHealthy notes = true ∧ ¬ Pending notes := by
  have hwatching : ¬ Pending notes ↔ l.isWatching = false := by
    rw [← h.watching, Bool.not_eq_true]
  rw [hwatching, Loan.isSound, h.broken]
  simp

theorem of_clean {conn : Connection} (h : conn.watched = []) : Shows { conn } asked [] :=
  ⟨iff_of_false Bool.false_ne_true not_pending_nil, rfl, fun _ => h, fun _ _ _ _ => h⟩

theorem cut (h : l.Shows asked notes) : l.Shows none notes :=
  ⟨h.watching, h.broken, h.clean, fun _ _ hnone _ => by cases hnone⟩

theorem report (h : l.Shows asked notes) (isHealthy : Bool) :
    Shows { l with isBroken := !isHealthy } asked (.reported isHealthy :: notes) := by
  refine ⟨?_, rfl, h.clean, h.ended⟩
  rw [pending_cons]
  simp [h.watching]

theorem ask (h : l.Shows asked notes) {r : Call} {conn : Connection} {settled : Option Outcome}
    (hf : Follows l.conn r conn settled) :
    Shows { l.before r with conn } (some (r, settled)) (.asked r :: notes) := by
  have hended (r' : Call) (x : Reply) (heq : some (r, settled) = some (r', some (.ok x)))
      (hends : endsWatch r') : conn.watched = [] := by
    cases heq
    exact hf.ended x rfl hends
  by_cases hr : ∃ key, r = .watch key
  · obtain ⟨key, rfl⟩ := hr
    refine ⟨?_, h.broken, ?_, hended⟩
    · simp [Loan.before, pending_cons]
    · simp [Loan.before]
  · have hbefore : l.before r = l := by
      cases r with
      | watch key => exact absurd ⟨key, rfl⟩ hr
      | setIfAbsent | get | expire | unwatch | exec | ping => rfl
    rw [hbefore]
    refine ⟨?_, h.broken, ?_, hended⟩
    · rw [pending_cons, h.watching]
      simp [hr]
    · intro hflag
      exact hf.clean (h.clean hflag) fun key heq => hr ⟨key, heq⟩

theorem hear (h : l.Shows asked notes) {r : Call} {settled : Option Outcome} {o : Outcome}
    (hasked : asked = some (r, settled)) (ho : settled = none → endsWatch r = false) :
    (l.after r (settled.getD o)).Shows none (.heard r (settled.getD o) :: notes) := by
  cases hend : endsWatch r && (settled.getD o).isOk with
  | true =>
    obtain ⟨hends, hok⟩ := (Bool.and_eq_true _ _).mp hend
    obtain ⟨x, hx⟩ : ∃ x, settled.getD o = .ok x := by
      cases hr : settled.getD o with
      | ok x => exact ⟨x, rfl⟩
      | error f => rw [hr] at hok; cases hok
    -- what ends the watches is settled when it is asked, so the connection was clean from then on
    have hsettled : settled = some (.ok x) := by
      cases settled with
      | none => rw [ho rfl] at hends; cases hends
      | some o' => exact congrArg some hx
    have hover : ¬ Pending (.heard r (settled.getD o) :: notes) := by
      rw [pending_cons, hx]
      rintro (⟨key, hkey⟩ | ⟨-, hnone⟩)
      · cases hkey
      · rw [hnone r x rfl] at hends
        cases hends
    have hafter : l.after r (settled.getD o) = { l with isWatching := false } := by
      simp [Loan.after, hend]
    rw [hafter]
    refine ⟨iff_of_false Bool.false_ne_true hover, h.broken, fun _ => ?_, fun _ _ hnone _ => ?_⟩
    · exact h.ended r x (hsettled ▸ hasked) hends
    · cases hnone
  | false =>
    have hpending : Pending (.heard r (settled.getD o) :: notes) ↔ Pending notes := by
      rw [pending_cons]
      constructor
      · rintro (⟨key, hkey⟩ | ⟨hp, -⟩)
        · cases hkey
        · exact hp
      · intro hp
        refine .inr ⟨hp, fun r' x heq => ?_⟩
        obtain ⟨rfl, hx⟩ := Note.heard.inj heq
        rw [hx] at hend
        simpa [Except.isOk, Except.toBool] using hend
    have hafter : l.after r (settled.getD o) = l := by simp [Loan.after, hend]
    rw [hafter]
    refine ⟨h.watching.trans hpending.symm, h.broken, h.clean, fun _ _ hnone _ => ?_⟩
    cases hnone

end Loan.Shows
end Holdfast
