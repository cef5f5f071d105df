import Holdfast.Store.Retry
import Mathlib.Algebra.Ring.Nat
import Mathlib.Order.Bounds.Defs

namespace Holdfast.Store

variable {α : Type}

/-- An outcome after which nothing is tried again: a success, or a failure that is not transient. -/
def Settles (o : Except Failure α) : Prop := ∀ f, o = .error f → f.isTransient = false

namespace Rehearsal

/-- What the call of a number comes to, counted from zero; after the last outcome that is laid down
every call fails for good. -/
def outcome (outcomes : List (Except Failure α)) (i : Nat) : Except Failure α :=
  outcomes[i]?.getD (.error (.protocol "script exhausted"))

/-- The time from the first call to the one of a number. -/
def offset (delays : List Nat) (i : Nat) : Nat := (delays.take i).sum

theorem call_eq (r : Rehearsal α) : call r = (outcome r.outcomes 0,
    { r with outcomes := r.outcomes.tail, callsAt := r.callsAt ++ [r.clock] }) := by
  obtain ⟨clock, outcomes, callsAt⟩ := r
  cases outcomes <;> rfl

theorem outcome_tail (outcomes : List (Except Failure α)) (i : Nat) :
    outcome outcomes.tail i = outcome outcomes (i + 1) := by
  cases outcomes <;> rfl

end Rehearsal

/-- The number of the last call: it settles the matter, or there is no delay left. -/
def IsLastCall (delays : List Nat) (outcome : Nat → Except Failure α) (k : Nat) : Prop :=
  IsLeast {i | i = delays.length ∨ Settles (outcome i)} k

namespace IsLastCall

variable {delays : List Nat} {outcome : Nat → Except Failure α} {delay k : Nat}

theorem first (h : delays = [] ∨ Settles (outcome 0)) : IsLastCall delays outcome 0 := by
  refine ⟨?_, fun i _ => Nat.zero_le i⟩
  rcases h with rfl | h
  · exact .inl rfl
  · exact .inr h

/-- After a transient failure the rest is as if the operation had just begun. -/
theorem later (hfirst : ¬ Settles (outcome 0))
    (h : IsLastCall delays (fun i => outcome (i + 1)) k) :
    IsLastCall (delay :: delays) outcome (k + 1) := by
  refine ⟨h.1.imp (congrArg (· + 1)) id, ?_⟩
  rintro (_ | i) hi
  · rcases hi with hend | hsettles
    · cases hend
    · exact absurd hsettles hfirst
  · exact Nat.succ_le_succ (h.2 (hi.imp Nat.succ.inj id))

end IsLastCall

namespace Rehearsal

/-- A rehearsal after the calls up to the one of the number `k`. -/
def played (r : Rehearsal α) (delays : List Nat) (k : Nat) : Rehearsal α where
  clock := r.clock + offset delays k
  outcomes := r.outcomes.drop (k + 1)
  callsAt := r.callsAt ++ (List.range (k + 1)).map fun i => r.clock + offset delays i

theorem played_zero (r : Rehearsal α) (delays : List Nat) : r.played delays 0 = (call r).2 := by
  simp [played, offset, call_eq]

theorem played_succ (r : Rehearsal α) (delay : Nat) (delays : List Nat) (k : Nat) :
    r.played (delay :: delays) (k + 1) = (pause delay (call r).2).2.played delays k := by
  have hoffset : ∀ i, offset (delay :: delays) (i + 1) = delay + offset delays i := fun _ => rfl
  have htimes : (List.range (k + 1 + 1)).map (fun i => r.clock + offset (delay :: delays) i) =
      r.clock :: (List.range (k + 1)).map fun i => r.clock + delay + offset delays i := by
    rw [List.range_succ_eq_map, List.map_cons, List.map_map]
    refine congrArg (List.cons _) (List.map_congr_left fun i _ => ?_)
    rw [Function.comp_apply, hoffset, Nat.add_assoc]
  unfold played
  rw [htimes, call_eq]
  simp [pause, hoffset, Nat.add_assoc]

theorem retrying_cons (delay : Nat) (delays : List Nat) (r : Rehearsal α) :
    (retrying Failure.isTransient pause call (delay :: delays)).run r =
      match (call r).1 with
      | .ok a => (.ok a, (call r).2)
      | .error f =>
        if f.isTransient then
          (retrying Failure.isTransient pause call delays).run (pause delay (call r).2).2
        else (.error f, (call r).2) := by
  have hcall : StateT.run call r = call r := rfl
  rw [retrying, StateT.run_bind, hcall]
  obtain ⟨o, r'⟩ := call r
  cases o with
  | ok a => rfl
  | error f =>
    change StateT.run (if f.isTransient then do
      pause delay
      retrying Failure.isTransient pause call delays
      else pure (.error f)) r' = if f.isTransient then _ else _
    split <;> rfl

/-- However a rehearsal has begun, the operation is called until its outcome settles the matter or no
delay is left. -/
theorem retrying_run (delays : List Nat) (r : Rehearsal α) :
    ∃ k, IsLastCall delays (outcome r.outcomes) k ∧
      (retrying Failure.isTransient pause call delays).run r =
        (outcome r.outcomes k, r.played delays k) := by
  induction delays generalizing r with
  | nil =>
    refine ⟨0, .first (.inl rfl), ?_⟩
    rw [played_zero]
    have honce : (retrying Failure.isTransient pause call []).run r = call r := rfl
    rw [honce, call_eq]
  | cons delay delays ih =>
    have hout : outcome r.outcomes 0 = (call r).1 := (congrArg Prod.fst (call_eq r)).symm
    rw [retrying_cons]
    cases hcall : (call r).1 with
    | ok a =>
      rw [hcall] at hout
      refine ⟨0, .first (.inr ?_), ?_⟩
      · rw [hout]
        nofun
      · rw [hout, played_zero]
    | error f =>
      rw [hcall] at hout
      cases htransient : f.isTransient with
      | false =>
        refine ⟨0, .first (.inr ?_), ?_⟩
        · rw [hout]
          rintro f' ⟨⟩
          exact htransient
        · simp [hout, played_zero, htransient]
      | true =>
        obtain ⟨k, hlast, hrun⟩ := ih (pause delay (call r).2).2
        have hrest : outcome (pause delay (call r).2).2.outcomes =
            fun i => outcome r.outcomes (i + 1) := by
          funext i
          rw [← outcome_tail, call_eq]
          rfl
        rw [hrest] at hlast hrun
        refine ⟨k + 1, hlast.later fun hsettles => ?_, ?_⟩
        · rw [hsettles f hout] at htransient
          cases htransient
        · simp only [htransient, if_true, hrun, played_succ]

/-- An operation is called until it has succeeded, has failed for good or no delay is left, and what
the last call has come to is the result. The calls are the delays apart, and no delay follows the
last one. -/
theorem retry_until_settled (delays : List Nat) (outcomes : List (Except Failure α)) :
    ∃ k, IsLeast {i | i = delays.length ∨ Settles (outcome outcomes i)} k ∧
      retry delays outcomes =
        (outcome outcomes k,
          { clock := offset delays k
            outcomes := outcomes.drop (k + 1)
            callsAt := (List.range (k + 1)).map (offset delays) }) := by
  obtain ⟨k, hlast, hrun⟩ := retrying_run delays { outcomes }
  refine ⟨k, hlast, hrun.trans ?_⟩
  simp [played]

example : (retry [10, 100] [.error (.unreachable ⟨"a", 1⟩), .ok 7, .ok 8]).2.callsAt = [0, 10] := by
  decide

end Rehearsal
end Holdfast.Store
