import Holdfast.Deployment.Clock
import Holdfast.Failover.Search

namespace Holdfast

open Failover Store

namespace Failover.Search

theorem left_round (s : Search) : s.round.left ≤
    (s.names.length + s.retries) * (s.peers.length + 3) + (s.peers.length + 1) := by
  unfold round
  split <;> simp [left]

/-- A round that is over for a shard leaves room for a round of the next one, or a pause. -/
theorem mul_lt_of_pred {n m k : Nat} (h : m + 1 = n) : m * (k + 3) + (k + 2) < n * (k + 3) := by
  subst h
  rw [Nat.succ_mul]
  omega

theorem left_failed {s : Search} {peers : List Endpoint} (phase : s.phase = .asking peers)
    (now : Nat) : (s.failed now).left < s.left := by
  unfold failed
  split
  · simp [left, phase]
  · next n retries =>
    have hless := mul_lt_of_pred (k := s.peers.length)
      (show s.names.length + n + 1 = s.names.length + s.retries by omega)
    simp only [left, phase]
    omega

theorem left_answered {s : Search} {peer : Endpoint} {name : String}
    (question : s.question? = some (peer, name)) (answer : Except Failure (Option Endpoint)) :
    (s.answered answer).left < s.left := by
  obtain ⟨peers, backoff, retries, names, found, attempts, phase⟩ := s
  unfold question? at question
  split at question
  · next peers' _ later hphase hnames =>
    cases hphase
    cases hnames
    cases question
    unfold answered
    split
    · next master =>
      refine Nat.lt_of_le_of_lt (left_round _) ?_
      have hless := mul_lt_of_pred (k := peers.length)
        (show later.length + retries + 1 = (name :: later).length + retries by
          rw [List.length_cons]; omega)
      simp only [left, List.tail_cons]
      omega
    · simp [left]
  · cases question

end Failover.Search

namespace Deployment

def stepSearch (d : Deployment) (b : Backend) (s : Search) : Option (Deployment × Search) :=
  match s.phase with
  | .over _ => none
  | .pausing due => if due ≤ d.now then some (d, s.round) else none
  | .asking _ =>
    match s.question? with
    | none => some (d, s.failed d.now)
    | some (peer, name) =>
      let (d, answer) := d.ask b peer name
      some (d, s.answered answer)

/-- Everybody else goes on until a moment, which then has come. -/
def restUntil (d : Deployment) (due : Nat) : Deployment :=
  let (d, _) := d.runJob horizon .idle (some due)
  { d with now := max d.now due }

/-- Lets the pause of a search go by. -/
def awaitSearch (d : Deployment) (s : Search) : Deployment :=
  match s.phase with
  | .pausing due => d.restUntil due
  | .asking _ | .over _ => d

/-- Searches to the end, in so many steps at most. -/
def search? (b : Backend) : Nat → Deployment → Search →
    Option (Deployment × Except TopologyError Topology)
  | 0, _, _ => none
  | fuel + 1, d, s =>
    match s.result? with
    | some result => some (d, result)
    | none => do
      let (d, s) ← (d.awaitSearch s).stepSearch b s
      search? b fuel d s

variable {b : Backend} {d d' : Deployment} {s s' : Search}

/-- Every step of a search brings it nearer to its end. -/
theorem left_stepSearch (h : d.stepSearch b s = some (d', s')) : s'.left < s.left := by
  unfold stepSearch at h
  split at h
  · cases h
  · next due phase =>
    split at h
    · cases h
      refine Nat.lt_of_le_of_lt s.left_round ?_
      simp [Search.left, phase]
    · cases h
  · next peers phase =>
    split at h
    · cases h
      exact Search.left_failed phase _
    · next question =>
      cases h
      exact Search.left_answered question _

theorem stepSearch_of_result? (h : s.result? = none) :
    ∃ next, (d.awaitSearch s).stepSearch b s = some next := by
  cases phase : s.phase with
  | pausing due =>
    simp only [awaitSearch, stepSearch, phase]
    exact ⟨_, if_pos (Nat.le_max_right _ _)⟩
  | asking peers =>
    simp only [awaitSearch, stepSearch, phase]
    split <;> exact ⟨_, rfl⟩
  | _ => simp [Search.result?, phase] at h

/-- A search ends. -/
theorem isSome_search? {fuel : Nat} (h : s.left < fuel) : (search? b fuel d s).isSome = true := by
  induction fuel generalizing d s with
  | zero => cases h
  | succ fuel ih =>
    unfold search?
    split
    · rfl
    · next hresult =>
      obtain ⟨⟨d', s'⟩, hstep⟩ := stepSearch_of_result? (b := b) (d := d) hresult
      rw [hstep]
      exact ih (Nat.lt_of_lt_of_le (left_stepSearch hstep) (Nat.le_of_lt_succ h))

/-- Searches for the masters of shards. -/
def discover (d : Deployment) (b : Backend) (peers : List Endpoint) (names : List String)
    (retries backoff : Nat) : Deployment × Except TopologyError Topology :=
  let s : Search := .start peers names retries backoff
  (search? b (s.left + 1) d s).get (isSome_search? (Nat.lt_succ_self _))

end Deployment
end Holdfast
