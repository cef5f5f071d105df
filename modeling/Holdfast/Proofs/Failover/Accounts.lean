import Holdfast.Proofs.Failover.Rounds
import Mathlib.Algebra.Group.Action.Defs
import Mathlib.Algebra.Order.BigOperators.Group.List
import Mathlib.Algebra.Order.Ring.Nat

namespace Holdfast.Failover

section
variable {peers : List Endpoint} {names : List String} {retries backoff start : Nat}
  {rounds : List Round} {masters : List Endpoint} {failures next : Nat}

namespace Silent

variable {name : String} {asked ahead : List Endpoint} {queries : List Query}

theorem asks (h : Silent name asked queries) {shard : Nat} (about : names[shard]? = some name)
    (whole : asked ++ ahead = peers) (began ended : Nat) :
    Round.Asks peers names ⟨shard, began, queries, ended⟩ where
  order := ⟨ahead, by rw [h.1, whole]⟩
  name q hq := by rw [about, (h.2 q hq).1]
  missed q hq := (h.2 q (List.dropLast_subset _ hq)).2

end Silent

theorem asks_of_found {name : String} {missed rest : List Endpoint} {queries : List Query}
    {q : Query} (h : Silent name missed queries) {shard : Nat} (about : names[shard]? = some name)
    (hname : q.name = name) (whole : missed ++ q.peer :: rest = peers) (began ended : Nat) :
    Round.Asks peers names ⟨shard, began, queries ++ [q], ended⟩ where
  order := ⟨rest, by rw [List.map_append, h.1, ← whole]; simp⟩
  name p hp := by
    rcases List.mem_append.mp hp with hp | hp
    · rw [about, (h.2 p hp).1]
    · rw [about, List.mem_singleton.mp hp, hname]
  missed p hp := by
    rw [List.dropLast_concat] at hp
    exact (h.2 p hp).2

namespace Course

theorem asks (so : Course peers names backoff start rounds masters failures next) :
    ∀ R ∈ rounds, R.Asks peers names := by
  induction so with
  | start => nofun
  | found _ about silent last whole ih =>
    exact List.forall_mem_cons.mpr ⟨asks_of_found silent about last.1 whole _ _, ih⟩
  | failed _ about silent ih =>
    exact List.forall_mem_cons.mpr ⟨silent.asks about (List.append_nil _) _ _, ih⟩

theorem length_eq (so : Course peers names backoff start rounds masters failures next) :
    rounds.length = masters.length + failures := by
  induction so with
  | start => rfl
  | found _ _ _ _ _ ih =>
    rw [List.length_cons, List.length_append, List.length_singleton, ih]
    omega
  | failed _ _ _ ih =>
    rw [List.length_cons, ih]
    omega

end Course

end

end Holdfast.Failover
