import Holdfast.Proofs.Turns

namespace Holdfast.Deployment

open Failover Store

variable {d d' : Deployment} {b : Backend} {s : Search}

/-- What lasts, whatever the time is, holds after a pause as well. -/
theorem Lasting.awaitSearch {P : Deployment → Prop} (h : Lasting P)
    (hclock : ∀ {d now}, P d → P { d with now := now }) (hd : P d) (s : Search) :
    P (d.awaitSearch s) := by
  unfold Deployment.awaitSearch
  split
  · next due _ =>
    have hfounded : Founded P (· = .idle) := .of_still h (fun _ hd => hclock hd) fun _ => rfl
    exact hclock (hfounded.runJob horizon hd rfl (some due)).1
  · exact hd
  · exact hd

/-- What a search keeps in its pauses and by its steps holds of its end. -/
theorem search?_ends {R : Deployment → Search → Prop}
    (hawait : ∀ {d s}, R d s → R (d.awaitSearch s) s)
    (hstep : ∀ {d d' s s'}, R d s → d.stepSearch b s = some (d', s') → R d' s')
    {fuel : Nat} {result : Except TopologyError Topology} (hr : R d s)
    (h : search? b fuel d s = some (d', result)) : ∃ s', R d' s' ∧ s'.phase = .over result := by
  induction fuel generalizing d s with
  | zero => cases h
  | succ fuel ih =>
    unfold search? at h
    split at h
    · next result' hresult =>
      cases h
      unfold Search.result? at hresult
      split at hresult
      · next phase =>
        cases hresult
        exact ⟨s, hr, phase⟩
      · cases hresult
      · cases hresult
    · obtain ⟨⟨d₁, s₁⟩, hnext, h⟩ := Option.bind_eq_some_iff.mp h
      exact ih (hstep (hawait hr) hnext) h

/-- A discovery comes to what its search does. -/
theorem discover_ends {R : Deployment → Search → Prop}
    (hawait : ∀ {d s}, R d s → R (d.awaitSearch s) s)
    (hstep : ∀ {d d' s s'}, R d s → d.stepSearch b s = some (d', s') → R d' s')
    {peers : List Endpoint} {names : List String} {retries backoff : Nat}
    (hr : R d (.start peers names retries backoff)) :
    ∃ s, R (d.discover b peers names retries backoff).1 s ∧
      s.phase = .over (d.discover b peers names retries backoff).2 :=
  search?_ends (R := R) hawait hstep hr (Option.some_get _).symm

end Holdfast.Deployment
