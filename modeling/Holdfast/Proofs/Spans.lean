import Holdfast.Deployment.Clock
import Holdfast.Proofs.Router.Traffic

namespace Holdfast.Deployment

open Store

/-- A relation that spans whatever callers do: it holds over each of the operations that their work
is made of, and so over all of them together. -/
structure Spans (R : Deployment → Deployment → Prop) : Prop where
  refl : ∀ d, R d d
  trans : ∀ {d₁ d₂ d₃}, R d₁ d₂ → R d₂ d₃ → R d₁ d₃
  stores : ∀ d stores, R d { d with stores }
  owner : ∀ d : Deployment, R d d.spendOwner
  pools : ∀ {d : Deployment} {pools : Pools Link}, d.pools.Used pools → R d { d with pools }
  tasks : ∀ d tasks, R d { d with tasks }

namespace Spans

variable {R : Deployment → Deployment → Prop} {d d' : Deployment}

theorem send (h : Spans R) (d : Deployment) (l : Link) (request : Call) :
    R d (d.send l request).1 := by
  unfold Deployment.send
  split
  · exact h.stores d _
  · exact h.stores d _
  · exact h.refl d
  · exact h.refl d
  · exact h.refl d

theorem dial (h : Spans R) (d : Deployment) (b : Backend) (e : Endpoint) : R d (d.dial b e).1 := by
  unfold Deployment.dial
  split
  · exact h.refl d
  · exact h.refl d
  · exact h.stores d _
  · exact h.stores d _

theorem connected (h : Spans R) (d : Deployment) (f : Flight) : R d (d.connected f).1 := by
  unfold Deployment.connected
  split
  · exact h.refl d
  · split
    · exact h.stores d _
    · exact h.refl d
  · exact h.refl d
  · exact h.refl d

theorem restore (h : Spans R) (d : Deployment) (l : Lent) : R d (d.restore l) :=
  h.pools (used_restore d l)

theorem settleBorrowing (h : Spans R) {id : Nat} {p : Pool Link} {next : Pool Link × Checkout Link}
    (hp : d.pools[id]? = some p) (halike : p.Alike next.1) : R d (d.settleBorrowing id next).1 :=
  h.pools (Pools.used_set hp halike)

theorem borrow (h : Spans R) (d : Deployment) (id : Nat) : R d (d.borrow id).1 := by
  unfold Deployment.borrow
  split
  · next hp => exact h.settleBorrowing hp (Checkout.alike_start _ _)
  · exact h.refl d

theorem stepBorrowing (h : Spans R) {b b' : Borrowing} (hstep : d.stepBorrowing b = some (d', b')) :
    R d d' := by
  unfold Deployment.stepBorrowing at hstep
  obtain ⟨p, hp, hstep⟩ := Option.bind_eq_some_iff.mp hstep
  split at hstep
  · cases hstep
  · obtain ⟨next, hnext, hstep⟩ := Option.bind_eq_some_iff.mp hstep
    cases hstep
    exact h.settleBorrowing hp (Checkout.alike_wake? hnext)
  · next conn _ _ =>
    have hd : (d.send conn .ping).1 = d' := congrArg Prod.fst (Option.some.inj hstep)
    exact hd ▸ h.send d conn .ping
  · split at hstep
    · cases hstep
      exact h.settleBorrowing hp (Checkout.alike_tested _ _ _)
    · cases hstep
  · have hd : (d.dial p.backend p.endpoint).1 = d' := congrArg Prod.fst (Option.some.inj hstep)
    exact hd ▸ h.dial d p.backend p.endpoint
  · next flight _ _ =>
    split at hstep
    · have hd : ((d.connected flight).1.settleBorrowing b.pool
          (Checkout.opened p (d.connected flight).2)).1 = d' :=
        congrArg Prod.fst (Option.some.inj hstep)
      have hp' : (d.connected flight).1.pools[b.pool]? = some p := by rw [connected_pools, hp]
      exact hd ▸ h.trans (h.connected d flight)
        (h.settleBorrowing hp' (Checkout.alike_opened p _))
    · cases hstep

theorem startErrand (h : Spans R) (d : Deployment) (router : Nat) (key : Bytes) (aim : Lock.Aim) :
    R d (d.startErrand router key aim).1 := by
  unfold Deployment.startErrand
  split
  · exact h.borrow d _
  · exact h.refl d

theorem startAttempt (h : Spans R) (d : Deployment) (l : PlacedLock) : R d (d.startAttempt l).1 :=
  h.startErrand d _ _ _

theorem stepErrand (h : Spans R) {e e' : Errand} (hstep : d.stepErrand e = some (d', e')) :
    R d d' := by
  unfold Deployment.stepErrand at hstep
  split at hstep
  · cases hstep
  · split at hstep
    · cases hstep
      exact h.owner d
    · cases hstep
      exact h.refl d
    · obtain ⟨⟨d₁, b₁⟩, hborrow, hstep⟩ := Option.bind_eq_some_iff.mp hstep
      cases hstep
      exact h.stepBorrowing hborrow
  · split at hstep
    · cases hstep
      exact h.restore d _
    · next lent talk _ request _ =>
      have hd : (d.send (lent.loan.before request).conn request).1 = d' :=
        congrArg Prod.fst (Option.some.inj hstep)
      exact hd ▸ h.send d _ request
  · split at hstep
    · cases hstep
      exact h.owner d
    · cases hstep

theorem enterPhase (h : Spans R) (d : Deployment) (w : Waiting) (phase : Lock.Wait.Phase) :
    R d (d.enterPhase w phase).1 := by
  unfold Deployment.enterPhase
  split
  · exact h.startAttempt d _
  · exact h.refl d
  · exact h.refl d

theorem stepWaiting (h : Spans R) {w w' : Waiting} (hstep : d.stepWaiting w = some (d', w')) :
    R d d' := by
  unfold Deployment.stepWaiting at hstep
  split at hstep
  · cases hstep
  · obtain ⟨phase, -, hstep⟩ := Option.bind_eq_some_iff.mp hstep
    have hd : (d.enterPhase w phase).1 = d' := congrArg Prod.fst (Option.some.inj hstep)
    exact hd ▸ h.enterPhase d w phase
  · split at hstep
    · next talk _ =>
      have hd : (d.enterPhase w (w.wait.attempted d.now talk.acquired)).1 = d' :=
        congrArg Prod.fst (Option.some.inj hstep)
      exact hd ▸ h.enterPhase d w _
    · obtain ⟨⟨d₁, e₁⟩, herrand, hstep⟩ := Option.bind_eq_some_iff.mp hstep
      cases hstep
      exact h.stepErrand herrand

theorem stepRequest (h : Spans R) {r r' : Request} (hstep : d.stepRequest r = some (d', r')) :
    R d d' := by
  unfold Deployment.stepRequest at hstep
  split at hstep
  · cases hstep
  · cases hstep
    exact h.send d _ _
  · split at hstep
    · cases hstep
      exact h.refl d
    · cases hstep

theorem stepJob (h : Spans R) {j j' : Job} (hstep : d.stepJob j = some (d', j')) : R d d' := by
  cases j with
  | borrow b =>
    obtain ⟨⟨d₁, b₁⟩, hjob, hstep⟩ := Option.map_eq_some_iff.mp hstep
    cases hstep
    exact h.stepBorrowing hjob
  | errand e =>
    obtain ⟨⟨d₁, e₁⟩, hjob, hstep⟩ := Option.map_eq_some_iff.mp hstep
    cases hstep
    exact h.stepErrand hjob
  | wait w =>
    obtain ⟨⟨d₁, w₁⟩, hjob, hstep⟩ := Option.map_eq_some_iff.mp hstep
    cases hstep
    exact h.stepWaiting hjob
  | request r =>
    obtain ⟨⟨d₁, r₁⟩, hjob, hstep⟩ := Option.map_eq_some_iff.mp hstep
    cases hstep
    exact h.stepRequest hjob
  | attend id index =>
    simp only [Deployment.stepJob] at hstep
    split at hstep
    · split at hstep
      · cases hstep
        exact h.refl d
      · cases hstep
    · cases hstep
  | farewell _ => cases hstep
  | idle => cases hstep

theorem driveJob (h : Spans R) (fuel : Nat) (d : Deployment) (j : Job) :
    R d (d.driveJob fuel j).2.1 := by
  induction fuel generalizing d j with
  | zero => exact h.refl d
  | succ fuel ih =>
    unfold Deployment.driveJob
    split
    · exact h.refl d
    · next hstep => exact h.trans (h.stepJob hstep) (ih _ _)

theorem driveTask (h : Spans R) (d : Deployment) (id : Nat) : R d (d.driveTask id).2 := by
  unfold Deployment.driveTask
  split
  · exact h.refl d
  · split
    · exact h.refl d
    · exact h.trans (h.driveJob _ d _) (h.tasks _ _)

end Spans
end Holdfast.Deployment
