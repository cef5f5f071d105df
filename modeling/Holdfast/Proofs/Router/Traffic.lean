import Holdfast.Proofs.Pool
import Holdfast.Proofs.Router.Table

namespace Holdfast

namespace Pools

variable {κ : Type}

/-- What a caller of pools leaves behind: the same pools in another state. -/
def Used (ps ps' : Pools κ) : Prop :=
  ∀ (id : Nat) (p : Pool κ), ps[id]? = some p → ∃ p', ps'[id]? = some p' ∧ p.Alike p'

theorem Used.refl (ps : Pools κ) : ps.Used ps := fun _ p hp => ⟨p, hp, .refl p⟩

theorem Used.trans {ps₁ ps₂ ps₃ : Pools κ} (h : ps₁.Used ps₂) (h' : ps₂.Used ps₃) :
    ps₁.Used ps₃ := by
  intro id p hp
  obtain ⟨p', hp', hsame⟩ := h id p hp
  obtain ⟨p'', hp'', hsame'⟩ := h' id p' hp'
  exact ⟨p'', hp'', hsame.trans hsame'⟩

theorem used_set {ps : Pools κ} {id : Nat} {p q : Pool κ} (hp : ps[id]? = some p)
    (h : p.Alike q) : ps.Used (ps.set id q) := by
  intro i p' hp'
  by_cases hi : id = i
  · subst hi
    rw [hp] at hp'
    cases hp'
    have hid : id < ps.length := (List.getElem?_eq_some_iff.mp hp).1
    exact ⟨q, List.getElem?_set_self hid, h⟩
  · rw [List.getElem?_set_ne hi]
    exact ⟨p', hp', .refl p'⟩

theorem used_modify (ps : Pools κ) (id : Nat) {f : Pool κ → Pool κ}
    (h : ∀ p : Pool κ, p.Alike (f p)) :
    ps.Used (ps.modify id f) := by
  intro i p hp
  rw [List.getElem?_modify, hp]
  refine ⟨_, rfl, ?_⟩
  by_cases hi : id = i
  · simpa [hi] using h p
  · simpa [hi] using Pool.Alike.refl p

/-- Using the pools is no concern of any router. -/
theorem Used.elsewhere {ps ps' : Pools κ} (h : ps.Used ps') (r : Router) :
    Router.Elsewhere r ps ps' := by
  intro id p hp
  obtain ⟨p', hp', halike⟩ := h id p hp
  exact ⟨p', hp', halike.1, fun h => halike.isClosed.trans h, fun _ => halike.isClosed⟩

end Pools

namespace Deployment

open Store

variable {d d' : Deployment}

theorem send_pools (d : Deployment) (l : Link) (request : Call) :
    (d.send l request).1.pools = d.pools := by
  unfold send
  split <;> rfl

theorem dial_pools (d : Deployment) (b : Backend) (e : Endpoint) :
    (d.dial b e).1.pools = d.pools := by
  unfold dial
  split <;> rfl

theorem connected_pools (d : Deployment) (f : Flight) : (d.connected f).1.pools = d.pools := by
  unfold connected
  split
  · rfl
  · split <;> rfl
  · rfl
  · rfl

theorem used_restore (d : Deployment) (l : Lent) : d.pools.Used (d.restore l).pools :=
  Pools.used_modify _ _ fun p => Pool.alike_restore p l.loan

theorem used_abandonErrand (d : Deployment) (e : Errand) :
    d.pools.Used (d.abandonErrand e).pools := by
  cases e with
  | borrowing b _ => exact Pools.used_modify _ _ fun p => Checkout.alike_abandon p b.checkout
  | talking lent _ _ => exact used_restore d lent
  | _ => exact .refl _

end Deployment

namespace Session

theorem heedTasks_deployment (σ : Session) : σ.heedTasks.deployment = σ.deployment := by
  unfold heedTasks
  refine List.foldlRecOn (motive := fun s : Session => s.deployment = σ.deployment) _ _ rfl ?_
  intro s hs task _
  rw [← hs]
  dsimp only
  split
  · unfold learn; split <;> rfl
  · rfl

variable {α β : Type}

theorem run_get (f : Session → Act α) (σ : Session) :
    (do f (← get) : Act α).run σ = (f σ).run σ := rfl

theorem run_bind_ok {a : Act α} {f : α → Act β} {σ σ' : Session} {r : α}
    (h : a.run σ = (.ok r, σ')) : (a >>= f).run σ = (f r).run σ' := by
  unfold ExceptT.run at h ⊢
  simp only [bind, ExceptT.bind, ExceptT.mk, StateT.bind, ExceptT.bindCont, h]

/-- A step that always gives a result and leaves the deployment as it is. -/
def Silent (a : Act α) : Prop :=
  ∀ σ : Session, ∃ r σ', a.run σ = (.ok r, σ') ∧ σ'.deployment = σ.deployment

theorem Silent.bind {a : Act α} {f : α → Act β} (ha : Silent a) (hf : ∀ r, Silent (f r)) :
    Silent (a >>= f) := by
  intro σ
  obtain ⟨r, σ₁, hrun, hdep⟩ := ha σ
  obtain ⟨r', σ₂, hrun', hdep'⟩ := hf r σ₁
  refine ⟨r', σ₂, ?_, hdep'.trans hdep⟩
  rw [run_bind_ok hrun, hrun']

theorem silent_numberOf (pool : Nat) : Silent (numberOf pool) := by
  intro σ
  unfold numberOf
  rw [run_get]
  dsimp only
  split
  · next n _ => exact ⟨n, σ, rfl, rfl⟩
  · exact ⟨σ.shownPools.length, _, rfl, rfl⟩

theorem silent_mapM {f : α → Act β} (hf : ∀ a, Silent (f a)) (as : List α) :
    Silent (as.mapM f) := by
  induction as with
  | nil => exact fun σ => ⟨[], σ, rfl, rfl⟩
  | cons a as ih =>
    rw [List.mapM_cons]
    exact (hf a).bind fun b => ih.bind fun bs σ => ⟨b :: bs, σ, rfl, rfl⟩

/-- A session keeps what comes of a change of a router; a refused one leaves it as it is. -/
theorem applyChange_run (id : Nat) (c : Except TopologyError (Pools Link × Router × Bool))
    (σ : Session) : match c with
      | .error e => (applyChange id c).run σ = (.error (.topology e), σ)
      | .ok (pools, r, _) => ∃ shown σ', (applyChange id c).run σ = (.ok shown, σ') ∧
          σ'.deployment =
            { σ.deployment with pools, routers := σ.deployment.routers.set id r } := by
  cases c with
  | error e => rfl
  | ok next =>
    obtain ⟨pools, r, isChanged⟩ := next
    obtain ⟨ids, σ', hrun, hdep⟩ := silent_mapM silent_numberOf r.pools (heedTasks { σ with
      deployment := { σ.deployment with pools, routers := σ.deployment.routers.set id r } })
    rw [heedTasks_deployment] at hdep
    refine ⟨.changed isChanged r.topology ids, σ', ?_, hdep⟩
    exact run_bind_ok (f := fun ids => pure (Result.changed isChanged r.topology ids)) hrun

end Session

namespace Router

variable {κ : Type}

/-- Nor do the changes of one router concern another that shares no pool with it. -/
theorem Site.Sound.elsewhere {s : Site κ} (hs : s.Sound) {r : Router}
    (hapart : ∀ id ∈ r.pools, id ∉ s.router.pools) (c : Change) :
    Elsewhere r s.pools (s.change c).1.pools := by
  have hrefl : Elsewhere r s.pools s.pools := (Pools.Used.refl s.pools).elsewhere r
  rcases s.change_cases c with ⟨e, h, -⟩ | ⟨-, h⟩ | ⟨t, -, -, -, h⟩
  · rwa [h]
  · rwa [h]
  · rw [h]
    intro id p hp
    have hpools := (switched_spec (t := t) hs).pools (List.getElem?_eq_some_iff.mp hp).1
    rw [hp] at hpools
    split at hpools
    · next hgone =>
      refine ⟨p.close, hpools, p.endpoint_close, fun _ => p.isClosed_close, ?_⟩
      intro hid
      exact absurd hgone.1 (hapart id hid)
    · exact ⟨p, hpools, rfl, fun h => h, fun _ => rfl⟩

/-- A session does to its deployment what the change does to the router and the pools, and a refused
change leaves all of it as it is. -/
theorem session_change {id : Nat} {r : Router} {σ : Session}
    (hr : σ.deployment.routers[id]? = some r) (c : Change) :
    ∃ told σ', (Session.applyChange id (r.apply σ.deployment.pools c)).run σ = (told, σ') ∧
      (∀ e, (Site.change ⟨σ.deployment.pools, r⟩ c).2 = .error e →
        told = .error (.topology e) ∧ σ' = σ) ∧
      σ'.deployment = { σ.deployment with
        pools := (Site.change ⟨σ.deployment.pools, r⟩ c).1.pools
        routers := σ.deployment.routers.set id (Site.change ⟨σ.deployment.pools, r⟩ c).1.router } := by
  have hrun := Session.applyChange_run id (r.apply σ.deployment.pools c) σ
  unfold Site.change
  cases happly : r.apply σ.deployment.pools c with
  | error e =>
    rw [happly] at hrun
    refine ⟨_, σ, hrun, ?_, ?_⟩
    · rintro _ ⟨⟩
      exact ⟨rfl, rfl⟩
    · have hsame : σ.deployment.routers.set id r = σ.deployment.routers := by
        obtain ⟨hid, rfl⟩ := List.getElem?_eq_some_iff.mp hr
        exact List.set_getElem_self hid
      simp only [hsame]
  | ok next =>
    obtain ⟨pools, r', isChanged⟩ := next
    rw [happly] at hrun
    obtain ⟨shown, σ', hrun, hdep⟩ := hrun
    exact ⟨_, σ', hrun, by simp, hdep⟩

end Router
end Holdfast
