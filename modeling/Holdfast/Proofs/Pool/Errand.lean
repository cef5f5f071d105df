import Holdfast.Deployment.Errand
import Holdfast.Proofs.Pool.Desk
import Holdfast.Proofs.Router.Traffic

namespace Holdfast

open Store Pool

/-- What is known of the end of a call that is under way. -/
def Flight.settled? : Flight → Option Outcome
  | .reply _ o => some o
  | .read .. | .dialled .. | .opened _ => none

/-- A caller of the pool `id` that is at the same point as an errand. -/
def Errand.Is (id : Nat) (g : Guest Link) : Errand → Prop
  | .borrowing b _ => b.pool = id ∧ g.checkout = some b.checkout ∧ g.asked = none
  | .talking lent none _ => lent.pool = id ∧ g.checkout = some (.over (.ok lent.loan)) ∧
      g.asked = none
  | .talking lent (some flight) talk => lent.pool = id ∧
      g.checkout = some (.over (.ok lent.loan)) ∧
      ∃ request, talk.call? = some request ∧ g.asked = some (request, flight.settled?)
  | .over _ => g.checkout = none

/-- What a caller does one after the other. -/
def Pool.Guest.acts (now : Nat) : List (Deed Link) → Pool Link × Guest Link →
    Option (Pool Link × Guest Link)
  | [], s => some s
  | deed :: deeds, (p, g) => (g.act p now deed).bind (acts now deeds)

/-- What a caller does goes for the whole desk, where nobody else does anything meanwhile. -/
theorem Pool.Desk.run_acts {w : Desk Link} {i : Nat} {deeds : List (Deed Link)}
    {p' : Pool Link} {g g' : Guest Link} (hg : w.guests[i]? = some g)
    (h : Guest.acts w.now deeds (w.pool, g) = some (p', g')) :
    w.run (deeds.map (.doing i)) = some { w with pool := p', guests := w.guests.set i g' } := by
  obtain ⟨hi, -⟩ := List.getElem?_eq_some_iff.mp hg
  induction deeds generalizing w g with
  | nil =>
    cases h
    have hsame : w.guests.set i g' = w.guests := by
      obtain ⟨hi, rfl⟩ := List.getElem?_eq_some_iff.mp hg
      exact List.set_getElem_self hi
    rw [hsame]
    rfl
  | cons deed deeds ih =>
    obtain ⟨⟨pool, g₁⟩, hact, hrest⟩ := Option.bind_eq_some_iff.mp h
    have hnext := Desk.act_of_guest hg hact
    have hrun := ih (w := { w with pool, guests := w.guests.set i g₁ })
      (List.getElem?_set_self hi) hrest (by simpa using hi)
    simp only [List.map_cons, Desk.run, hnext, Option.bind_some, hrun, List.set_set]

namespace Borrowing

variable {b : Borrowing}

theorem result?_ok {lent : Lent} (h : b.result? = some (.ok lent)) :
    b.pool = lent.pool ∧ b.checkout = .over (.ok lent.loan) := by
  unfold result? at h
  split at h
  · next r hr =>
    cases r with
    | ok loan => cases h; exact ⟨rfl, hr⟩
    | error f => cases h
  · cases h

theorem result?_error {f : Failure} (h : b.result? = some (.error f)) :
    b.checkout = .over (.error f) := by
  unfold result? at h
  split at h
  · next r hr =>
    cases r with
    | ok loan => cases h
    | error f => cases h; exact hr
  · cases h

end Borrowing

namespace Deployment

variable {d d' : Deployment} {id : Nat} {p : Pool Link} {g : Guest Link}

theorem settled_outcome (d : Deployment) (flight : Flight) :
    flight.settled?.getD (d.outcome flight) = d.outcome flight := by
  cases flight <;> rfl

theorem set_pool_self (hp : d.pools[id]? = some p) : d.pools.set id p = d.pools := by
  obtain ⟨hid, rfl⟩ := List.getElem?_eq_some_iff.mp hp
  exact List.set_getElem_self hid

/-- A step of a checkout in a deployment is a deed of the caller, or only dials. -/
theorem stepBorrowing_acts {b b' : Borrowing} (hp : d.pools[b.pool]? = some p)
    (hg : g.checkout = some b.checkout) (h : d.stepBorrowing b = some (d', b')) :
    ∃ deeds p', Guest.acts d.now deeds (p, g) = some (p', { g with checkout := some b'.checkout }) ∧
      b'.pool = b.pool ∧ d'.pools = d.pools.set b.pool p' := by
  obtain ⟨pool, checkout, flight⟩ := b
  obtain ⟨_, asked, notes⟩ := g
  cases hg
  unfold stepBorrowing at h
  obtain ⟨p₀, hp₀, h⟩ := Option.bind_eq_some_iff.mp h
  obtain rfl : p = p₀ := Option.some.inj (hp.symm.trans hp₀)
  split at h
  · cases h
  · next ticket deadline _ hc =>
    obtain ⟨next, hnext, h⟩ := Option.bind_eq_some_iff.mp h
    cases h
    cases hc
    refine ⟨[.wake], next.1, ?_, rfl, rfl⟩
    simp [Guest.acts, Guest.act, hnext]
  · next conn hc hf =>
    cases hc
    have hsent := send_pools d conn .ping
    generalize d.send conn .ping = sent at h hsent
    obtain ⟨d₁, conn', flight'⟩ := sent
    cases h
    exact ⟨[.ping conn'], p, rfl, rfl, by rw [set_pool_self hp]; exact hsent⟩
  · next conn flight hc hf =>
    cases hc
    split at h
    · cases h
      exact ⟨[.answered (d.outcome flight)], _, rfl, rfl, rfl⟩
    · cases h
  · next hc hf =>
    cases hc
    have hdialled := dial_pools d p.backend p.endpoint
    generalize d.dial p.backend p.endpoint = dialled at h hdialled
    obtain ⟨d₁, flight'⟩ := dialled
    cases h
    exact ⟨[], p, rfl, rfl, by rw [set_pool_self hp]; exact hdialled⟩
  · next flight hc hf =>
    cases hc
    split at h
    · have hconnected := connected_pools d flight
      generalize d.connected flight = connected at h hconnected
      obtain ⟨d₁, r⟩ := connected
      cases h
      have hpools : d₁.pools = d.pools := hconnected
      refine ⟨[.dialled r], (Checkout.opened p r).1, rfl, rfl, ?_⟩
      rw [← hpools]
      rfl
    · cases h

theorem modify_pool (hp : d.pools[id]? = some p) (f : Pool Link → Pool Link) :
    d.pools.modify id f = d.pools.set id (f p) := by
  rw [List.modify_eq_set_getElem?, hp]
  rfl

/-- A step of an errand is what a caller of its pool does. -/
theorem stepErrand_acts {e e' : Errand} (hp : d.pools[id]? = some p) (hg : e.Is id g)
    (h : d.stepErrand e = some (d', e')) :
    ∃ deeds p' g', Guest.acts d.now deeds (p, g) = some (p', g') ∧ e'.Is id g' ∧
      d'.pools = d.pools.set id p' := by
  match e with
  | .over _ => cases h
  | .borrowing b aim =>
    obtain ⟨rfl, hcheckout, hasked⟩ := hg
    simp only [stepErrand] at h
    split at h
    · next lent hlent =>
      cases h
      obtain ⟨hpool, hover⟩ := Borrowing.result?_ok hlent
      exact ⟨[], p, g, rfl, ⟨hpool.symm, hover ▸ hcheckout, hasked⟩, (set_pool_self hp).symm⟩
    · next f hfail =>
      cases h
      obtain ⟨checkout, asked, notes⟩ := g
      cases hcheckout
      have hover := Borrowing.result?_error hfail
      refine ⟨[.leave], p, ⟨none, none, notes⟩, ?_, rfl, (set_pool_self hp).symm⟩
      simp [Guest.acts, Guest.act, hover, Checkout.abandon]
    · obtain ⟨⟨d₁, b'⟩, hstep, h⟩ := Option.bind_eq_some_iff.mp h
      cases h
      obtain ⟨deeds, p', hacts, hpool, hpools⟩ := stepBorrowing_acts hp hcheckout hstep
      exact ⟨deeds, p', _, hacts, ⟨hpool, rfl, hasked⟩, hpools⟩
  | .talking lent none talk =>
    obtain ⟨rfl, hcheckout, hasked⟩ := hg
    obtain ⟨checkout, asked, notes⟩ := g
    cases hcheckout
    cases hasked
    simp only [stepErrand] at h
    split at h
    · cases h
      -- a connection on which a call has failed is reported broken before it goes back
      cases hfailed : talk.hasFailed with
      | true =>
        refine ⟨[.report false, .leave], p.restore lent.loan.markBroken, _, rfl, rfl, ?_⟩
        exact modify_pool hp _
      | false =>
        refine ⟨[.leave], p.restore lent.loan, _, rfl, rfl, ?_⟩
        exact modify_pool hp _
    · next request hcall =>
      have hsent := send_pools d (lent.loan.before request).conn request
      generalize d.send (lent.loan.before request).conn request = sent at h hsent
      obtain ⟨d₁, conn, flight⟩ := sent
      cases h
      refine ⟨[.ask request conn flight.settled?], p, _, rfl, ⟨rfl, rfl, request, hcall, rfl⟩, ?_⟩
      rw [set_pool_self hp]
      exact hsent
  | .talking lent (some flight) talk =>
    obtain ⟨rfl, hcheckout, request, hcall, hasked⟩ := hg
    obtain ⟨checkout, asked, notes⟩ := g
    cases hcheckout
    cases hasked
    simp only [stepErrand] at h
    split at h
    · cases h
      refine ⟨[.hear (d.outcome flight)], p, _, rfl, ⟨rfl, ?_, rfl⟩, (set_pool_self hp).symm⟩
      simp only [hcall, settled_outcome]
    · cases h

/-- Where an errand of a deployment takes a step, a caller of its pool does the same at a desk. -/
theorem stepErrand_runs {e e' : Errand} {w : Desk Link} {i : Nat} (hw : d.pools[id]? = some w.pool)
    (hnow : w.now = d.now) (hi : w.guests[i]? = some g) (hg : e.Is id g)
    (h : d.stepErrand e = some (d', e')) :
    ∃ (deeds : List (Deed Link)) (w' : Desk Link) (g' : Guest Link),
      w.run (deeds.map (.doing i)) = some w' ∧ w'.guests[i]? = some g' ∧ e'.Is id g' ∧
        d'.pools = d.pools.set id w'.pool := by
  obtain ⟨deeds, p', g', hacts, hg', hpools⟩ := stepErrand_acts hw hg h
  rw [← hnow] at hacts
  obtain ⟨hlt, -⟩ := List.getElem?_eq_some_iff.mp hi
  exact ⟨deeds, _, g', Desk.run_acts hi hacts, List.getElem?_set_self hlt, hg', hpools⟩

theorem startErrand_comes {router : Nat} {key : Bytes} {aim : Lock.Aim} {w : Desk Link}
    (hid : d.poolFor? router key = some id) (hw : d.pools[id]? = some w.pool)
    (hnow : w.now = d.now) :
    ∃ w' g, w.act .acquire = some w' ∧ w'.guests[w.guests.length]? = some g ∧
      (d.startErrand router key aim).2.Is id g ∧
      (d.startErrand router key aim).1.pools = d.pools.set id w'.pool := by
  obtain ⟨w', hw'⟩ : ∃ w', w.act .acquire = some w' := ⟨_, rfl⟩
  obtain rfl := Desk.act_acquire hw'
  refine ⟨_, { checkout := some (Checkout.start w.pool w.now).2 }, hw', by simp, ?_, ?_⟩
  · simp [startErrand, hid, borrow, hw, settleBorrowing, Errand.Is, hnow]
  · simp [startErrand, hid, borrow, hw, settleBorrowing, setPool, hnow]

theorem abandonErrand_leaves {e : Errand} {w : Desk Link} {i : Nat}
    (hw : d.pools[id]? = some w.pool) (hi : w.guests[i]? = some g) (hg : e.Is id g)
    (he : ∀ talk, e ≠ .over talk) :
    ∃ w', w.act (.doing i .leave) = some w' ∧
      (d.abandonErrand e).pools = d.pools.set id w'.pool := by
  obtain ⟨checkout, asked, notes⟩ := g
  match e with
  | .over talk => exact absurd rfl (he talk)
  | .borrowing b aim =>
    obtain ⟨rfl, hcheckout, -⟩ := hg
    cases hcheckout
    exact ⟨_, Desk.act_of_guest hi rfl, modify_pool hw _⟩
  | .talking lent none talk =>
    obtain ⟨rfl, hcheckout, -⟩ := hg
    cases hcheckout
    exact ⟨_, Desk.act_of_guest hi rfl, modify_pool hw _⟩
  | .talking lent (some flight) talk =>
    obtain ⟨rfl, hcheckout, -⟩ := hg
    cases hcheckout
    exact ⟨_, Desk.act_of_guest hi rfl, modify_pool hw _⟩

end Deployment
end Holdfast
