import Holdfast.Proofs.Pool.Desk

namespace Holdfast

open Store

variable {κ : Type}

namespace Checkout

/-- Past the queue, and neither with a connection nor turned away. -/
def isUnderWay : Checkout κ → Bool
  | .testing _ | .opening => true
  | .queued .. | .over _ => false

def isLent : Checkout κ → Bool
  | .over (.ok _) => true
  | .queued .. | .testing _ | .opening | .over (.error _) => false

theorem not_lent_of_underWay {c : Checkout κ} (h : c.isUnderWay) : ¬ c.isLent := by
  cases c with
  | testing | opening => simp [isLent]
  | _ => cases h

theorem outside_of_ticket {c : Checkout κ} (h : c.ticket?.isSome) :
    ¬ c.isUnderWay ∧ ¬ c.isLent := by
  cases c with
  | queued => simp [isUnderWay, isLent]
  | _ => cases h

end Checkout

namespace Pool

open Checkout

section
variable {p p' : Pool κ} {now : Nat} {deed : Deed κ} {c : Checkout κ} {c' : Option (Checkout κ)}

theorem Goes.delivers (hgo : Goes p now deed c p' c') (hdeed : deed.delivers) :
    c.isUnderWay ∧ c'.any isLent := by
  cases hgo with
  | waked => cases hdeed
  | pinged => cases hdeed
  | answered conn o =>
    cases o with
    | ok r => exact ⟨rfl, rfl⟩
    | error f => cases hdeed
  | dialled r =>
    cases r with
    | ok conn => exact ⟨rfl, rfl⟩
    | error f => cases hdeed
  | used _ _ _ hnot => rw [hnot] at hdeed; cases hdeed
  | left => cases hdeed

/-- How a caller of a closed pool goes on: the queue is sent away, and of those past it only one
whose ping is answered or whose connector is done has a connection. -/
theorem Goes.closed (hgo : Goes p now deed c p' c') (hsealed : p.isSealed = true)
    (hidle : p.idle = []) :
    c' = none ∨
      (c.ticket?.isSome ∧ c' = some (fail (.poolClosed p.endpoint))) ∨
      (c.isUnderWay ∧ (¬ c'.any isLent ∨ deed.delivers)) ∨
      (c.isLent ∧ c'.any isLent) := by
  cases hgo with
  | waked hnext =>
    rw [wake?_sealed hsealed] at hnext
    cases hnext
    right; left
    exact ⟨rfl, rfl⟩
  | pinged =>
    right; right; left
    exact ⟨rfl, .inl (by simp [isLent])⟩
  | answered conn o =>
    right; right; left
    refine ⟨rfl, ?_⟩
    cases o with
    | ok r => exact .inr rfl
    | error f =>
      left
      simp [tested, choose, takeIdle, hidle, isLent]
  | dialled r =>
    right; right; left
    refine ⟨rfl, ?_⟩
    cases r with
    | ok conn => exact .inr rfl
    | error f =>
      left
      simp [opened, fail, isLent]
  | used =>
    right; right; right
    exact ⟨rfl, rfl⟩
  | left => exact .inl rfl

end

namespace Desk

/-- A later state of a desk whose pool was closed at `w`. -/
structure Retired (w u : Desk κ) : Prop where
  settled : u.Settled
  closed : u.pool.isClosed = true
  endpoint : u.pool.endpoint = w.pool.endpoint
  outside : ∀ i, (w.stage? i).all (·.ticket?.isSome) → ∀ c, u.stage? i = some c →
    c.ticket?.isSome ∨ c = fail (.poolClosed w.pool.endpoint)
  underWay : ∀ i, (u.stage? i).any isUnderWay → (w.stage? i).any isUnderWay

namespace Retired

variable {w u u' : Desk κ} {m : Move κ}

theorem close (hw : w.Settled) : w.Retired w.close := by
  refine ⟨hw.close, isClosed_close _, endpoint_close _, fun i hout c hc => .inl ?_, fun i h => h⟩
  have hstage : w.stage? i = some c := hc
  rwa [hstage] at hout

theorem isSealed (h : w.Retired u) : u.pool.isSealed = true := (h.settled h.closed).1

theorem empty (h : w.Retired u) : u.pool.idle = [] := (h.settled h.closed).2

/-- Who comes after the end is sent away at once. -/
theorem start (h : w.Retired u) :
    (Checkout.start u.pool u.now).2 = fail (.poolClosed w.pool.endpoint) := by
  rw [start_closed h.closed, h.endpoint]

theorem outside_act (h : w.Retired u) (hm : u.act m = some u') (i : Nat)
    (hout : (w.stage? i).all (·.ticket?.isSome)) (c' : Checkout κ) (hc' : u'.stage? i = some c') :
    c'.ticket?.isSome ∨ c' = fail (.poolClosed w.pool.endpoint) := by
  rcases stage?_act hm i with heq | ⟨-, heq⟩ | ⟨deed, c, -, hc, hgo⟩
  · exact h.outside i hout c' (heq ▸ hc')
  · rw [heq, h.start] at hc'
    exact .inr (Option.some.inj hc').symm
  · have hstood := h.outside i hout c hc
    have hout : ¬ c.isUnderWay ∧ ¬ c.isLent := by
      rcases hstood with ht | rfl
      · exact outside_of_ticket ht
      · simp [fail, isUnderWay, isLent]
    rw [hc'] at hgo
    rcases hgo.closed h.isSealed h.empty with hnone | ⟨-, hfail⟩ | ⟨hway, -⟩ | ⟨hlent, -⟩
    · cases hnone
    · rw [h.endpoint] at hfail
      exact .inr (Option.some.inj hfail)
    · exact absurd hway hout.1
    · exact absurd hlent hout.2

theorem underWay_act (h : w.Retired u) (hm : u.act m = some u') (i : Nat)
    (hway : (u'.stage? i).any isUnderWay) : (u.stage? i).any isUnderWay := by
  rcases stage?_act hm i with heq | ⟨-, heq⟩ | ⟨deed, c, -, hc, hgo⟩
  · rwa [heq] at hway
  · rw [heq, h.start] at hway
    cases hway
  · obtain ⟨c', hc', hway'⟩ := (Option.any_eq_true _ _).mp hway
    rw [hc'] at hgo
    rcases hgo.closed h.isSealed h.empty with hnone | ⟨-, hfail⟩ | ⟨hunder, -⟩ | ⟨-, hlent⟩
    · cases hnone
    · cases Option.some.inj hfail
      cases hway'
    · rw [hc]
      exact hunder
    · exact absurd hlent (not_lent_of_underWay hway')

theorem act (h : w.Retired u) (hm : u.act m = some u') : w.Retired u' := by
  have hstays := act_stays hm
  exact ⟨h.settled.act hm, hstays.2 h.closed, hstays.1.trans h.endpoint, h.outside_act hm,
    fun i hway => h.underWay i (h.underWay_act hm i hway)⟩

theorem reaches (hw : w.Settled) (hr : w.close.Reaches u) : w.Retired u := by
  induction hr with
  | here => exact .close hw
  | step _ m hm ih => exact ih.act hm

/-- Looking after a ticket brings the refusal. -/
theorem wake (h : w.Retired u) {i ticket deadline : Nat}
    (hstage : u.stage? i = some (.queued ticket deadline)) :
    ∃ u', u.act (.doing i .wake) = some u' ∧
      u'.stage? i = some (fail (.poolClosed w.pool.endpoint)) := by
  obtain ⟨g, hg, hc⟩ := Option.bind_eq_some_iff.mp hstage
  obtain ⟨hi, -⟩ := List.getElem?_eq_some_iff.mp hg
  have hwake := wake?_sealed h.isSealed u.now ticket deadline
  refine ⟨_, by simp [Desk.act, hg, Guest.act, hc, hwake]; rfl, ?_⟩
  simp [stage?, List.getElem?_set_self hi, h.endpoint]

/-- A move brings a caller a connection exactly when it is the answer or the connection that the
caller was waiting for. -/
theorem lends_iff (h : w.Retired u) (hm : u.act m = some u') (i : Nat) :
    (¬ (u.stage? i).any isLent ∧ (u'.stage? i).any isLent) ↔
      (w.stage? i).any isUnderWay ∧ ∃ deed, m = .doing i deed ∧ deed.delivers := by
  constructor
  · rintro ⟨hnot, hlent⟩
    rcases stage?_act hm i with heq | ⟨-, heq⟩ | ⟨deed, c, hdo, hc, hgo⟩
    · rw [heq] at hlent
      exact absurd hlent hnot
    · rw [heq, h.start] at hlent
      cases hlent
    · -- the queue is refused and nothing is idle: only what was on its way can still arrive
      have hwas := h.underWay i
      rw [hc] at hnot hwas
      rcases hgo.closed h.isSealed h.empty with hnone | ⟨-, hfail⟩ | ⟨hway, hor⟩ | ⟨hhad, -⟩
      · rw [hnone] at hlent
        cases hlent
      · rw [hfail] at hlent
        cases hlent
      · exact ⟨hwas hway, deed, hdo, hor.resolve_left (fun hn => hn hlent)⟩
      · exact absurd hhad hnot
  · rintro ⟨-, deed, rfl, hdeed⟩
    obtain ⟨c, hc, hgo⟩ := stage?_doing hm
    obtain ⟨hway, hlent⟩ := hgo.delivers hdeed
    refine ⟨?_, hlent⟩
    rw [hc]
    exact not_lent_of_underWay hway

end Retired

/-- After a pool was closed nobody who was outside then, or comes later, gets anything but the
refusal, which the next look after a ticket brings. One that was past the queue still gets a
connection, exactly when its ping is answered or its connector is done. -/
theorem closed_lends_iff {e : Endpoint} {o : PoolOptions} {b : Backend} {w u u' : Desk κ}
    {m : Move κ} (h : (fresh e o b).Reaches w) (hr : w.close.Reaches u) (hm : u.act m = some u')
    (i : Nat) :
    ((¬ (u.stage? i).any isLent ∧ (u'.stage? i).any isLent) ↔
      (w.stage? i).any isUnderWay ∧ ∃ deed, m = .doing i deed ∧ deed.delivers) ∧
    ((w.stage? i).all (·.ticket?.isSome) → u.stage? i = none ∨
      u.stage? i = some (fail (.poolClosed e)) ∨
      ∃ v, u.act (.doing i .wake) = some v ∧ v.stage? i = some (fail (.poolClosed e))) := by
  have hretired : w.Retired u := .reaches ((settled_fresh e o b).reaches h) hr
  have hendpoint : w.pool.endpoint = e := (reaches_stays h).1
  refine ⟨hretired.lends_iff hm i, fun hout => ?_⟩
  cases hstage : u.stage? i with
  | none => exact .inl rfl
  | some c =>
    right
    rcases hretired.outside i hout c hstage with ht | rfl
    · right
      obtain ⟨ticket, deadline, rfl⟩ : ∃ ticket deadline, c = .queued ticket deadline := by
        cases c with
        | queued ticket deadline => exact ⟨ticket, deadline, rfl⟩
        | _ => cases ht
      rw [← hendpoint]
      exact hretired.wake hstage
    · left
      rw [hendpoint]

/-- Two callers of a pool for one: the first opens a connection and the second queues. -/
def rush : List (Move Unit) := [.acquire, .acquire]

theorem closed_lends_iff_rush : ∃ w u : Desk Unit,
    (fresh ⟨"a", 7001⟩ { maxSize := 1 } .memory).run rush = some w ∧
      w.close.act (.doing 0 (.dialled (.ok ()))) = some u ∧ (u.stage? 0).any isLent ∧
      ∃ v, w.close.act (.doing 1 .wake) = some v ∧
        v.stage? 1 = some (fail (.poolClosed ⟨"a", 7001⟩)) := by
  have hrun : ((fresh ⟨"a", 7001⟩ { maxSize := 1 } .memory).run rush).any (fun w =>
      (w.stage? 0).any isUnderWay ∧ (w.stage? 1).any (·.ticket?.isSome) ∧
        (w.close.act (.doing 0 (.dialled (.ok ())))).isSome) = true := by decide +kernel
  obtain ⟨w, hw, hp⟩ := (Option.any_eq_true _ _).mp hrun
  obtain ⟨hway, hqueued, hact⟩ := of_decide_eq_true hp
  obtain ⟨u, hu⟩ := Option.isSome_iff_exists.mp hact
  obtain ⟨c, hc, ht⟩ := (Option.any_eq_true _ _).mp hqueued
  have hfirst := closed_lends_iff (run_reaches .here hw) .here hu 0
  have hsecond := closed_lends_iff (run_reaches .here hw) .here hu 1
  refine ⟨w, u, hw, hu, (hfirst.1.mpr ⟨hway, _, rfl, rfl⟩).2, ?_⟩
  have hstage : w.close.stage? 1 = some c := hc
  rcases hsecond.2 (by rw [hc]; exact ht) with hnone | hfail | hwake
  · rw [hstage] at hnone
    cases hnone
  · rw [hstage] at hfail
    cases hfail
    cases ht
  · exact hwake

/-- A pool lends after its end: what was being opened then is handed out. -/
theorem closed_lends : ¬ ∀ (e : Endpoint) (o : PoolOptions) (b : Backend) (w u : Desk Unit)
    (i : Nat), (fresh e o b).Reaches w → ¬ (w.stage? i).any isLent →
      w.close.Reaches u → ¬ (u.stage? i).any isLent := by
  intro h
  have hrun : ((fresh ⟨"a", 7001⟩ {} .memory).run [.acquire]).any (fun w =>
      ¬ (w.stage? 0).any isLent ∧
        (w.close.run [.doing 0 (.dialled (.ok ()))]).any (fun u => (u.stage? 0).any isLent)) =
      true := by decide +kernel
  obtain ⟨w, hw, hp⟩ := (Option.any_eq_true _ _).mp hrun
  obtain ⟨hbefore, hrest⟩ := of_decide_eq_true hp
  obtain ⟨u, hu, hafter⟩ := (Option.any_eq_true _ _).mp hrest
  exact h _ _ _ w u 0 (run_reaches .here hw) hbefore (run_reaches .here hu) hafter

end Desk
end Pool
end Holdfast
