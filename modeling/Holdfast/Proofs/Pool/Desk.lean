import Holdfast.Proofs.Pool.Bounds

namespace Holdfast.Pool

open Store

/-- What a borrower has done with its connection and heard of it. -/
inductive Note
  | asked (request : Call)
  | heard (request : Call) (o : Outcome)
  | reported (isHealthy : Bool)

/-- A caller of a pool: at its checkout, over it, or gone. -/
structure Guest (κ : Type) where
  checkout : Option (Checkout κ)
  /-- The call that is under way, with its outcome where that is settled already. -/
  asked : Option (Call × Option Outcome) := none
  /-- The latest first. -/
  notes : List Note := []

/-- What a caller does, or what comes to it from the store. -/
inductive Deed (κ : Type)
  | wake
  /-- The idle connection is asked whether it still answers. -/
  | ping (conn : κ)
  | answered (o : Outcome)
  | dialled (r : Except Failure κ)
  | ask (request : Call) (conn : κ) (settled : Option Outcome)
  /-- The call under way ends, with the outcome `o` where it was not settled before. -/
  | hear (o : Outcome)
  /-- Gives up the call under way. -/
  | cut
  | report (isHealthy : Bool)
  /-- Gives up the checkout, or gives the connection back. -/
  | leave

/-- Whether it brings a connection: an answer to a ping, or a connector that is done. -/
def Deed.delivers : Deed κ → Bool
  | .answered (.ok _) | .dialled (.ok _) => true
  | _ => false

/-- One deed of a caller, if it can be done where the caller stands. -/
def Guest.act (g : Guest κ) (p : Pool κ) (now : Nat) (deed : Deed κ) :
    Option (Pool κ × Guest κ) :=
  match deed, g.checkout with
  | .wake, some (.queued ticket deadline) =>
    (Checkout.wake? p now ticket deadline).map fun (p, c) => (p, { g with checkout := some c })
  | .ping conn, some (.testing _) => some (p, { g with checkout := some (.testing conn) })
  | .answered o, some (.testing conn) =>
    let (p, c) := Checkout.tested p conn o
    some (p, { g with checkout := some c })
  | .dialled r, some .opening =>
    let (p, c) := Checkout.opened p r
    some (p, { g with checkout := some c })
  | .ask request conn settled, some (.over (.ok loan)) =>
    if g.asked.isSome then none
    else
      let loan := { loan.before request with conn }
      some (p, ⟨some (.over (.ok loan)), some (request, settled), .asked request :: g.notes⟩)
  | .hear o, some (.over (.ok loan)) =>
    g.asked.map fun (request, settled) =>
      let o := settled.getD o
      (p, ⟨some (.over (.ok (loan.after request o))), none, .heard request o :: g.notes⟩)
  | .cut, some (.over (.ok _)) => some (p, { g with asked := none })
  | .report isHealthy, some (.over (.ok loan)) =>
    let loan := { loan with isBroken := !isHealthy }
    some (p, ⟨some (.over (.ok loan)), g.asked, .reported isHealthy :: g.notes⟩)
  | .leave, some c => some (c.abandon p, { g with checkout := none, asked := none })
  | _, _ => none

/-- A pool with everybody who ever came to it. A caller goes by the number under which it came. -/
structure Desk (κ : Type) where
  pool : Pool κ
  now : Nat := 0
  guests : List (Guest κ) := []

namespace Desk

inductive Move (κ : Type)
  | tick (ms : Nat)
  | close
  /-- Somebody comes for a connection. -/
  | acquire
  | doing (id : Nat) (deed : Deed κ)

/-- Where the checkout of a caller stands, if it has come and has not left. -/
def stage? (w : Desk κ) (id : Nat) : Option (Checkout κ) := w.guests[id]?.bind Guest.checkout

def close (w : Desk κ) : Desk κ := { w with pool := w.pool.close }

def act (w : Desk κ) : Move κ → Option (Desk κ)
  | .tick ms => some { w with now := w.now + ms }
  | .close => some w.close
  | .acquire =>
    let (pool, c) := Checkout.start w.pool w.now
    some { w with pool, guests := w.guests ++ [{ checkout := some c }] }
  | .doing id deed => do
    let g ← w.guests[id]?
    let (pool, g) ← g.act w.pool w.now deed
    return { w with pool, guests := w.guests.set id g }

def run (w : Desk κ) : List (Move κ) → Option (Desk κ)
  | [] => some w
  | m :: ms => (w.act m).bind fun w => w.run ms

/-- A new pool, to which nobody has come yet. -/
def fresh (e : Endpoint) (o : PoolOptions) (b : Backend) : Desk κ := { pool := .new e o b }

inductive Reaches (w : Desk κ) : Desk κ → Prop
  | here : Reaches w w
  | step {u u' : Desk κ} (h : Reaches w u) (m : Move κ) (hm : u.act m = some u') : Reaches w u'

end Desk

/-- How a deed takes a caller on from its checkout, and the pool with it. -/
inductive Goes (p : Pool κ) (now : Nat) :
    Deed κ → Checkout κ → Pool κ → Option (Checkout κ) → Prop
  | waked {ticket deadline : Nat} {next : Pool κ × Checkout κ}
      (h : Checkout.wake? p now ticket deadline = some next) :
      Goes p now .wake (.queued ticket deadline) next.1 (some next.2)
  | pinged (conn conn' : κ) : Goes p now (.ping conn') (.testing conn) p (some (.testing conn'))
  | answered (conn : κ) (o : Outcome) : Goes p now (.answered o) (.testing conn)
      (Checkout.tested p conn o).1 (some (Checkout.tested p conn o).2)
  | dialled (r : Except Failure κ) : Goes p now (.dialled r) .opening
      (Checkout.opened p r).1 (some (Checkout.opened p r).2)
  | used (deed : Deed κ) (l l' : Loan κ) (h : deed.delivers = false) :
      Goes p now deed (.over (.ok l)) p (some (.over (.ok l')))
  | left (c : Checkout κ) : Goes p now .leave c (c.abandon p) none

variable {κ : Type}

theorem Guest.act_goes {g g' : Guest κ} {p p' : Pool κ} {now : Nat} {deed : Deed κ}
    (h : g.act p now deed = some (p', g')) :
    ∃ c, g.checkout = some c ∧ Goes p now deed c p' g'.checkout := by
  unfold Guest.act at h
  split at h
  · next ticket deadline hc =>
    obtain ⟨next, hnext, heq⟩ := Option.map_eq_some_iff.mp h
    cases heq
    exact ⟨_, hc, .waked hnext⟩
  · next conn _ hc => cases h; exact ⟨_, hc, .pinged _ _⟩
  · next o conn hc => cases h; exact ⟨_, hc, .answered conn o⟩
  · next r hc => cases h; exact ⟨_, hc, .dialled r⟩
  · next hc =>
    split at h
    · cases h
    · cases h; exact ⟨_, hc, .used _ _ _ rfl⟩
  · next hc =>
    obtain ⟨asked, -, heq⟩ := Option.map_eq_some_iff.mp h
    cases heq
    exact ⟨_, hc, .used _ _ _ rfl⟩
  · next hc => cases h; exact ⟨_, hc, hc ▸ .used _ _ _ rfl⟩
  · next hc => cases h; exact ⟨_, hc, .used _ _ _ rfl⟩
  · next c hc => cases h; exact ⟨c, hc, .left c⟩
  · cases h

theorem Goes.alike {p p' : Pool κ} {now : Nat} {deed : Deed κ} {c : Checkout κ}
    {c' : Option (Checkout κ)} (hgo : Goes p now deed c p' c') : p.Alike p' := by
  cases hgo with
  | waked hnext => exact Checkout.alike_wake? hnext
  | pinged => exact .refl p
  | answered conn o => exact Checkout.alike_tested p conn o
  | dialled r => exact Checkout.alike_opened p r
  | used => exact .refl p
  | left => exact Checkout.alike_abandon p c

namespace Desk

variable {w w' : Desk κ}

theorem act_acquire (h : w.act .acquire = some w') :
    w' = { w with
      pool := (Checkout.start w.pool w.now).1
      guests := w.guests ++ [{ checkout := some (Checkout.start w.pool w.now).2 }] } := by
  cases h
  rfl

theorem act_doing {id : Nat} {deed : Deed κ} (h : w.act (.doing id deed) = some w') :
    ∃ g pool g', w.guests[id]? = some g ∧ g.act w.pool w.now deed = some (pool, g') ∧
      w' = { w with pool, guests := w.guests.set id g' } := by
  obtain ⟨g, hg, h⟩ := Option.bind_eq_some_iff.mp h
  obtain ⟨⟨pool, g'⟩, hact, h⟩ := Option.bind_eq_some_iff.mp h
  cases h
  exact ⟨g, pool, g', hg, hact, rfl⟩

theorem act_of_guest {id : Nat} {deed : Deed κ} {g g' : Guest κ} {pool : Pool κ}
    (hg : w.guests[id]? = some g) (hact : g.act w.pool w.now deed = some (pool, g')) :
    w.act (.doing id deed) = some { w with pool, guests := w.guests.set id g' } := by
  simp [act, hg, hact]

theorem stage?_doing {id : Nat} {deed : Deed κ} (h : w.act (.doing id deed) = some w') :
    ∃ c, w.stage? id = some c ∧ Goes w.pool w.now deed c w'.pool (w'.stage? id) := by
  obtain ⟨g, pool, g', hg, hact, rfl⟩ := act_doing h
  obtain ⟨c, hc, hgo⟩ := Guest.act_goes hact
  obtain ⟨hid, -⟩ := List.getElem?_eq_some_iff.mp hg
  refine ⟨c, by rw [stage?, hg, Option.bind_some, hc], ?_⟩
  simpa [stage?, List.getElem?_set_self hid] using hgo

/-- What a move means to one caller: nothing, its coming, or the deed that it does. -/
theorem stage?_act {m : Move κ} (h : w.act m = some w') (i : Nat) :
    w'.stage? i = w.stage? i ∨
      (w.stage? i = none ∧ w'.stage? i = some (Checkout.start w.pool w.now).2) ∨
      ∃ deed c, m = .doing i deed ∧ w.stage? i = some c ∧
        Goes w.pool w.now deed c w'.pool (w'.stage? i) := by
  cases m with
  | tick ms => cases h; exact .inl rfl
  | close => cases h; exact .inl rfl
  | acquire =>
    rw [act_acquire h]
    by_cases hi : i = w.guests.length
    · right; left
      subst hi
      simp [stage?]
    · left
      rcases Nat.lt_or_gt_of_ne hi with hlt | hgt
      · simp only [stage?, List.getElem?_append_left hlt]
      · simp only [stage?, List.getElem?_eq_none (Nat.le_of_lt hgt)]
        have hlen : w.guests.length + 1 ≤ i := hgt
        rw [List.getElem?_eq_none (by simpa using hlen)]
  | doing id deed =>
    by_cases hi : id = i
    · right; right
      subst hi
      obtain ⟨c, hc, hgo⟩ := stage?_doing h
      exact ⟨deed, c, rfl, hc, hgo⟩
    · left
      obtain ⟨g, pool, g', -, -, rfl⟩ := act_doing h
      simp only [stage?, List.getElem?_set_ne hi]

/-- Only its end takes a pool to another phase. -/
theorem act_alike {m : Move κ} (h : w.act m = some w') : w' = w.close ∨ w.pool.Alike w'.pool := by
  cases m with
  | tick ms => cases h; exact .inr (.refl _)
  | close => cases h; exact .inl rfl
  | acquire =>
    rw [act_acquire h]
    exact .inr (Checkout.alike_start w.pool w.now)
  | doing id deed =>
    obtain ⟨g, pool, g', -, hact, rfl⟩ := act_doing h
    obtain ⟨c, -, hgo⟩ := Guest.act_goes hact
    exact .inr hgo.alike

theorem act_stays {m : Move κ} (h : w.act m = some w') :
    w'.pool.endpoint = w.pool.endpoint ∧ (w.pool.isClosed = true → w'.pool.isClosed = true) := by
  rcases act_alike h with rfl | halike
  · exact ⟨endpoint_close _, fun _ => isClosed_close _⟩
  · exact ⟨halike.1, halike.isClosed.trans⟩

theorem reaches_stays (h : w.Reaches w') :
    w'.pool.endpoint = w.pool.endpoint ∧ (w.pool.isClosed = true → w'.pool.isClosed = true) := by
  induction h with
  | here => exact ⟨rfl, id⟩
  | step _ m hm ih =>
    have hstep := act_stays hm
    exact ⟨hstep.1.trans ih.1, fun hclosed => hstep.2 (ih.2 hclosed)⟩

theorem run_reaches {u : Desk κ} {ms : List (Move κ)} (hr : w.Reaches u)
    (h : u.run ms = some w') : w.Reaches w' := by
  induction ms generalizing u with
  | nil => cases h; exact hr
  | cons m ms ih =>
    obtain ⟨v, hm, hrun⟩ := Option.bind_eq_some_iff.mp h
    exact ih (.step hr m hm) hrun

end Desk

/-- Where a caller stands, with its operations on the pool taken one by one. -/
def visit : Option (Checkout κ) → Visit κ
  | some c => .resting c
  | none => .gone

/-- The same pool and callers, with each operation a move of its own. -/
def Desk.crowd (w : Desk κ) : Crowd κ := ⟨w.pool, w.now, w.guests.map fun g => visit g.checkout⟩

section
open Checkout

variable {w u : Crowd κ} {id : Nat}

/-- A caller goes on with two operations. -/
theorem Crowd.Reaches.twice (hr : w.Reaches u) (deed deed' : Visit.Deed κ) {v v' v'' : Visit κ}
    {p p' : Pool κ} (hv : u.visits[id]? = some v)
    (hfirst : v.act u.pool u.now deed = some (p, v'))
    (hthen : v'.act p u.now deed' = some (p', v'')) :
    w.Reaches { u with pool := p', visits := u.visits.set id v'' } := by
  obtain ⟨hid, -⟩ := List.getElem?_eq_some_iff.mp hv
  have hnext := (hr.doing deed hv hfirst).doing deed' (List.getElem?_set_self hid) hthen
  rwa [List.set_set] at hnext

theorem act_admitted (p : Pool κ) (now : Nat) :
    Visit.act .admitted p now .next = some ((choose p).1, .resting (choose p).2) := rfl

/-- To give a connection back is to look whether the pool is open, to put the connection with the
idle ones and to let the permit go. -/
theorem Crowd.Reaches.returned (hr : w.Reaches u) {l : Loan κ}
    (hv : u.visits[id]? = some (.resting (.over (.ok l)))) :
    w.Reaches { u with
      pool := (Checkout.over (.ok l)).abandon u.pool, visits := u.visits.set id .gone } := by
  cases hkept : l.isSound && !u.pool.isClosed with
  | true =>
    obtain ⟨hid, -⟩ := List.getElem?_eq_some_iff.mp hv
    have hput := hr.twice .leave .next hv
      (by simp only [Visit.act, hkept, if_true]; rfl) rfl
    have hpart := hput.doing .next (List.getElem?_set_self hid) rfl
    simpa [abandon, restore, checkIn, hkept] using hpart
  | false =>
    have hpart := hr.twice .leave .next hv
      (by simp only [Visit.act, hkept]; rfl) rfl
    simpa [abandon, restore, checkIn, hkept] using hpart

theorem Goes.crowd (hr : w.Reaches u) {deed : Deed κ} {c : Checkout κ}
    {c' : Option (Checkout κ)} {p' : Pool κ} (hv : u.visits[id]? = some (.resting c))
    (hgo : Goes u.pool u.now deed c p' c') :
    w.Reaches { u with pool := p', visits := u.visits.set id (visit c') } := by
  cases hgo with
  | @waked ticket deadline next hnext =>
    rcases u.pool.collect_cases ticket with ⟨-, heq⟩ | ⟨-, -, heq⟩ | ⟨-, -, heq⟩
    · simp only [wake?, heq] at hnext
      cases hnext
      exact hr.doing .next hv (by simp only [Visit.act, heq, visit])
    · simp only [wake?, heq] at hnext
      cases hnext
      exact hr.twice .next .next hv (by simp only [Visit.act, heq])
        (act_admitted _ _)
    · simp only [wake?, heq] at hnext
      split at hnext
      · next hlate =>
        cases hnext
        exact hr.doing .next hv (by simp only [Visit.act, heq, hlate, if_true, visit])
      · cases hnext
  | pinged conn conn' => exact hr.doing (.ping conn') hv rfl
  | answered conn o =>
    cases o with
    | ok r => exact hr.doing (.answered (.ok r)) hv rfl
    | error f => exact hr.twice (.answered (.error f)) .next hv rfl (act_admitted _ _)
  | dialled r => exact hr.doing (.dialled r) hv rfl
  | used _ l l' => exact hr.doing (.use l') hv rfl
  | left =>
    rcases c with _ | _ | _ | f | l
    · exact hr.doing .leave hv rfl
    · exact hr.doing .leave hv rfl
    · exact hr.doing .leave hv rfl
    · exact hr.doing .leave hv rfl
    · exact hr.returned hv

/-- Coming for a connection is to look whether the pool is open, to ask for a permit and to choose
with it. -/
theorem start_crowd (hr : w.Reaches u) : w.Reaches { u with
    pool := (Checkout.start u.pool u.now).1
    visits := u.visits ++ [.resting (Checkout.start u.pool u.now).2] } := by
  have hset (v v' : Visit κ) : (u.visits ++ [v]).set u.visits.length v' = u.visits ++ [v'] := by
    simp
  have hlast (v : Visit κ) : (u.visits ++ [v])[u.visits.length]? = some v := by simp
  cases hclosed : u.pool.isClosed with
  | true =>
    rw [start_closed hclosed]
    exact .step hr .acquire (by simp [Crowd.act, hclosed])
  | false =>
    have hcome : w.Reaches { u with visits := u.visits ++ [.asking] } :=
      .step hr .acquire (by simp [Crowd.act, hclosed])
    rcases u.pool.ask_cases with ⟨-, heq⟩ | ⟨-, -, heq⟩ | ⟨-, -, heq⟩
    · have hnext := hcome.doing .next (hlast _) (by simp only [Visit.act, heq]; rfl)
      simpa [hset, start, enter, hclosed, heq] using hnext
    · have hnext := hcome.twice .next .next (hlast _)
        (by simp only [Visit.act, heq]; rfl) (act_admitted _ _)
      simpa [hset, start, enter, hclosed, heq] using hnext
    · have hnext := hcome.doing .next (hlast _) (by simp only [Visit.act, heq]; rfl)
      simpa [hset, start, enter, hclosed, heq] using hnext

end

namespace Desk

variable {w w' : Desk κ}

/-- What the callers do is done in operations on the pool, one after the other. -/
theorem crowd_act {u : Crowd κ} {m : Move κ} (hr : u.Reaches w.crowd) (h : w.act m = some w') :
    u.Reaches w'.crowd := by
  cases m with
  | tick ms =>
    cases h
    exact .step hr (.tick ms) rfl
  | close =>
    cases h
    cases hclosed : w.pool.isClosed with
    | true => simpa [close, Pool.close, hclosed] using hr
    | false =>
      have hshut : w.crowd.act .shut = some { w.crowd with pool := w.pool.shut } := by
        simp [Crowd.act, crowd, hclosed]
      have hpermits : Crowd.act { w.crowd with pool := w.pool.shut } .closePermits =
          some { w.crowd with pool := w.pool.shut.closePermits } := rfl
      have hdrain : Crowd.act { w.crowd with pool := w.pool.shut.closePermits } .drain =
          some { w.crowd with pool := w.pool.shut.closePermits.drain } := rfl
      simpa [close, Pool.close, hclosed, crowd] using
        Crowd.Reaches.step (.step (.step hr _ hshut) _ hpermits) _ hdrain
  | acquire =>
    rw [act_acquire h]
    simpa [crowd, visit] using start_crowd hr
  | doing id deed =>
    obtain ⟨g, pool, g', hg, hact, rfl⟩ := act_doing h
    obtain ⟨c, hc, hgo⟩ := Guest.act_goes hact
    have hv : w.crowd.visits[id]? = some (.resting c) := by simp [crowd, hg, hc, visit]
    simpa [crowd, List.map_set] using hgo.crowd hr hv

theorem Reaches.crowd (h : w.Reaches w') : w.crowd.Reaches w'.crowd := by
  induction h with
  | here => exact .here
  | step _ m hm ih => exact crowd_act ih hm

theorem not_returning (w : Desk κ) (id : Nat) (conn : κ) : ¬ w.crowd.Returning id conn := by
  intro h
  obtain ⟨g, -, hg⟩ := Option.map_eq_some_iff.mp (by simpa [Crowd.Returning, crowd] using h)
  unfold visit at hg
  split at hg <;> cases hg

/-- Where the callers do not cross its end, a closed pool has come to it. -/
def Settled (w : Desk κ) : Prop :=
  w.pool.isClosed = true → w.pool.isSealed = true ∧ w.pool.idle = []

theorem settled_fresh (e : Endpoint) (o : PoolOptions) (b : Backend) :
    (fresh e o b : Desk κ).Settled := nofun

theorem Settled.close (h : w.Settled) : w.close.Settled := by
  intro _
  cases hclosed : w.pool.isClosed with
  | true => simpa [Desk.close, Pool.close, hclosed] using h hclosed
  | false =>
    simp only [Desk.close, Pool.close, hclosed]
    exact ⟨rfl, rfl⟩

theorem Settled.act (h : w.Settled) {m : Move κ} (hm : w.act m = some w') : w'.Settled := by
  rcases act_alike hm with rfl | halike
  · exact h.close
  · intro hclosed
    obtain ⟨hsealed, hidle⟩ := h (halike.isClosed.symm.trans hclosed)
    refine ⟨?_, ?_⟩
    · rw [isSealed, halike.2]
      exact hsealed
    · have hfades := Crowd.Fades.reaches (halike.isClosed.symm.trans hclosed) (crowd_act .here hm)
      refine List.eq_nil_iff_forall_not_mem.mpr fun conn hconn => ?_
      rcases hfades.idle conn hconn with hconn | ⟨id, hid⟩
      · rw [crowd, hidle] at hconn
        cases hconn
      · exact w.not_returning id conn hid

theorem Settled.reaches (h : w.Settled) (hr : w.Reaches w') : w'.Settled := by
  induction hr with
  | here => exact h
  | step _ m hm ih => exact ih.act hm

end Desk
end Holdfast.Pool
