import Holdfast.Memory.Cluster
import Holdfast.Proofs.Pool.Desk

namespace Holdfast.Pool

open Store Memory

/-- Whether no store is asked for it. -/
def Deed.isCalm : Deed κ → Bool
  | .wake | .cut | .report _ | .leave => true
  | .ping _ | .answered _ | .dialled _ | .ask .. | .hear _ => false

def Desk.Move.isCalm : Desk.Move κ → Bool
  | .tick _ | .close | .acquire => true
  | .doing _ deed => deed.isCalm

/-- The outcome of a call, unless a read is under way. -/
def settled? : Answer → Option Outcome
  | .now o => some o
  | .readAfter .. => none

/-- A pool whose connections lead to memory stores, and everybody who ever came to it. -/
structure Hall where
  cluster : Cluster
  /-- The clock of the stores. -/
  clock : Nat := 0
  desk : Desk Connection

namespace Hall

inductive Move
  | calm (m : Desk.Move Connection)
  /-- Asks an idle connection whether it still answers. -/
  | test (id : Nat)
  | dial (id : Nat)
  | ask (id : Nat) (request : Call)
  /-- The call of a caller ends. -/
  | hear (id : Nat)
  /-- Others call the stores, an outage begins or ends, or time passes: anything may be there then. -/
  | elsewhere (cluster : Cluster) (clock : Nat)

/-- The end of the call that a caller has under way: its outcome, or what a slow read sees now. -/
def ending? (w : Hall) (id : Nat) : Option Outcome := do
  let g ← w.desk.guests[id]?
  match g.asked, g.checkout with
  | some (_, some o), _ => some o
  | some (.get key, none), some (.over (.ok loan)) =>
    some (.ok (.value (w.cluster.read loan.conn.endpoint w.clock key)))
  | _, _ => none

def act (w : Hall) : Move → Option Hall
  | .calm m => if m.isCalm then (w.desk.act m).map fun desk => { w with desk } else none
  | .test id =>
    match w.desk.stage? id with
    | some (.testing conn) => do
      let (cluster, conn, answer) := w.cluster.call conn w.clock .ping
      let o ← settled? answer
      let desk ← w.desk.act (.doing id (.ping conn))
      let desk ← desk.act (.doing id (.answered o))
      return { w with cluster, desk }
    | _ => none
  | .dial id => do
    let (cluster, r) := w.cluster.connect w.desk.pool.endpoint
    let desk ← w.desk.act (.doing id (.dialled r))
    return { w with cluster, desk }
  | .ask id request =>
    match w.desk.stage? id with
    | some (.over (.ok loan)) => do
      let (cluster, conn, answer) := w.cluster.call loan.conn w.clock request
      let desk ← w.desk.act (.doing id (.ask request conn (settled? answer)))
      return { w with cluster, desk }
    | _ => none
  | .hear id => do
    let o ← w.ending? id
    let desk ← w.desk.act (.doing id (.hear o))
    return { w with desk }
  | .elsewhere cluster clock => some { w with cluster, clock }

def run (w : Hall) : List Move → Option Hall
  | [] => some w
  | m :: ms => (w.act m).bind fun w => w.run ms

/-- A new pool in front of stores of any kind. -/
def fresh (c : Cluster) (clock : Nat) (e : Endpoint) (o : PoolOptions) (b : Backend) : Hall :=
  ⟨c, clock, .fresh e o b⟩

inductive Reaches (w : Hall) : Hall → Prop
  | here : Reaches w w
  | step {u u' : Hall} (h : Reaches w u) (m : Move) (hm : u.act m = some u') : Reaches w u'

variable {w w' : Hall} {id : Nat}

theorem act_calm {m : Desk.Move Connection} (h : w.act (.calm m) = some w') :
    m.isCalm ∧ ∃ desk, w.desk.act m = some desk ∧ w' = { w with desk } := by
  simp only [act] at h
  split at h
  · next hcalm =>
    obtain ⟨desk, hdesk, heq⟩ := Option.map_eq_some_iff.mp h
    exact ⟨hcalm, desk, hdesk, heq.symm⟩
  · cases h

theorem act_test (h : w.act (.test id) = some w') : ∃ conn o u desk,
    w.desk.stage? id = some (.testing conn) ∧
      w.desk.act (.doing id (.ping (w.cluster.call conn w.clock .ping).2.1)) = some u ∧
      u.act (.doing id (.answered o)) = some desk ∧
      w' = { w with cluster := (w.cluster.call conn w.clock .ping).1, desk } := by
  simp only [act] at h
  split at h
  · next conn hstage =>
    obtain ⟨o, -, h⟩ := Option.bind_eq_some_iff.mp h
    obtain ⟨u, hu, h⟩ := Option.bind_eq_some_iff.mp h
    obtain ⟨desk, hdesk, h⟩ := Option.bind_eq_some_iff.mp h
    cases h
    exact ⟨conn, o, u, desk, hstage, hu, hdesk, rfl⟩
  · cases h

theorem act_dial (h : w.act (.dial id) = some w') : ∃ desk,
    w.desk.act (.doing id (.dialled (w.cluster.connect w.desk.pool.endpoint).2)) = some desk ∧
      w' = { w with cluster := (w.cluster.connect w.desk.pool.endpoint).1, desk } := by
  obtain ⟨desk, hdesk, h⟩ := Option.bind_eq_some_iff.mp h
  cases h
  exact ⟨desk, hdesk, rfl⟩

theorem act_ask {request : Call} (h : w.act (.ask id request) = some w') : ∃ loan desk,
    w.desk.stage? id = some (.over (.ok loan)) ∧
      w.desk.act (.doing id (.ask request (w.cluster.call loan.conn w.clock request).2.1
        (settled? (w.cluster.call loan.conn w.clock request).2.2))) = some desk ∧
      w' = { w with cluster := (w.cluster.call loan.conn w.clock request).1, desk } := by
  simp only [act] at h
  split at h
  · next loan hstage =>
    obtain ⟨desk, hdesk, h⟩ := Option.bind_eq_some_iff.mp h
    cases h
    exact ⟨loan, desk, hstage, hdesk, rfl⟩
  · cases h

theorem act_hear (h : w.act (.hear id) = some w') : ∃ o desk, w.ending? id = some o ∧
    w.desk.act (.doing id (.hear o)) = some desk ∧ w' = { w with desk } := by
  obtain ⟨o, ho, h⟩ := Option.bind_eq_some_iff.mp h
  obtain ⟨desk, hdesk, h⟩ := Option.bind_eq_some_iff.mp h
  cases h
  exact ⟨o, desk, ho, hdesk, rfl⟩

/-- Seen from the pool, a move is what its callers do. -/
theorem act_reaches {d : Desk Connection} {m : Move} (hr : d.Reaches w.desk)
    (h : w.act m = some w') : d.Reaches w'.desk := by
  cases m with
  | calm m =>
    obtain ⟨-, desk, hdesk, rfl⟩ := act_calm h
    exact .step hr m hdesk
  | test id =>
    obtain ⟨conn, o, u, desk, -, hu, hdesk, rfl⟩ := act_test h
    exact .step (.step hr _ hu) _ hdesk
  | dial id =>
    obtain ⟨desk, hdesk, rfl⟩ := act_dial h
    exact .step hr _ hdesk
  | ask id request =>
    obtain ⟨loan, desk, -, hdesk, rfl⟩ := act_ask h
    exact .step hr _ hdesk
  | hear id =>
    obtain ⟨o, desk, -, hdesk, rfl⟩ := act_hear h
    exact .step hr _ hdesk
  | elsewhere cluster clock =>
    cases h
    exact hr

theorem Reaches.desk (h : w.Reaches w') : w.desk.Reaches w'.desk := by
  induction h with
  | here => exact .here
  | step _ m hm ih => exact act_reaches ih hm

theorem run_reaches {u : Hall} {ms : List Move} (hr : w.Reaches u) (h : u.run ms = some w') :
    w.Reaches w' := by
  induction ms generalizing u with
  | nil => cases h; exact hr
  | cons m ms ih =>
    obtain ⟨v, hm, hrun⟩ := Option.bind_eq_some_iff.mp h
    exact ih (.step hr m hm) hrun

end Hall
end Holdfast.Pool
