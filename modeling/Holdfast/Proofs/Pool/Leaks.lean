import Holdfast.Proofs.Pool.Watches

namespace Holdfast

open Store Memory

/-- No idle connection watches anything. -/
def Pool.Clean (p : Pool Connection) : Prop := ∀ conn ∈ p.idle, conn.watched = []

/-- A checkout that has brought no connection yet, or a new loan, and nothing is watched. -/
inductive Checkout.Clean : Checkout Connection → Prop
  | queued (ticket deadline : Nat) : Clean (.queued ticket deadline)
  | testing {conn : Connection} (h : conn.watched = []) : Clean (.testing conn)
  | opening : Clean .opening
  | lend {conn : Connection} (h : conn.watched = []) : Clean (.lend conn)
  | fail (f : Failure) : Clean (.fail f)

namespace Pool.Clean

open Checkout

variable {p : Pool Connection}

theorem of_idle {q : Pool Connection} (h : p.Clean) (hidle : q.idle = p.idle) : q.Clean := by
  intro conn hconn
  rw [hidle] at hconn
  exact h conn hconn

theorem choose (h : p.Clean) : (choose p).1.Clean ∧ (choose p).2.Clean := by
  rcases choose_cases p with ⟨-, heq⟩ | ⟨conn, rest, hidle, heq⟩
  · rw [heq]
    exact ⟨h, .opening⟩
  · rw [heq]
    have hconn : conn.watched = [] := h conn (by rw [hidle]; exact List.mem_cons_self)
    refine ⟨fun c hc => h c (by rw [hidle]; exact List.mem_cons_of_mem _ hc), ?_⟩
    dsimp only
    split
    · exact .testing hconn
    · exact .lend hconn

theorem start (h : p.Clean) (now : Nat) : (start p now).1.Clean ∧ (start p now).2.Clean := by
  cases hclosed : p.isClosed with
  | true => rw [start_closed hclosed]; exact ⟨h, .fail _⟩
  | false =>
    rcases start_open hclosed now with ⟨-, heq⟩ | ⟨-, heq⟩
    · rw [heq]
      exact choose (h.of_idle rfl)
    · rw [heq]
      exact ⟨h.of_idle rfl, .queued _ _⟩

theorem wake {now ticket deadline : Nat} {next : Pool Connection × Checkout Connection}
    (h : p.Clean) (hnext : wake? p now ticket deadline = some next) :
    next.1.Clean ∧ next.2.Clean := by
  have hwithdrawn : (p.withdraw ticket).Clean := h.of_idle (idle_withdraw p ticket)
  rcases wake?_cases hnext with ⟨-, rfl⟩ | ⟨-, -, rfl⟩ | ⟨-, -, -, rfl⟩
  · exact ⟨hwithdrawn, .fail _⟩
  · exact choose (h.of_idle rfl)
  · exact ⟨hwithdrawn, .fail _⟩

theorem tested (h : p.Clean) {conn : Connection} (hconn : conn.watched = []) (o : Outcome) :
    (tested p conn o).1.Clean ∧ (tested p conn o).2.Clean := by
  cases o with
  | ok r => exact ⟨h, .lend hconn⟩
  | error f => exact h.choose

theorem opened (h : p.Clean) {r : Except Failure Connection}
    (hr : ∀ conn, r = .ok conn → conn.watched = []) :
    (opened p r).1.Clean ∧ (opened p r).2.Clean := by
  cases r with
  | ok conn => exact ⟨h, .lend (hr conn rfl)⟩
  | error f => exact ⟨h.of_idle (idle_giveBack p), .fail f⟩

theorem restore (h : p.Clean) {l : Loan Connection} (hl : l.isSound = true → l.conn.watched = []) :
    (p.restore l).Clean := by
  intro conn hconn
  rw [idle_restore] at hconn
  split at hconn
  · next hkept =>
    have hsound : l.isSound = true := by
      simp only [Bool.and_eq_true] at hkept
      exact hkept.1.1
    rcases List.mem_cons.mp hconn with rfl | hconn
    · exact hl hsound
    · exact h conn hconn
  · exact h conn hconn

end Pool.Clean

namespace Pool

/-- A caller of whose watches the next one will not hear. -/
structure Guest.Tidy (g : Guest Connection) : Prop where
  fresh : ∀ c, g.checkout = some c → (∀ r, c ≠ .over r) → g.notes = []
  tested : ∀ conn, g.checkout = some (.testing conn) → conn.watched = []
  shows : ∀ l, g.checkout = some (.over (.ok l)) → l.Shows g.asked g.notes

/-- What the stores may answer to a caller. -/
def Deed.Fits (g : Guest Connection) : Deed Connection → Prop
  | .ping conn => ∀ c, g.checkout = some (.testing c) → Follows c .ping conn none
  | .dialled r => ∀ conn, r = .ok conn → conn.watched = []
  | .ask r conn settled => ∀ l, g.checkout = some (.over (.ok l)) → Follows l.conn r conn settled
  | .hear _ => ∀ r, g.asked = some (r, none) → Loan.endsWatch r = false
  | .wake | .answered _ | .cut | .report _ | .leave => True

namespace Guest.Tidy

variable {g g' : Guest Connection} {p p' : Pool Connection} {now : Nat} {deed : Deed Connection}

/-- A checkout goes on, of a caller of whom nothing is noted. -/
theorem of_clean {c : Checkout Connection} (hc : c.Clean)
    (asked : Option (Call × Option Outcome)) : Tidy ⟨some c, asked, []⟩ := by
  refine ⟨fun _ _ _ => rfl, ?_, ?_⟩
  · rintro conn heq
    cases hc with
    | testing h => cases heq; exact h
    | _ => cases heq
  · rintro l heq
    cases hc with
    | lend h => cases heq; exact .of_clean h
    | _ => cases heq

theorem of_loan {l : Loan Connection} {asked : Option (Call × Option Outcome)} {notes : List Note}
    (h : l.Shows asked notes) : Tidy ⟨some (.over (.ok l)), asked, notes⟩ := by
  refine ⟨?_, ?_, ?_⟩
  · rintro c ⟨⟩ hc
    exact absurd rfl (hc _)
  · rintro conn ⟨⟩
  · rintro l' ⟨⟩
    exact h

theorem abandon (h : g.Tidy) (hp : p.Clean) {c : Checkout Connection} (hc : g.checkout = some c) :
    (c.abandon p).Clean := by
  match c with
  | .queued ticket _ => exact hp.of_idle (idle_withdraw p ticket)
  | .testing _ | .opening => exact hp.of_idle (idle_giveBack p)
  | .over (.error _) => exact hp
  | .over (.ok l) =>
    have hl := h.shows l hc
    refine hp.restore fun hsound => hl.clean ?_
    have hnot := (hl.isSound_iff.mp hsound).2
    rw [← hl.watching, Bool.not_eq_true] at hnot
    exact hnot

theorem act (h : g.Tidy) (hp : p.Clean) (hd : deed.Fits g)
    (hact : g.act p now deed = some (p', g')) : p'.Clean ∧ g'.Tidy := by
  unfold Guest.act at hact
  -- until it has its connection nothing is noted of a caller, so that the new loan shows nothing
  split at hact
  · next ticket deadline hc =>
    obtain ⟨next, hnext, heq⟩ := Option.map_eq_some_iff.mp hact
    cases heq
    have hnotes := h.fresh _ hc (by simp)
    have hclean := hp.wake hnext
    rw [hnotes]
    exact ⟨hclean.1, .of_clean hclean.2 _⟩
  · next conn c hc =>
    cases hact
    have hnotes := h.fresh _ hc (by simp)
    have hconn := (hd c hc).clean (h.tested c hc) (by simp)
    rw [hnotes]
    exact ⟨hp, .of_clean (.testing hconn) _⟩
  · next o conn hc =>
    cases hact
    have hnotes := h.fresh _ hc (by simp)
    have hclean := hp.tested (h.tested conn hc) o
    rw [hnotes]
    exact ⟨hclean.1, .of_clean hclean.2 _⟩
  · next r hc =>
    cases hact
    have hnotes := h.fresh _ hc (by simp)
    have hclean := hp.opened hd
    rw [hnotes]
    exact ⟨hclean.1, .of_clean hclean.2 _⟩
  · next r conn settled l hc =>
    split at hact
    · cases hact
    · cases hact
      exact ⟨hp, .of_loan ((h.shows l hc).ask (hd l hc))⟩
  · next o l hc =>
    obtain ⟨⟨r, settled⟩, hasked, heq⟩ := Option.map_eq_some_iff.mp hact
    cases heq
    refine ⟨hp, .of_loan ((h.shows l hc).hear hasked ?_)⟩
    rintro rfl
    exact hd r hasked
  · next l hc =>
    cases hact
    have hcut := (h.shows l hc).cut
    rw [hc]
    exact ⟨hp, .of_loan hcut⟩
  · next isHealthy l hc =>
    cases hact
    exact ⟨hp, .of_loan ((h.shows l hc).report isHealthy)⟩
  · next c hc =>
    cases hact
    refine ⟨h.abandon hp hc, ?_, ?_, ?_⟩
    · rintro c ⟨⟩
    · rintro conn ⟨⟩
    · rintro l ⟨⟩
  · cases hact

end Guest.Tidy

structure Desk.Tidy (d : Desk Connection) : Prop where
  pool : d.pool.Clean
  guests : ∀ g ∈ d.guests, g.Tidy

theorem Desk.Tidy.act {d d' : Desk Connection} {m : Desk.Move Connection} (h : d.Tidy)
    (hm : d.act m = some d')
    (hf : ∀ id deed g, m = .doing id deed → d.guests[id]? = some g → deed.Fits g) : d'.Tidy := by
  cases m with
  | tick ms => cases hm; exact ⟨h.pool, h.guests⟩
  | close =>
    cases hm
    refine ⟨?_, h.guests⟩
    intro conn hconn
    simp only [Desk.close, Pool.close] at hconn
    split at hconn
    · exact h.pool conn hconn
    · cases hconn
  | acquire =>
    rw [act_acquire hm]
    have hclean := h.pool.start d.now
    refine ⟨hclean.1, ?_⟩
    intro g hg
    rcases List.mem_append.mp hg with hg | hg
    · exact h.guests g hg
    · obtain rfl := List.mem_singleton.mp hg
      exact .of_clean hclean.2 none
  | doing id deed =>
    obtain ⟨g, pool, g', hg, hact, rfl⟩ := act_doing hm
    have htidy := h.guests g (List.mem_of_getElem? hg)
    have hnext := htidy.act h.pool (hf id deed g rfl hg) hact
    refine ⟨hnext.1, ?_⟩
    intro f hfin
    rcases List.mem_or_eq_of_mem_set hfin with hold | rfl
    · exact h.guests f hold
    · exact hnext.2

namespace Hall

variable {w w' : Hall}

/-- Whatever the callers ask of the stores, and whatever becomes of it, no watch is left behind. -/
theorem tidy_act {m : Move} (h : w.desk.Tidy) (hm : w.act m = some w') : w'.desk.Tidy := by
  cases m with
  | calm m =>
    obtain ⟨hcalm, desk, hdesk, rfl⟩ := act_calm hm
    refine h.act hdesk ?_
    rintro id deed g rfl -
    cases deed with
    | wake | cut | report | leave => trivial
    | ping | answered | dialled | ask | hear => cases hcalm
  | test id =>
    obtain ⟨conn, o, u, desk, hstage, hu, hdesk, rfl⟩ := act_test hm
    have hlaw := w.cluster.call_follows conn w.clock .ping
    have hpinged : u.Tidy := by
      refine h.act hu ?_
      rintro id' deed g ⟨⟩ hg c hc
      rw [Desk.stage?, hg, Option.bind_some, hc] at hstage
      cases hstage
      exact ⟨hlaw.clean, fun x hx => by cases hx⟩
    refine hpinged.act hdesk ?_
    rintro id' deed g ⟨⟩ -
    trivial
  | dial id =>
    obtain ⟨desk, hdesk, rfl⟩ := act_dial hm
    refine h.act hdesk ?_
    rintro id' deed g ⟨⟩ - conn hconn
    exact Cluster.connect_watched hconn
  | ask id r =>
    obtain ⟨l, desk, hstage, hdesk, rfl⟩ := act_ask hm
    refine h.act hdesk ?_
    rintro id' deed g ⟨⟩ hg l' hl'
    rw [Desk.stage?, hg, Option.bind_some, hl'] at hstage
    cases hstage
    exact w.cluster.call_follows l.conn w.clock r
  | hear id =>
    obtain ⟨o, desk, hending, hdesk, rfl⟩ := act_hear hm
    refine h.act hdesk ?_
    rintro id' deed g ⟨⟩ hg r hasked
    rw [ending?, hg] at hending
    simp only [Option.bind_eq_bind, Option.bind_some, hasked] at hending
    split at hending
    · next heq => cases heq
    · next heq _ => cases heq; rfl
    · cases hending
  | elsewhere cluster clock =>
    cases hm
    exact h

theorem Reaches.tidy {c : Cluster} {clock : Nat} {e : Endpoint} {o : PoolOptions} {b : Backend}
    (h : (fresh c clock e o b).Reaches w) : w.desk.Tidy := by
  induction h with
  | here =>
    refine ⟨?_, ?_⟩
    · intro conn hconn
      cases hconn
    · intro g hg
      cases hg
  | step _ m hm ih => exact tidy_act ih hm

/-- A caller with a connection asks for a transaction. -/
theorem ask_exec {id : Nat} {g : Guest Connection} {l : Loan Connection} {o : Outcome}
    {writes : List Write} (hg : w.desk.guests[id]? = some g)
    (hl : g.checkout = some (.over (.ok l))) (hasked : g.asked = none)
    (ho : (w.cluster.call l.conn w.clock (.exec writes)).2.2 = .now o) :
    ∃ w' g', w.act (.ask id (.exec writes)) = some w' ∧ w'.desk.guests[id]? = some g' ∧
      g'.asked = some (.exec writes, some o) := by
  have hstage : w.desk.stage? id = some (.over (.ok l)) := by
    rw [Desk.stage?, hg, Option.bind_some, hl]
  obtain ⟨hid, -⟩ := List.getElem?_eq_some_iff.mp hg
  obtain ⟨g', hact, hg'⟩ : ∃ g', g.act w.desk.pool w.desk.now (.ask (.exec writes)
      (w.cluster.call l.conn w.clock (.exec writes)).2.1 (some o)) = some (w.desk.pool, g') ∧
        g'.asked = some (.exec writes, some o) := by
    obtain ⟨checkout, asked, notes⟩ := g
    cases hl
    cases hasked
    exact ⟨_, rfl, rfl⟩
  have hdesk := Desk.act_of_guest hg hact
  simp only [act, hstage, ho, settled?, hdesk]
  exact ⟨_, g', rfl, List.getElem?_set_self hid, hg'⟩

theorem leave_lent {id : Nat} {g : Guest Connection} {l : Loan Connection}
    (hg : w.desk.guests[id]? = some g) (hl : g.checkout = some (.over (.ok l))) :
    ∃ w', w.act (.calm (.doing id .leave)) = some w' ∧
      w'.desk.pool = w.desk.pool.restore l := by
  obtain ⟨g', hact⟩ : ∃ g', g.act w.desk.pool w.desk.now .leave =
      some (w.desk.pool.restore l, g') := by
    obtain ⟨checkout, asked, notes⟩ := g
    cases hl
    exact ⟨_, rfl⟩
  have hdesk := Desk.act_of_guest hg hact
  simp only [act, Desk.Move.isCalm, Deed.isCalm, hdesk]
  exact ⟨_, rfl, rfl⟩

/-- No idle connection watches anything, so a transaction of one who has no watch pending is never
aborted. What comes back is kept exactly when it was reported healthy last, no watch is pending on
it, the pool is open and there is room. -/
theorem no_watch_leaks {c : Cluster} {clock : Nat} {e : Endpoint} {o : PoolOptions} {b : Backend}
    (h : (fresh c clock e o b).Reaches w) :
    (∀ conn ∈ w.desk.pool.idle, conn.watched = []) ∧
    ∀ id g l, w.desk.guests[id]? = some g → g.checkout = some (.over (.ok l)) →
      (g.asked = none → ¬ Pending g.notes → ∀ writes, ∃ w' g' outcome,
        w.act (.ask id (.exec writes)) = some w' ∧ w'.desk.guests[id]? = some g' ∧
          g'.asked = some (.exec writes, some outcome) ∧ outcome ≠ .ok (.effects none)) ∧
      ∃ w', w.act (.calm (.doing id .leave)) = some w' ∧
        (w'.desk.pool.idle = l.conn :: w.desk.pool.idle ∨
          w'.desk.pool.idle = w.desk.pool.idle) ∧
        (w'.desk.pool.idle = l.conn :: w.desk.pool.idle ↔
          isHealthy g.notes = true ∧ ¬ Pending g.notes ∧ w.desk.pool.isClosed = false ∧
            w.desk.pool.idle.length < o.maxIdle.toNat) := by
  have htidy := h.tidy
  have hsound : w.desk.crowd.Sound o := (Crowd.Sound.fresh e b).reaches h.desk.crowd
  have hkeeps : w.desk.pool.maxIdle = o.maxIdle.toNat := hsound.balanced.keeps
  refine ⟨htidy.pool, fun id g l hg hl => ?_⟩
  have hshows := (htidy.guests g (List.mem_of_getElem? hg)).shows l hl
  refine ⟨fun hasked hnot writes => ?_, ?_⟩
  · have hclean : l.conn.watched = [] := by
      refine hshows.clean ?_
      rwa [← hshows.watching, Bool.not_eq_true] at hnot
    obtain ⟨outcome, ho, hruns⟩ := w.cluster.call_exec hclean w.clock writes
    obtain ⟨w', g', hact, hg', hasked'⟩ := ask_exec hg hl hasked ho
    refine ⟨w', g', outcome, hact, hg', hasked', ?_⟩
    rcases hruns with rfl | ⟨es, rfl⟩
    · simp
    · simp
  · obtain ⟨w', hact, hpool⟩ := leave_lent hg hl
    refine ⟨w', hact, ?_⟩
    have hkept : (l.isSound && !w.desk.pool.isClosed &&
        decide (w.desk.pool.idle.length < w.desk.pool.maxIdle)) = true ↔
        isHealthy g.notes = true ∧ ¬ Pending g.notes ∧ w.desk.pool.isClosed = false ∧
          w.desk.pool.idle.length < w.desk.pool.maxIdle := by
      simp only [Bool.and_eq_true, hshows.isSound_iff, Bool.not_eq_true', decide_eq_true_eq,
        and_assoc]
    rw [hpool, idle_restore, ← hkeeps, ← hkept]
    split
    · next hin => exact ⟨.inl rfl, iff_of_true rfl hin⟩
    · next hout => exact ⟨.inr rfl, iff_of_false (List.cons_ne_self _ _).symm hout⟩

/-- A caller watches a key, writes it in a transaction and has heard of both. -/
def visit : List Move :=
  [.calm .acquire, .dial 0, .ask 0 (.watch [1]), .hear 0, .ask 0 (.exec [.put [1] [2]]), .hear 0]

theorem no_watch_leaks_visit : ∃ w g l w',
    (fresh (Cluster.add {} ⟨"a", 7001⟩) 0 ⟨"a", 7001⟩ {} .memory).run visit = some w ∧
      w.desk.guests[0]? = some g ∧ g.checkout = some (.over (.ok l)) ∧
      .asked (.watch [1]) ∈ g.notes ∧ w.act (.calm (.doing 0 .leave)) = some w' ∧
      w'.desk.pool.idle = l.conn :: w.desk.pool.idle := by
  have hrun : ∃ w g l, (fresh (Cluster.add {} ⟨"a", 7001⟩) 0 ⟨"a", 7001⟩ {} .memory).run visit =
      some w ∧ w.desk.guests[0]? = some g ∧ g.checkout = some (.over (.ok l)) ∧
        g.notes = [.heard (.exec [.put [1] [2]]) (.ok (.effects (some [.previous none]))),
          .asked (.exec [.put [1] [2]]), .heard (.watch [1]) (.ok .done), .asked (.watch [1])] ∧
        w.desk.pool.isClosed = false ∧ w.desk.pool.idle = [] :=
    ⟨_, _, _, rfl, rfl, rfl, rfl, rfl, rfl⟩
  obtain ⟨w, g, l, hw, hg, hl, hnotes, hopen, hidle⟩ := hrun
  obtain ⟨w', hact, -, hkept⟩ := ((no_watch_leaks (run_reaches .here hw)).2 0 g l hg hl).2
  refine ⟨w, g, l, w', hw, hg, hl, by simp [hnotes], hact, hkept.mpr ⟨?_, ?_, hopen, ?_⟩⟩
  · rw [hnotes]
    rfl
  · simp [hnotes, pending_cons, Loan.endsWatch]
  · rw [hidle]
    decide

end Hall
end Pool
end Holdfast
