import Holdfast.Proofs.Pool.Permits
import Mathlib.Algebra.Ring.Nat

namespace Holdfast.Pool

open Store

variable {κ : Type}

/-- Whether a caller holds a permit: with a connection, without one, or ready for it in the queue. -/
def Visit.hasPermit (p : Pool κ) (v : Visit κ) : Bool :=
  v.bound = 1 || v.bare = 1 || v.ticket?.any (· ∈ p.granted)

theorem Visit.ticket?_cases (v : Visit κ) :
    (∃ t, v.ticket? = some t ∧ v.bound = 0 ∧ v.bare = 0) ∨
      (v.ticket? = none ∧ v.bound + v.bare ≤ 1) := by
  match v with
  | .resting (.queued t _) => left; exact ⟨t, rfl, rfl, rfl⟩
  | .resting (.testing _) | .resting .opening | .resting (.over (.ok _)) | .returning _ =>
    right; exact ⟨rfl, Nat.le_refl _⟩
  | .admitted | .parting => right; exact ⟨rfl, Nat.le_refl _⟩
  | .asking | .gone | .resting (.over (.error _)) => right; exact ⟨rfl, Nat.zero_le _⟩

/-- What a caller of a closed pool does: it finds the pool open no more, and a connection is put
with the idle ones only by one that has found it open before. -/
theorem Passes.closed {p p' : Pool κ} {now : Nat} {v v' : Visit κ} (h : Passes p now v p' v')
    (hclosed : p.isClosed = true) : p'.isClosed = true ∧ (∀ conn, v' ≠ .returning conn) ∧
      ∀ conn ∈ p'.idle, conn ∈ p.idle ∨ v = .returning conn := by
  cases h with
  | kept conn =>
    refine ⟨(alike_keep p conn).isClosed.trans hclosed, fun _ => nofun, fun c hc => ?_⟩
    unfold keep at hc
    split at hc
    · rcases List.mem_cons.mp hc with rfl | hc
      · exact .inr rfl
      · exact .inl hc
    · exact .inl hc
  | chose =>
    refine ⟨(Checkout.alike_choose p).isClosed.trans hclosed, fun _ => nofun, fun c hc => .inl ?_⟩
    rcases Checkout.choose_cases p with ⟨-, heq⟩ | ⟨conn, rest, hidle, heq⟩
    · rwa [heq] at hc
    · rw [heq] at hc
      rw [hidle]
      exact List.mem_cons_of_mem _ hc
  | returns l hopen => rw [hopen] at hclosed; cases hclosed
  | dismissed ticket | withdrew ticket =>
    rw [(alike_withdraw p ticket).isClosed, idle_withdraw]
    exact ⟨hclosed, fun _ => nofun, fun c hc => .inl hc⟩
  | failed | parted | gaveUp =>
    rw [(alike_giveBack p).isClosed, idle_giveBack]
    exact ⟨hclosed, fun _ => nofun, fun c hc => .inl hc⟩
  | refused | admitted | queued | granted | pinged | answered | evicted | dialled | used | discards
    | left => exact ⟨hclosed, fun _ => nofun, fun c hc => .inl hc⟩

namespace Crowd

/-- The connections that are on loan, on their way back, being tested or being opened. -/
def bound (w : Crowd κ) : Nat := (w.visits.map Visit.bound).sum

def bare (w : Crowd κ) : Nat := (w.visits.map Visit.bare).sum

def tickets (w : Crowd κ) : List Nat := w.visits.filterMap Visit.ticket?

/-- The permits that callers hold. -/
def permits (w : Crowd κ) : Nat := w.visits.countP (Visit.hasPermit w.pool)

structure Sound (o : PoolOptions) (w : Crowd κ) : Prop where
  balanced : w.pool.Balanced (limit o) o.maxIdle.toNat w.bound w.bare
  line : w.pool.Line w.tickets

/-- The callers around one of them. -/
theorem split_visits {vs : List (Visit κ)} {id : Nat} {v : Visit κ} (h : vs[id]? = some v) :
    ∃ before after, vs = before ++ v :: after ∧ ∀ v', vs.set id v' = before ++ v' :: after := by
  obtain ⟨hid, rfl⟩ := List.getElem?_eq_some_iff.mp h
  refine ⟨vs.take id, vs.drop (id + 1), ?_, fun v' => List.set_eq_take_append_cons_drop.trans ?_⟩
  · simp
  · rw [if_pos hid]

/-- The tickets of one caller, brought to the front. -/
theorem tickets_perm (before after : List (Visit κ)) (v : Visit κ) :
    ((before ++ v :: after).filterMap Visit.ticket?).Perm
      (v.ticket?.toList ++ (before ++ after).filterMap Visit.ticket?) := by
  cases hv : v.ticket? with
  | none => simp [List.filterMap_append, hv]
  | some t =>
    simp only [List.filterMap_append, List.filterMap_cons, hv]
    exact List.perm_middle

theorem sum_split (f : Visit κ → Nat) (before after : List (Visit κ)) (v : Visit κ) :
    ((before ++ v :: after).map f).sum = ((before ++ after).map f).sum + f v := by
  simp only [List.map_append, List.map_cons, List.sum_append, List.sum_cons]
  omega

namespace Sound

variable {o : PoolOptions} {w w' : Crowd κ}

theorem fresh (e : Endpoint) (b : Backend) : (Crowd.fresh e o b : Crowd κ).Sound o :=
  ⟨.new e o b, .new e o b⟩

/-- Who comes has neither a permit nor a ticket yet. -/
theorem join (h : w.Sound o) {v : Visit κ} (hbound : v.bound = 0) (hbare : v.bare = 0)
    (hticket : v.ticket? = none) : Sound o { w with visits := w.visits ++ [v] } := by
  have hb := h.balanced
  have hl := h.line
  refine ⟨?_, ?_⟩
  · simpa [bound, bare, hbound, hbare] using hb
  · simpa [tickets, List.filterMap_append, hticket] using hl

/-- What one caller does keeps the whole in order. -/
theorem doing (h : w.Sound o) {id : Nat} {deed : Visit.Deed κ}
    (hm : w.act (.doing id deed) = some w') : w'.Sound o := by
  obtain ⟨v, pool, v', hv, hpass, rfl⟩ := act_doing hm
  obtain ⟨before, after, hvisits, hset⟩ := split_visits hv
  refine ⟨?_, ?_⟩
  · have hb := h.balanced
    rw [bound, bare, hvisits, sum_split, sum_split] at hb
    simp only [bound, bare]
    rw [hset, sum_split, sum_split]
    exact hb.passes hpass
  · have hl := h.line
    rw [tickets, hvisits] at hl
    have hown := hl.perm (tickets_perm before after v)
    have hnext := hown.passes hpass
    simp only [tickets]
    rw [hset]
    exact hnext.perm (tickets_perm before after v').symm

theorem act (h : w.Sound o) (m : Move κ) (hm : w.act m = some w') : w'.Sound o := by
  cases m with
  | tick ms => cases hm; exact ⟨h.balanced, h.line⟩
  | acquire =>
    cases hm
    by_cases hclosed : w.pool.isClosed
    · simp only [hclosed, if_true]
      exact h.join rfl rfl rfl
    · simp only [hclosed]
      exact h.join rfl rfl rfl
  | shut =>
    cases hm
    by_cases hclosed : w.pool.isClosed
    · simp only [hclosed, if_true]
      exact h
    · simp only [hclosed]
      exact ⟨⟨h.balanced.permits, h.balanced.covered, h.balanced.capped, h.balanced.keeps⟩,
        ⟨h.line.drawn, h.line.before, h.line.nodup, h.line.queued⟩⟩
  | closePermits =>
    obtain ⟨-, rfl⟩ := act_closePermits hm
    exact ⟨⟨h.balanced.permits, h.balanced.covered, h.balanced.capped, h.balanced.keeps⟩,
      h.line.closePermits⟩
  | drain =>
    obtain ⟨-, rfl⟩ := act_drain hm
    exact ⟨h.balanced.drain, ⟨h.line.drawn, h.line.before, h.line.nodup, h.line.queued⟩⟩
  | doing id deed => exact h.doing hm

theorem reaches (h : w.Sound o) (hr : w.Reaches w') : w'.Sound o := by
  induction hr with
  | here => exact h
  | step _ m hm ih => exact ih.act m hm

/-- A permit that lies ready has its caller in the queue. -/
theorem ready (h : w.Sound o) :
    (w.tickets.filter (· ∈ w.pool.granted)).length = w.pool.granted.length := by
  refine List.Perm.length_eq ((List.perm_ext_iff_of_nodup (h.line.drawn.filter _) ?_).mpr ?_)
  · exact (List.nodup_append.mp h.line.nodup).2.1
  · intro t
    rw [List.mem_filter, decide_eq_true_eq]
    exact ⟨And.right, fun ht => ⟨h.line.queued t (List.mem_append_right _ ht), ht⟩⟩

theorem permits_eq (h : w.Sound o) : w.permits = w.bound + w.bare + w.pool.granted.length := by
  have hcount (p : Pool κ) (vs : List (Visit κ)) : vs.countP (Visit.hasPermit p) =
      (vs.map Visit.bound).sum + (vs.map Visit.bare).sum +
        ((vs.filterMap Visit.ticket?).filter (· ∈ p.granted)).length := by
    induction vs with
    | nil => rfl
    | cons v rest ih =>
      -- a permit comes with a connection, without one, or lies ready for a ticket
      rw [List.countP_cons, ih, List.map_cons, List.sum_cons, List.map_cons, List.sum_cons,
        List.filterMap_cons]
      rcases v.ticket?_cases with ⟨t, ht, hb, hn⟩ | ⟨ht, hle⟩
      · by_cases hin : t ∈ p.granted
        · simp [Visit.hasPermit, ht, hb, hn, hin]; omega
        · simp [Visit.hasPermit, ht, hb, hn, hin]
      · have hcases : (v.bound = 0 ∧ v.bare = 0) ∨ (v.bound = 1 ∧ v.bare = 0) ∨
            (v.bound = 0 ∧ v.bare = 1) := by omega
        rcases hcases with ⟨hb, hn⟩ | ⟨hb, hn⟩ | ⟨hb, hn⟩
        · simp [Visit.hasPermit, ht, hb, hn]
        · simp [Visit.hasPermit, ht, hb, hn]; omega
        · simp [Visit.hasPermit, ht, hb, hn]; omega
  rw [permits, hcount, ← h.ready]
  rfl

end Sound

/-- A caller that has found the pool open and has not put its connection back yet. -/
def Returning (w : Crowd κ) (id : Nat) (conn : κ) : Prop :=
  w.visits[id]? = some (.returning conn)

/-- The end of a pool: from `w`, where its door is shut, over whatever the callers do, to `u`, where
its idle connections are let go. -/
structure Ends (w u w' : Crowd κ) : Prop where
  serving : w.pool.isClosed = false
  between : Reaches { w with pool := w.pool.shut } u
  drained : u.act .drain = some w'

/-- What has become of a closed pool: nobody has found it open since, and its idle connections were
there before or were on their way back. -/
structure Fades (w w' : Crowd κ) : Prop where
  closed : w'.pool.isClosed = true
  returning : ∀ id conn, w'.Returning id conn → w.Returning id conn
  idle : ∀ conn ∈ w'.pool.idle, conn ∈ w.pool.idle ∨ ∃ id, w.Returning id conn

namespace Fades

variable {w u w' : Crowd κ}

theorem refl (h : w.pool.isClosed = true) : w.Fades w :=
  ⟨h, fun _ _ hid => hid, fun _ hconn => .inl hconn⟩

theorem trans (h : w.Fades u) (h' : u.Fades w') : w.Fades w' := by
  refine ⟨h'.closed, fun id conn hid => h.returning id conn (h'.returning id conn hid), ?_⟩
  intro conn hconn
  rcases h'.idle conn hconn with hconn | ⟨id, hid⟩
  · exact h.idle conn hconn
  · exact .inr ⟨id, h.returning id conn hid⟩

theorem doing (h : w.pool.isClosed = true) {id : Nat} {deed : Visit.Deed κ}
    (hm : w.act (.doing id deed) = some w') : w.Fades w' := by
  obtain ⟨v, pool, v', hv, hpass, rfl⟩ := act_doing hm
  obtain ⟨hstill, hnot, hidle⟩ := hpass.closed h
  refine ⟨hstill, fun i conn hi => ?_, fun conn hconn => ?_⟩
  · by_cases heq : id = i
    · subst heq
      obtain ⟨hid, -⟩ := List.getElem?_eq_some_iff.mp hv
      rw [Returning, List.getElem?_set_self hid] at hi
      exact absurd (Option.some.inj hi) (hnot conn)
    · rwa [Returning, List.getElem?_set_ne heq] at hi
  · rcases hidle conn hconn with hconn | rfl
    · exact .inl hconn
    · exact .inr ⟨id, hv⟩

theorem act {m : Move κ} (h : w.pool.isClosed = true) (hm : w.act m = some w') : w.Fades w' := by
  cases m with
  | tick ms => cases hm; exact ⟨h, fun _ _ hid => hid, fun _ hconn => .inl hconn⟩
  | acquire =>
    cases hm
    refine ⟨h, fun id conn hid => ?_, fun _ hconn => .inl hconn⟩
    simp only [h, if_true, Returning] at hid ⊢
    rcases Nat.lt_or_ge id w.visits.length with hlt | hge
    · rwa [List.getElem?_append_left hlt] at hid
    · rw [List.getElem?_append_right hge] at hid
      cases List.mem_singleton.mp (List.mem_of_getElem? hid)
  | shut =>
    cases hm
    simp only [h, if_true]
    exact .refl h
  | closePermits =>
    obtain ⟨-, rfl⟩ := act_closePermits hm
    exact ⟨rfl, fun _ _ hid => hid, fun _ hconn => .inl hconn⟩
  | drain =>
    obtain ⟨-, rfl⟩ := act_drain hm
    exact ⟨rfl, fun _ _ hid => hid, fun _ hconn => by cases hconn⟩
  | doing id deed => exact .doing h hm

theorem reaches (h : w.pool.isClosed = true) (hr : w.Reaches w') : w.Fades w' := by
  induction hr with
  | here => exact .refl h
  | step _ m hm ih => exact ih.trans (.act ih.closed hm)

end Fades

/-- Whoever has found the pool open puts its connection with the idle ones of a drained pool. -/
theorem late_return {w w' : Crowd κ} {id : Nat} {conn : κ} (hm : w.act .drain = some w')
    (hv : w.Returning id conn) (hroom : 0 < w.pool.maxIdle) :
    ∃ v, w'.Reaches v ∧ v.pool.idle = [conn] := by
  obtain ⟨-, rfl⟩ := act_drain hm
  refine ⟨_, Reaches.here.doing .next hv rfl, ?_⟩
  simp [keep, drain, hroom]

/-- However the callers come, wait, give up and go, and whenever the pool is closed, it has no more
connections than permits, loses no permit and keeps no more idle connections than it may. An idle
connection of a closed pool comes from a caller that had found the pool open before its door was
shut and had not put the connection back when the idle ones were let go; only where there is no such
caller is there no idle connection from then on. -/
theorem closed_keeps_iff {e : Endpoint} {o : PoolOptions} {b : Backend} {w : Crowd κ}
    (h : (fresh e o b).Reaches w) :
    w.pool.idle.length + w.bound ≤ max o.maxSize.toNat 1 ∧
      w.pool.free + w.permits = max o.maxSize.toNat 1 ∧
      w.pool.idle.length ≤ o.maxIdle.toNat ∧
      ∀ u w', w.Ends u w' →
        (∀ v, w'.Reaches v → ∀ conn ∈ v.pool.idle, ∃ id,
          w.Returning id conn ∧ u.Returning id conn) ∧
        ((∀ v, w'.Reaches v → v.pool.idle = []) ↔
          o.maxIdle.toNat = 0 ∨ ¬ ∃ id conn, w.Returning id conn ∧ u.Returning id conn) := by
  have hsound : w.Sound o := (Sound.fresh e b).reaches h
  have hcovered := hsound.balanced.covered
  have hpermits := hsound.balanced.permits
  have hlimit : limit o = max o.maxSize.toNat 1 := Nat.max_comm _ _
  rw [hlimit] at hpermits
  refine ⟨by omega, ?_, hsound.balanced.capped, fun u w' hend => ?_⟩
  · rw [hsound.permits_eq]
    omega
  have hshut : w.act .shut = some { w with pool := w.pool.shut } := by
    simp [Crowd.act, hend.serving]
  have hu : u.Sound o := (hsound.act .shut hshut).reaches hend.between
  have hw' : w'.Sound o := hu.act .drain hend.drained
  have hbetween : Fades { w with pool := w.pool.shut } u := .reaches rfl hend.between
  have horigin (v : Crowd κ) (hv : w'.Reaches v) (conn : κ) (hconn : conn ∈ v.pool.idle) :
      ∃ id, w.Returning id conn ∧ u.Returning id conn := by
    obtain ⟨-, rfl⟩ := act_drain hend.drained
    rcases (Fades.reaches rfl hv).idle conn hconn with hnone | ⟨id, hid⟩
    · cases hnone
    · exact ⟨id, hbetween.returning id conn hid, hid⟩
  refine ⟨horigin, fun hempty => ?_, fun hnone v hv => ?_⟩
  · by_contra hnot
    obtain ⟨hroom, hlate⟩ := not_or.mp hnot
    obtain ⟨id, conn, -, hid⟩ := not_not.mp hlate
    have hspace : 0 < u.pool.maxIdle := by
      rw [hu.balanced.keeps]
      exact Nat.pos_of_ne_zero hroom
    obtain ⟨v, hv, hidle⟩ := late_return hend.drained hid hspace
    rw [hempty v hv] at hidle
    cases hidle
  · rcases hnone with hzero | hnone
    · have hcapped := (hw'.reaches hv).balanced.capped
      rw [hzero] at hcapped
      exact List.length_eq_zero_iff.mp (Nat.le_zero.mp hcapped)
    · refine List.eq_nil_iff_forall_not_mem.mpr fun conn hconn => hnone ?_
      obtain ⟨id, hid⟩ := horigin v hv conn hconn
      exact ⟨id, conn, hid⟩

/-- Somebody opens a connection, and finds the pool open when it is to give it back. -/
def crossing : List (Move Unit) :=
  [.acquire, .doing 0 .next, .doing 0 .next, .doing 0 (.dialled (.ok ())), .doing 0 .leave]

theorem ends_crossing : ∃ w u w',
    (fresh ⟨"a", 7001⟩ { maxSize := 1 } .memory).run crossing = some w ∧ w.Ends u w' ∧
      u.pool.maxIdle = 8 ∧ w.Returning 0 () ∧ u.Returning 0 () := by
  obtain ⟨w, hw, hopen, hkeep, hback⟩ : ∃ w,
      (fresh ⟨"a", 7001⟩ { maxSize := 1 } .memory).run crossing = some w ∧
        w.pool.isClosed = false ∧ w.pool.maxIdle = 8 ∧ w.Returning 0 () :=
    ⟨_, rfl, rfl, rfl, rfl⟩
  have hpermits : act { w with pool := w.pool.shut } .closePermits =
      some { w with pool := w.pool.shut.closePermits } := rfl
  exact ⟨w, _, _, hw, ⟨hopen, .step .here _ hpermits, rfl⟩, hkeep, hback, hback⟩

theorem closed_keeps_iff_crossing : ∃ w u w',
    (fresh ⟨"a", 7001⟩ { maxSize := 1 } .memory).run crossing = some w ∧ w.Ends u w' ∧
      w.pool.idle.length + w.bound ≤ 1 ∧ w.pool.free + w.permits = 1 ∧
      w.pool.idle.length ≤ 8 ∧ ¬ ∀ v, w'.Reaches v → v.pool.idle = [] := by
  obtain ⟨w, u, w', hw, hend, -, hfirst, hthen⟩ := ends_crossing
  obtain ⟨hbound, hpermits, hidle, hend'⟩ := closed_keeps_iff (run_reaches .here hw)
  refine ⟨w, u, w', hw, hend, hbound, hpermits, hidle, fun hempty => ?_⟩
  rcases (hend' u w' hend).2.mp hempty with hzero | hnone
  · revert hzero
    decide
  · exact hnone ⟨0, (), hfirst, hthen⟩

/-- A pool is closed, and a caller that has looked before puts its connection back afterwards. -/
theorem closed_keeps : ¬ ∀ (e : Endpoint) (o : PoolOptions) (b : Backend) (w u w' v : Crowd Unit),
    (fresh e o b).Reaches w → w.Ends u w' → w'.Reaches v → v.pool.idle = [] := by
  intro h
  obtain ⟨w, u, w', hw, hend, hkeep, -, hback⟩ := ends_crossing
  obtain ⟨v, hv, hidle⟩ := late_return hend.drained hback (by rw [hkeep]; decide)
  rw [h _ _ _ w u w' v (run_reaches .here hw) hend hv] at hidle
  cases hidle

end Crowd
end Holdfast.Pool
