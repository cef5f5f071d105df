import Holdfast.Proofs.Etcd.Steady
import Holdfast.Proofs.Etcd.Talk

namespace Holdfast.Etcd

open Exchange Store

namespace Data

variable {d d' : Data}

theorem number_congr {key : Bytes} (h : d'.rows.get? key = d.rows.get? key) (t : Target) :
    d'.number key t = d.number key t := by
  cases t <;> simp [number, h]

/-- Conditions are met or not by the keys as they are. -/
theorem meets_congr (h : ∀ key, d'.rows.get? key = d.rows.get? key) : d'.meets = d.meets := by
  funext c
  simp only [meets, number_congr (h c.key)]

theorem Sound.meets_isAbsent (h : d.Sound) (key : Bytes) :
    d.meets (isAbsent key) = (d.value? key).isNone := by
  unfold value?
  cases hrow : d.rows.get? key with
  | none => simp [meets, isAbsent, number, hrow]
  | some row =>
    have hv := h.version hrow
    simp [meets, isAbsent, number, hrow]
    omega

theorem Sound.meets_isPresent (h : d.Sound) (key : Bytes) :
    d.meets (isPresent key) = (d.value? key).isSome := by
  unfold value?
  cases hrow : d.rows.get? key with
  | none => simp [meets, isPresent, number, hrow]
  | some row =>
    have hv := h.version hrow
    simp [meets, isPresent, number, hrow]
    omega

theorem Grows.value?_eq (h : d.Grows d') : d'.value? = d.value? := h.idle.changes.value?_eq

theorem transact_unmet {conditions : List Condition} (h : conditions.all d.meets = false)
    (ops : List Op) : d.transact conditions ops = (d, .ok ⟨false, []⟩) := by
  simp [transact, h]

theorem transact_met {conditions : List Condition} {ops : List Op} {replies : List OpReply}
    (h : conditions.all d.meets = true)
    (hp : d.performAll (d.revision + 1) ops = .ok (d', replies)) :
    d.transact conditions ops = (d', .ok ⟨true, replies⟩) := by
  simp [transact, h, hp]

theorem transact_put {c : Condition} {key v : Bytes} {value : Option Bytes} {lease : Option Int}
    (h : d.meets c = true) (hv : (value <|> d.value? key) = some v)
    (hl : ∀ l, lease = some l → l ∈ d.leases) (wantsPrevious : Bool) :
    d.transact [c] [.put key value lease wantsPrevious] =
      (d.stored (d.revision + 1) key (d.rowAfter (d.revision + 1) key v (lease.getD 0)),
        .ok ⟨true, [.put (if wantsPrevious then (d.rows.get? key).map Row.pair else none)]⟩) :=
  transact_met (by simpa using h) (performAll_cons (perform_put hv hl _ _) rfl)

end Data

/-- The lease that a put replaces is no key's afterwards. -/
theorem Data.Sound.free_replaced {d : Data} (h : d.Sound) {key : Bytes} {row new : Row}
    (hrow : d.rows.get? key = some row) (hz : row.lease ≠ 0) (hne : new.lease ≠ row.lease)
    (revision : Nat) : (d.stored revision key new).IsFree row.lease := by
  intro k r hr he
  rw [Data.get?_stored] at hr
  split at hr
  · cases hr
    exact hne he
  · next hk => exact hk (h.exclusive hrow hr hz he.symm).symm

/-- A put under the next revision, with the value of the write or with the one that is there. -/
theorem Wrote.stored {d : Data} {w : Write} {row : Row}
    (hsound : (d.stored (d.revision + 1) w.key row).Sound) (hr : row.modRevision = d.revision + 1)
    (hvalues : Contents.write d.value? (.put w.key row.value) = Contents.write d.value? w)
    (htouched : Contents.touched d.value? w = [w.key]) :
    Wrote d (d.stored (d.revision + 1) w.key row) [w] := by
  have htouches : Contents.touches d.value? [w] = [w.key] := by
    simp [Contents.touches, htouched]
  refine ⟨hsound, (d.value?_stored _ _ row).trans hvalues, ?_⟩
  rw [htouches]
  refine ⟨Nat.le_succ _, ?_, ?_⟩
  · intro key hkey
    rw [Data.get?_stored, if_neg (by simpa using hkey)]
  · intro key r hkey hrow
    obtain rfl : key = w.key := by simpa using hkey
    rw [Data.get?_stored, if_pos rfl] at hrow
    cases hrow
    omega

theorem Performed.wrote {leases : Table Bytes Int} {revision : Nat} {ws : List Write} {d d' : Data}
    {replies : List OpReply} (h : Performed leases revision ws d d' replies)
    (hr : d.revision < revision) : Wrote d d' ws := by
  refine ⟨h.sound, h.values, h.counter, h.same, ?_⟩
  intro key row hkey hrow
  rw [h.fresh hkey hrow]
  exact hr

/-- Whether the key that a connection watches is as it was, if it watches any. -/
def isWhole (watched : Option (Bytes × Int)) (d : Data) : Bool :=
  (watched.toList.map isUnchanged).all d.meets

theorem isWhole_congr {watched : Option (Bytes × Int)} {d d' : Data}
    (h : ∀ key, d'.rows.get? key = d.rows.get? key) : isWhole watched d' = isWhole watched d := by
  unfold isWhole
  rw [Data.meets_congr h]

variable {b : Behaviour} {s : Server}

namespace Brings

theorem setIfAbsent (hb : Steady b) (hs : s.data.Sound) (key value : Bytes) :
    Brings b s (setIfAbsent key value) fun d created =>
      created = (s.data.value? key).isNone ∧
      Wrote s.data d (if created then [.put key value] else []) := by
  have hsend : Brings b s
      (Etcd.insist (.txn [isAbsent key] [.put key (some value) none false])) fun d reply =>
        reply.succeeded = (s.data.value? key).isNone ∧
        Wrote s.data d (if reply.succeeded then [.put key value] else []) := by
    refine insist hb fun d hd => ?_
    have hsound := hs.grows hd
    have hmeets := hsound.meets_isAbsent key
    rw [hd.value?_eq] at hmeets
    simp only [Data.execute]
    cases habsent : (s.data.value? key).isNone with
    | false =>
      rw [habsent] at hmeets
      rw [Data.transact_unmet (by simpa using hmeets)]
      exact ⟨_, rfl, rfl, .idle hsound hd.idle.changes⟩
    | true =>
      rw [habsent] at hmeets
      rw [Data.transact_put (v := value) hmeets rfl (by simp)]
      have hstored : (d.stored (d.revision + 1) key
          (d.rowAfter (d.revision + 1) key value 0)).Sound :=
        hsound.stored (Nat.succ_pos _) (Nat.le_succ _) (Nat.succ_pos _) (.inl rfl)
          fun _ _ _ _ hz => absurd rfl hz
      exact ⟨_, rfl, rfl, .idle_trans hd.idle.changes
        (.stored (w := .put key value) hstored rfl rfl rfl)⟩
  exact hsend.bind fun h => pure h

theorem get (hb : Steady b) (hs : s.data.Sound) (key : Bytes) :
    Brings b s (Etcd.get key) fun d value =>
      value = s.data.value? key ∧ Wrote s.data d [] := by
  have hsend : Brings b s (Etcd.insist (.range key)) fun d (pairs : List Pair) =>
      pairs.head?.map Pair.value = s.data.value? key ∧ Wrote s.data d [] := by
    refine insist hb fun d hd => ⟨_, rfl, ?_, .idle (hs.grows hd) hd.idle.changes⟩
    rw [← hd.value?_eq]
    unfold Data.value?
    cases d.rows.get? key <;> rfl
  exact hsend.bind fun h => pure h

theorem watch (hb : Steady b) (hs : s.data.Sound) (key : Bytes) :
    Brings b s (Etcd.watch key) fun d c =>
      c = ⟨some (key, s.data.number key .modRevision)⟩ ∧ Wrote s.data d [] := by
  have hsend : Brings b s (Etcd.insist (.range key)) fun d (pairs : List Pair) =>
      (pairs.head?.map Pair.modRevision).getD 0 = (s.data.number key .modRevision : Int) ∧
        Wrote s.data d [] := by
    refine insist hb fun d hd => ⟨_, rfl, ?_, .idle (hs.grows hd) hd.idle.changes⟩
    rw [← Data.number_congr (hd.idle.changes.get?_eq key)]
    unfold Data.number
    cases d.rows.get? key <;> rfl
  exact hsend.bind fun h => pure ⟨by rw [h.1], h.2⟩

/-- The transaction of an expiry: it carries the lease if the key is there, and no key does if not. -/
theorem runTxn_expire (hb : Steady b) (hs : s.data.Sound) (key : Bytes) (seconds : Nat) {lease : Int}
    (hmem : lease ∈ s.data.leases) (hfree : s.data.IsFree lease) :
    Brings b s (runTxn [isPresent key] [.put key none (some lease) true] [lease])
      fun d reply => reply.succeeded = (s.data.value? key).isSome ∧
        Wrote s.data d (if reply.succeeded then [.expire key seconds] else []) ∧
        (∀ old ∈ superseded reply.replies [lease], d.IsFree old) ∧
        (reply.succeeded = false → d.IsFree lease) := by
  refine tryCatch (insist hb fun d hd => ?_) _
  have hsound := hs.grows hd
  have hmeets := hsound.meets_isPresent key
  rw [hd.value?_eq] at hmeets
  have hfreed : d.IsFree lease := hfree.same hd.idle.changes
  simp only [Data.execute]
  cases hvalue : s.data.value? key with
  | none =>
    rw [hvalue] at hmeets
    rw [Data.transact_unmet (by simpa using hmeets)]
    exact ⟨_, rfl, rfl, .idle hsound hd.idle.changes,
      fun old ho => absurd ho List.not_mem_nil, fun _ => hfreed⟩
  | some value =>
    rw [hvalue] at hmeets
    have hthere : d.value? key = some value := hd.value?_eq ▸ hvalue
    have hgranted : ∀ l, some lease = some l → l ∈ d.leases := by
      rintro l ⟨⟩
      rwa [hd.leases]
    rw [Data.transact_put hmeets (v := value) hthere hgranted]
    obtain ⟨row, hrow, rfl⟩ := Option.map_eq_some_iff.mp hthere
    have hstored : (d.stored (d.revision + 1) key
        (d.rowAfter (d.revision + 1) key row.value lease)).Sound :=
      hsound.stored (Nat.succ_pos _) (Nat.le_succ _) (Nat.succ_pos _) (.inr (hgranted _ rfl))
        fun k r hr he _ => absurd he (hfreed k r hr)
    refine ⟨_, rfl, rfl, .idle_trans hd.idle.changes
      (.stored (w := .expire key seconds) hstored rfl ?_ ?_), ?_, by simp⟩
    · simp only [Contents.write]
      exact Function.update_eq_self_iff.mpr hthere.symm
    · simp [Contents.touched, hthere, Write.key]
    · intro old ho
      obtain ⟨hold, hz, hne⟩ := mem_superseded.mp ho
      obtain rfl : old = row.lease := by simpa [hrow, replaced, Row.pair] using hold
      exact hsound.free_replaced hrow hz (fun he => hne (he ▸ List.mem_singleton_self _)) _

/-- Leases that no key carries are given back after the writes, which does not show. -/
theorem revoke_after (hb : Steady b) {d : Data} {ws : List Write} (hw : Wrote d s.data ws)
    {leases : List Int} (hfree : ∀ lease ∈ leases, s.data.IsFree lease) (a : α) :
    Brings b s (Etcd.revoke leases >>= fun _ => Pure.pure a) fun d' a' =>
      a' = a ∧ Wrote d d' ws :=
  (revoke hb hw.sound fun lease hl _ => hfree lease hl).bind fun h =>
    pure ⟨rfl, hw.trans_idle h.1 h.2⟩

theorem expire (hb : Steady b) (hs : s.data.Sound) (key : Bytes) (seconds : Nat) :
    Brings b s (Etcd.expire key seconds) fun d applied =>
      applied = (s.data.value? key).isSome ∧
      Wrote s.data d (if applied then [.expire key seconds] else []) := by
  refine (grant hb hs seconds).bind ?_
  intro s₁ lease hgrant
  obtain ⟨hs₁, hidle, hmem, hnew, hfree⟩ := hgrant
  refine (runTxn_expire hb hs₁ key seconds hmem hfree).bind ?_
  intro s₂ reply h₂
  obtain ⟨hsucceeded, hwrote, hold, hlease⟩ := h₂
  rw [hidle.changes.value?_eq] at hsucceeded
  have hwrote' := Wrote.idle_trans hidle.changes hwrote
  cases hr : reply.succeeded with
  | true =>
    rw [hr] at hsucceeded hwrote'
    refine (revoke_after hb hwrote' hold true).mono ?_
    rintro d _ ⟨rfl, h⟩
    exact ⟨hsucceeded, h⟩
  | false =>
    rw [hr] at hsucceeded hwrote'
    have hback : ∀ old ∈ [lease], s₂.data.IsFree old := by
      intro old ho
      exact List.mem_singleton.mp ho ▸ hlease hr
    refine (revoke_after hb hwrote' hback false).mono ?_
    rintro d _ ⟨rfl, h⟩
    exact ⟨hsucceeded, h⟩

/-- The transaction of orderly writes: it runs just if the watched key is as it was. -/
theorem runTxn_exec (hb : Steady b) (watched : Option (Bytes × Int)) {ws : List Write}
    (ho : orderly [] [] ws = true) {leases : Table Bytes Int} (hgranted : Granted leases s.data) :
    Brings b s (runTxn (watched.toList.map isUnchanged) (ws.filterMap (opOf? leases))
      (leases.map Prod.snd)) fun d reply =>
        reply.succeeded = isWhole watched s.data ∧
        Wrote s.data d (if reply.succeeded then ws else []) ∧
        (reply.succeeded = true →
          effectsOf ws reply.replies = .ok (Contents.effects s.data.value? ws) ∧
          ∀ old ∈ superseded reply.replies (leases.map Prod.snd), d.IsFree old) ∧
        (reply.succeeded = false → ∀ lease ∈ leases.map Prod.snd, d.IsFree lease) := by
  refine tryCatch (insist hb fun d hd => ?_) _
  have hmeets : isWhole watched d = isWhole watched s.data :=
    isWhole_congr hd.idle.changes.get?_eq
  simp only [Data.execute]
  cases hcase : isWhole watched s.data with
  | false =>
    rw [hcase] at hmeets
    rw [Data.transact_unmet hmeets]
    refine ⟨_, rfl, rfl, .idle (hgranted.sound.grows hd) hd.idle.changes, by simp, ?_⟩
    intro _ lease hl
    obtain ⟨p, hp, rfl⟩ := List.mem_map.mp hl
    exact (hgranted.free p hp).same hd.idle.changes
  | true =>
    rw [hcase] at hmeets
    obtain ⟨d', replies, hperform, hdone⟩ := performAll_orderly (hgranted.ready hd) ho
    rw [Data.transact_met hmeets hperform]
    refine ⟨_, rfl, rfl, .idle_trans hd.idle.changes (hdone.wrote (Nat.lt_succ_self _)), ?_,
      by simp⟩
    intro _
    refine ⟨hd.value?_eq ▸ hdone.effects, ?_⟩
    intro old hold
    obtain ⟨hmem, hz, hne⟩ := mem_superseded.mp hold
    exact hdone.frees hz hne hmem

theorem exec (hb : Steady b) (hs : s.data.Sound) (watched : Option (Bytes × Int))
    {ws : List Write} (ho : orderly [] [] ws = true) :
    Brings b s (Etcd.exec watched ws) fun d effects =>
      effects = (if isWhole watched s.data then some (Contents.effects s.data.value? ws) else none) ∧
      Wrote s.data d (if isWhole watched s.data then ws else []) := by
  refine (grantLeases hb ho (.none hs)).bind ?_
  intro s₁ leases hgrants
  obtain ⟨hgranted, hidle⟩ := hgrants
  refine (runTxn_exec hb watched ho hgranted).bind ?_
  intro s₂ reply h₂
  obtain ⟨hsucceeded, hwrote, hcommits, haborts⟩ := h₂
  rw [isWhole_congr hidle.changes.get?_eq] at hsucceeded
  rw [← hsucceeded]
  have hwrote' := Wrote.idle_trans hidle.changes hwrote
  cases hr : reply.succeeded with
  | true =>
    rw [hr] at hwrote'
    obtain ⟨heffects, hold⟩ := hcommits hr
    rw [heffects, hidle.changes.value?_eq]
    exact revoke_after hb hwrote' hold _
  | false =>
    rw [hr] at hwrote'
    exact revoke_after hb hwrote' (haborts hr) none

theorem ping (hb : Steady b) (hs : s.data.Sound) :
    Brings b s (discard (ask .status)) fun d _ => Wrote s.data d [] := by
  obtain ⟨hdata, hanswer⟩ := serve_of_steady hb s .status
  have hd := hb.grows s .status
  have hask : Exchange.run (serve b) s (ask .status).run = ((serve b s .status).1, 0, .ok ()) := by
    refine (Exchange.run_bind (serve b) (Exchange.ask .status) _ s).trans ?_
    simp only [Exchange.ask, ExceptT.stM_eq, Exchange.run, hanswer]
    rfl
  refine ⟨(serve b s .status).1, 0, (), ?_, hdata ▸ .idle (hs.grows hd) hd.idle.changes⟩
  refine (Exchange.run_bind (serve b) (ask .status).run _ s).trans ?_
  rw [hask]
  rfl

theorem same {t : Talk Reply} {Q : Data → Reply → Prop} (h : Brings b s t Q) (c : Connection) :
    ∃ s' ms a, (c.same t).run (serve b) s = (s', ms, c, .ok a) ∧ Q s'.data a := by
  obtain ⟨s', ms, a, hrun, hq⟩ := h
  refine ⟨s', ms, a, (Exchange.run_bind (serve b) t.run _ s).trans ?_, hq⟩
  rw [hrun]
  rfl

end Brings

/-- What a connection watches after a call. -/
def Connection.after (c : Connection) (d : Data) : Call → Connection
  | .watch key => ⟨some (key, d.number key .modRevision)⟩
  | .unwatch | .exec _ => {}
  | .setIfAbsent .. | .get _ | .expire .. | .ping => c

/-- A call to a steady server answers, writes and touches what it says. -/
theorem call_steady (hb : Steady b) (hs : s.data.Sound) (c : Connection) {r : Call}
    (hr : r.isOrderly = true) {reply : Reply}
    (hreply : reply = Contents.reply s.data.value? (isWhole c.watched s.data) r) :
    ∃ s' ms, (c.call r).run (serve b) s = (s', ms, c.after s.data r, .ok reply) ∧
      Wrote s.data s'.data (Memory.written r (.now (.ok reply))) := by
  have hsame : ∀ {t : Talk Reply} {c' : Connection}, Brings b s t (fun d a =>
        a = reply ∧ Wrote s.data d (Memory.written r (.now (.ok reply)))) →
      ∃ s' ms, (c'.same t).run (serve b) s = (s', ms, c', .ok reply) ∧
        Wrote s.data s'.data (Memory.written r (.now (.ok reply))) := by
    intro t c' h
    obtain ⟨s', ms, a, hrun, rfl, hwrote⟩ := h.same c'
    exact ⟨s', ms, hrun, hwrote⟩
  subst hreply
  cases r with
  | setIfAbsent key value =>
    refine hsame ((Brings.setIfAbsent hb hs key value).bind ?_)
    intro s' created h
    obtain ⟨rfl, hwrote⟩ := h
    refine .pure ⟨rfl, ?_⟩
    simp only [Contents.reply]
    cases hc : (s.data.value? key).isNone <;> (rw [hc] at hwrote; exact hwrote)
  | get key =>
    refine hsame ((Brings.get hb hs key).bind ?_)
    intro s' value h
    exact .pure ⟨by rw [h.1]; rfl, h.2⟩
  | expire key seconds =>
    refine hsame ((Brings.expire hb hs key seconds).bind ?_)
    intro s' applied h
    obtain ⟨rfl, hwrote⟩ := h
    refine .pure ⟨rfl, ?_⟩
    simp only [Contents.reply]
    cases hc : (s.data.value? key).isSome <;> (rw [hc] at hwrote; exact hwrote)
  | watch key =>
    obtain ⟨s', ms, c', hrun, rfl, hwrote⟩ := Brings.watch hb hs key
    refine ⟨s', ms, (Exchange.run_bind (serve b) (Etcd.watch key).run _ s).trans ?_, hwrote⟩
    rw [hrun]
    rfl
  | unwatch => exact ⟨s, 0, rfl, .idle hs (.refl _)⟩
  | exec writes =>
    refine hsame ((Brings.exec hb hs c.watched hr).bind ?_)
    intro s' effects h
    obtain ⟨rfl, hwrote⟩ := h
    refine .pure ⟨rfl, ?_⟩
    simp only [Contents.reply]
    cases hc : isWhole c.watched s.data <;> (rw [hc] at hwrote; exact hwrote)
  | ping =>
    refine hsame ((Brings.ping hb hs).bind ?_)
    intro s' _ h
    exact .pure ⟨rfl, h⟩

end Holdfast.Etcd
