import Holdfast.Proofs.Etcd.Transaction

namespace Holdfast.Etcd

open Exchange Store

/-- A server that executes and answers every request; between two requests nothing but its counters
goes up. -/
structure Steady (b : Behaviour) : Prop where
  answered : ∀ s r, (b s r).2 = .answered
  grows : ∀ (s : Server) r, s.data.Grows (b s r).1

/-- A conversation with the server ends well, and with data and a result of this kind. -/
def Brings (b : Behaviour) (s : Server) (t : Talk α) (Q : Data → α → Prop) : Prop :=
  ∃ s' ms a, Exchange.run (serve b) s t.run = (s', ms, .ok a) ∧ Q s'.data a

variable {b : Behaviour} {s : Server}

theorem serve_of_steady (hb : Steady b) (s : Server) (r : Request) :
    (serve b s r).1.data = ((b s r).1.execute r).1 ∧
    (serve b s r).2 = ((b s r).1.execute r).2 := by
  have ha := hb.answered s r
  constructor
  · simp only [serve, Event.left, ha]
  · simp only [serve, Event.answer, ha]

/-- A request that does not fail, or fails for good, is sent once. -/
theorem run_insist (b : Behaviour) (s : Server) (r : Request)
    (hf : ∀ f, (serve b s r).2 = .error f → f.isTransient = false) :
    Exchange.run (serve b) s (insist r).run =
      ((serve b s r).1, 0, (serve b s r).2.mapError Failure.etcd) := by
  refine (Exchange.run_bind (serve b) _ _ s).trans ?_
  have hsend : (retrying Fault.isTransient Exchange.rest (Exchange.ask r) defaultDelays).run
      (serve b) s = ((serve b s r).1, 0, (serve b s r).2) := by
    refine (Exchange.run_bind (serve b) _ _ s).trans ?_
    cases ha : (serve b s r).2 with
    | ok a =>
      simp only [Exchange.ask, ExceptT.stM_eq, Exchange.run, ha, Nat.zero_add, Prod.mk.injEq]
      exact ⟨rfl, rfl, rfl⟩
    | error f =>
      simp only [Exchange.ask, ExceptT.stM_eq, Exchange.run, ha, hf f ha, Bool.false_eq_true,
        if_false, Nat.zero_add, Prod.mk.injEq]
      exact ⟨rfl, rfl, rfl⟩
  rw [hsend]
  rfl

namespace Brings

theorem pure {a : α} {Q : Data → α → Prop} (h : Q s.data a) :
    Brings b s (Pure.pure a : Talk α) Q := ⟨s, 0, a, rfl, h⟩

theorem mono {t : Talk α} {P Q : Data → α → Prop} (h : Brings b s t P)
    (hpq : ∀ {d a}, P d a → Q d a) : Brings b s t Q := by
  obtain ⟨s', ms, a, hrun, hp⟩ := h
  exact ⟨s', ms, a, hrun, hpq hp⟩

theorem bind {x : Talk α} {f : α → Talk β} {P : Data → α → Prop} {Q : Data → β → Prop}
    (h : Brings b s x P) (hf : ∀ {s' : Server} {a}, P s'.data a → Brings b s' (f a) Q) :
    Brings b s (x >>= f) Q := by
  obtain ⟨s₁, ms₁, a, hx, hp⟩ := h
  obtain ⟨s₂, ms₂, c, hfx, hq⟩ := hf hp
  refine ⟨s₂, ms₁ + ms₂, c, ?_, hq⟩
  rw [ExceptT.run_bind, Exchange.run_bind, hx]
  dsimp only
  rw [hfx]

theorem tryCatch {t : Talk α} {Q : Data → α → Prop} (h : Brings b s t Q)
    (handle : Failure → Talk α) : Brings b s (tryCatch t handle) Q := by
  obtain ⟨s', ms, a, hrun, hq⟩ := h
  refine ⟨s', ms, a, ?_, hq⟩
  refine (Exchange.run_bind (serve b) t.run _ s).trans ?_
  rw [hrun]
  rfl

/-- A request that the data do not refuse comes to what they make of it. -/
theorem insist (hb : Steady b) {r : Request} {Q : Data → r.Reply → Prop}
    (h : ∀ d, s.data.Grows d → ∃ a, (d.execute r).2 = .ok a ∧ Q (d.execute r).1 a) :
    Brings b s (insist r) Q := by
  obtain ⟨hdata, hanswer⟩ := serve_of_steady hb s r
  obtain ⟨a, ha, hq⟩ := h _ (hb.grows s r)
  rw [ha] at hanswer
  refine ⟨(serve b s r).1, 0, a, ?_, hdata ▸ hq⟩
  rw [run_insist b s r, hanswer]
  · rfl
  · intro f hf
    rw [hanswer] at hf
    cases hf

theorem grant (hb : Steady b) (hs : s.data.Sound) (seconds : Nat) :
    Brings b s (grant seconds) fun d lease =>
      d.Sound ∧ Data.Idle s.data d ∧ lease ∈ d.leases ∧ lease ∉ s.data.leases ∧ d.IsFree lease := by
  refine insist hb fun d hd => ?_
  obtain ⟨hsound, hidle, hmem, hnew, hfree⟩ := (hs.grows hd).grant (min seconds maxTtl)
  exact ⟨d.nextLease, rfl, hsound, hd.idle.trans hidle, hmem, hd.leases ▸ hnew,
    hfree.same hidle.changes⟩

/-- Whatever becomes of the request, the lease is no matter any more. -/
theorem giveBack (hb : Steady b) (hs : s.data.Sound) {lease : Int} (hfree : s.data.IsFree lease) :
    Brings b s (MonadExcept.tryCatch (Etcd.insist (.revoke lease)) fun _ => Pure.pure ())
      fun d _ => d.Sound ∧ Data.Changes s.data d [] := by
  obtain ⟨hdata, hanswer⟩ := serve_of_steady hb s (.revoke lease)
  have hd := hb.grows s (.revoke lease)
  obtain ⟨hsound, hchanges⟩ := (hs.grows hd).revoke (hfree.same hd.idle.changes)
  have hfor : ∀ f, (serve b s (.revoke lease)).2 = .error f → f.isTransient = false := by
    intro f hf
    rw [hanswer] at hf
    simp only [Data.execute, Data.revoke] at hf
    split at hf
    · cases hf
    · cases hf
      rfl
  refine ⟨(serve b s (.revoke lease)).1, 0, (), ?_, ?_⟩
  · refine (Exchange.run_bind (serve b) (Etcd.insist (.revoke lease)).run _ s).trans ?_
    rw [run_insist b s _ hfor]
    cases (serve b s (.revoke lease)).2 <;> rfl
  · rw [hdata]
    exact ⟨hsound, hd.idle.changes.trans_idle hchanges⟩

theorem revoke (hb : Steady b) (hs : s.data.Sound) {leases : List Int}
    (hfree : ∀ lease ∈ leases, lease ≠ 0 → s.data.IsFree lease) :
    Brings b s (revoke leases) fun d _ => d.Sound ∧ Data.Changes s.data d [] := by
  induction leases generalizing s with
  | nil => exact pure ⟨hs, .refl _⟩
  | cons lease leases ih =>
    have hothers : ∀ other ∈ leases, other ≠ 0 → s.data.IsFree other :=
      fun other ho => hfree other (List.mem_cons_of_mem _ ho)
    by_cases hz : lease = 0
    · simpa [Etcd.revoke, hz] using ih hs hothers
    · simp only [Etcd.revoke, hz, ne_eq, not_false_eq_true, if_true]
      refine (giveBack hb hs (hfree lease List.mem_cons_self hz)).bind ?_
      intro s₁ _ h₁
      have hrest := ih h₁.1 fun other ho hne => (hothers other ho hne).same h₁.2
      exact hrest.mono fun h₂ => ⟨h₂.1, h₁.2.trans_idle h₂.2⟩

end Brings

/-- Leases that were granted for keys and that no key carries yet. -/
structure Granted (leases : Table Bytes Int) (d : Data) : Prop where
  sound : d.Sound
  nodup : (leases.map Prod.fst).Nodup
  granted : ∀ p ∈ leases, p.2 ∈ d.leases
  free : ∀ p ∈ leases, d.IsFree p.2
  distinct : ∀ p ∈ leases, ∀ q ∈ leases, p.2 = q.2 → p.1 = q.1

namespace Granted

variable {leases : Table Bytes Int} {d d' : Data}

theorem none (hs : d.Sound) : Granted [] d :=
  ⟨hs, List.nodup_nil, fun _ h => absurd h List.not_mem_nil, fun _ h => absurd h List.not_mem_nil,
    fun _ h => absurd h List.not_mem_nil⟩

theorem set (h : Granted leases d) (hs : d'.Sound) (hi : Data.Idle d d') {lease : Int}
    (hmem : lease ∈ d'.leases) (hnew : lease ∉ d.leases) (hfree : d'.IsFree lease) (key : Bytes) :
    Granted (leases.set key lease) d' := by
  refine ⟨hs, Table.nodup_set h.nodup key lease, ?_, ?_, ?_⟩
  · intro p hp
    rcases Table.mem_set h.nodup hp with rfl | ⟨hold, -⟩
    · exact hmem
    · exact hi.leases _ (h.granted p hold)
  · intro p hp
    rcases Table.mem_set h.nodup hp with rfl | ⟨hold, -⟩
    · exact hfree
    · exact (h.free p hold).same hi.changes
  · intro p hp q hq he
    rcases Table.mem_set h.nodup hp with rfl | ⟨hp, -⟩
    · rcases Table.mem_set h.nodup hq with rfl | ⟨hq, -⟩
      · rfl
      · have heq : q.2 = lease := he.symm
        exact absurd (heq ▸ h.granted q hq) hnew
    · rcases Table.mem_set h.nodup hq with rfl | ⟨hq, -⟩
      · have heq : p.2 = lease := he
        exact absurd (heq ▸ h.granted p hp) hnew
      · exact h.distinct p hp q hq he

theorem ready (h : Granted leases d) (hg : d.Grows d') :
    Ready leases (d'.revision + 1) [] d' := by
  refine ⟨h.sound.grows hg, Nat.le_succ _, Nat.succ_pos _, ?_, ?_, ?_, h.distinct⟩
  · exact fun _ hk => absurd hk List.not_mem_nil
  · exact fun p hp => hg.idle.leases _ (h.granted p hp)
  · intro p hp key row hrow he
    exact absurd he ((h.free p hp).same hg.idle.changes key row hrow)

end Granted

/-- One lease is granted for each expiry of orderly writes. -/
theorem Brings.grantLeases (hb : Steady b) {put deleted : List Bytes} {leases : Table Bytes Int}
    {ws : List Write} (ho : orderly put deleted ws = true) (h : Granted leases s.data) :
    Brings b s (grantLeases put leases ws) fun d leases =>
      Granted leases d ∧ Data.Idle s.data d := by
  induction ws generalizing s put deleted leases with
  | nil => exact .pure ⟨h, .refl _⟩
  | cons w ws ih =>
    cases w with
    | put key value => exact ih (orderly_put.mp ho).2.2 h
    | delete key => exact ih (orderly_delete.mp ho).2.2 h
    | expire key seconds =>
      obtain ⟨hput, -, hrest⟩ := orderly_expire.mp ho
      simp only [Etcd.grantLeases, hput, not_true_eq_false, if_false]
      refine (grant hb h.sound seconds).bind ?_
      intro s₁ lease h₁
      obtain ⟨hs, hi, hmem, hnew, hfree⟩ := h₁
      exact (ih hrest (h.set hs hi hmem hnew hfree key)).mono fun h₂ => ⟨h₂.1, hi.trans h₂.2⟩

/-- Writes and nothing else have been carried out. -/
structure Wrote (d d' : Data) (ws : List Write) : Prop where
  sound : d'.Sound
  values : d'.value? = Contents.writeAll d.value? ws
  changes : Data.Changes d d' (Contents.touches d.value? ws)

namespace Wrote

variable {d d₁ d₂ : Data} {ws : List Write}

theorem idle (hs : d₁.Sound) (hc : Data.Changes d d₁ []) : Wrote d d₁ [] :=
  ⟨hs, hc.value?_eq, hc⟩

theorem trans_idle (h : Wrote d d₁ ws) (hs : d₂.Sound) (hc : Data.Changes d₁ d₂ []) :
    Wrote d d₂ ws :=
  ⟨hs, hc.value?_eq.trans h.values, h.changes.trans_idle hc⟩

theorem idle_trans (hc : Data.Changes d d₁ []) (h : Wrote d₁ d₂ ws) : Wrote d d₂ ws := by
  refine ⟨h.sound, ?_, ?_⟩
  · rw [h.values, hc.value?_eq]
  · have hchanges := hc.trans h.changes
    rwa [List.nil_append, hc.value?_eq] at hchanges

end Wrote

end Holdfast.Etcd
