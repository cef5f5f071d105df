import Holdfast.Proofs.Contention.Deed

namespace Holdfast.Contention

open Store Lock Memory

/-- Whose part in the lock's history an event is, where it writes or ends an attempt. -/
def Event.actor? : Event → Option Nat
  | created id _ | seized id _ _ _ _ | returned id _ => some id
  | _ => none

/-- What holds of a party between two of its calls. -/
structure Party.Sound (w : World) (id : Nat) (p : Party) : Prop where
  active : p.talk.call? ≠ none
  about : p.talk.About w.key
  flag : p.loan.isWatching = p.talk.isWatching
  watch : Watch w.key w.server.node w.now p.talk p.loan.conn
  told : Told w.inherited id w.history p.talk
  stale : ∀ a t seen, p.talk = .attempt a → a.phase = .seizing t seen →
    isStale seen (UInt64.ofNat p.heardAt) = true
  heard : p.heardAt ≤ w.clock
  reading : ∀ k, p.reading = some k → p.talk.call? = some (.get k)

/-- What holds between two moves, where `start` stood under the key at first. -/
structure World.Sound (start : Option Bytes) (w : World) : Prop where
  bounded : w.server.node.Bounded
  origin : ∀ b, start = some b → b ∈ w.inherited
  trace : Trace w.inherited start w.history w.stored
  parties : ∀ id p, w.parties.get? id = some p → p.Sound w id
  drawn : ∀ id p t, w.parties.get? id = some p → p.talk.unsent? = some t → .drew id t ∈ w.history
  idle : ∀ c ∈ w.idle, c.watched = []
  handles : ∀ h ∈ w.handles, Known w.inherited h w.history
  ids : ∀ id p, w.parties.get? id = some p → id < w.nextId
  past : ∀ e ∈ w.history, ∀ id, e.actor? = some id → id < w.nextId
  judged : ∀ id t seen judged u, .seized id t seen judged u ∈ w.history → judged ≤ w.clock

/-- A change that adds events to the history and takes nothing back. -/
structure World.Grows (w w' : World) (new : List Event) : Prop where
  name : w'.name = w.name
  inherited : w'.inherited = w.inherited
  later : Later w.key w.server.node w.now w'.server.node w'.now
  clock : w.clock ≤ w'.clock
  ids : w.nextId ≤ w'.nextId
  history : w'.history = new ++ w.history

theorem Known.append {old : List Bytes} {h : Handle} {es : List Event} (hk : Known old h es)
    (new : List Event) : Known old h (new ++ es) := by
  rcases hk with ho | ⟨id, hr⟩
  · exact .inl ho
  · exact .inr ⟨id, List.mem_append_right new hr⟩

theorem Told.append {old : List Bytes} {id : Nat} {es : List Event} {talk : Talk}
    (h : Told old id es talk) {new : List Event} (hn : ∀ e ∈ new, e.actor? ≠ some id) :
    Told old id (new ++ es) talk := by
  refine ⟨?_, ?_, ?_, ?_⟩
  · intro r hr
    rcases List.mem_append.mp hr with hr | hr
    · exact hn _ hr rfl
    · exact h.present r hr
  · intro t
    rw [← h.created t, List.mem_append]
    exact or_iff_right (fun hc => hn _ hc rfl)
  · intro t seen judged u hz
    rcases List.mem_append.mp hz with hz | hz
    · exact hn _ hz rfl
    · exact h.seized t seen judged u hz
  · intro r hr
    exact (h.known r hr).append new

/-- A party is none the worse for what goes on around it. -/
theorem Party.Sound.grow {w w' : World} {id : Nat} {p : Party} (h : p.Sound w id)
    {new : List Event} (g : w.Grows w' new) (hn : ∀ e ∈ new, e.actor? ≠ some id) :
    p.Sound w' id := by
  have hkey : w'.key = w.key := by unfold World.key; rw [g.name]
  refine ⟨h.active, ?_, h.flag, ?_, ?_, h.stale, Nat.le_trans h.heard g.clock, h.reading⟩
  · rw [hkey]; exact h.about
  · rw [hkey]; exact h.watch.later g.later
  · rw [g.inherited, g.history]; exact h.told.append hn

/-- A change keeps the world in order if all that is new in it is. -/
theorem World.Sound.grow {start : Option Bytes} {w w' : World} (h : w.Sound start)
    (new : List Event) (g : w.Grows w' new) (hb : w'.server.node.Bounded)
    (ht : Trace w'.inherited start w'.history w'.stored)
    (hp : ∀ id p, w'.parties.get? id = some p →
      (w.parties.get? id = some p ∧ ∀ e ∈ new, e.actor? ≠ some id) ∨
      (p.Sound w' id ∧ id < w'.nextId ∧ ∀ t, p.talk.unsent? = some t → .drew id t ∈ w'.history))
    (hi : ∀ c ∈ w'.idle, c ∈ w.idle ∨ c.watched = [])
    (hh : ∀ hd ∈ w'.handles, hd ∈ w.handles ∨ Known w'.inherited hd w'.history)
    (hn : ∀ e ∈ new, ∀ id, e.actor? = some id → id < w'.nextId)
    (hj : ∀ id t seen judged u, .seized id t seen judged u ∈ new → judged ≤ w'.clock) :
    w'.Sound start := by
  refine ⟨hb, ?_, ht, ?_, ?_, ?_, ?_, ?_, ?_, ?_⟩
  · rw [g.inherited]; exact h.origin
  · intro id p hget
    rcases hp id p hget with ⟨hold, hne⟩ | ⟨hs, -⟩
    · exact (h.parties id p hold).grow g hne
    · exact hs
  · intro id p t hget hu
    rcases hp id p hget with ⟨hold, -⟩ | ⟨-, -, hd⟩
    · rw [g.history]
      exact List.mem_append_right new (h.drawn id p t hold hu)
    · exact hd t hu
  · intro c hc
    rcases hi c hc with hc | hc
    · exact h.idle c hc
    · exact hc
  · intro hd hmem
    rcases hh hd hmem with hmem | hk
    · rw [g.inherited, g.history]
      exact (h.handles hd hmem).append new
    · exact hk
  · intro id p hget
    rcases hp id p hget with ⟨hold, -⟩ | ⟨-, hlt, -⟩
    · exact Nat.lt_of_lt_of_le (h.ids id p hold) g.ids
    · exact hlt
  · intro e he id ha
    rw [g.history] at he
    rcases List.mem_append.mp he with he | he
    · exact hn e he id ha
    · exact Nat.lt_of_lt_of_le (h.past e he id ha) g.ids
  · intro id t seen judged u hz
    rw [g.history] at hz
    rcases List.mem_append.mp hz with hz | hz
    · exact hj id t seen judged u hz
    · exact Nat.le_trans (h.judged id t seen judged u hz) g.clock

section
variable (w : World) (l : Loan Connection)

@[simp] theorem World.restore_history : (w.restore l).history = w.history := by
  unfold restore; split <;> rfl

@[simp] theorem World.restore_name : (w.restore l).name = w.name := by
  unfold restore; split <;> rfl

@[simp] theorem World.restore_server : (w.restore l).server = w.server := by
  unfold restore; split <;> rfl

@[simp] theorem World.restore_now : (w.restore l).now = w.now := by
  unfold restore; split <;> rfl

@[simp] theorem World.restore_stored : (w.restore l).stored = w.stored := by
  unfold restore; split <;> rfl

@[simp] theorem World.restore_parties : (w.restore l).parties = w.parties := by
  unfold restore; split <;> rfl

@[simp] theorem World.restore_nextId : (w.restore l).nextId = w.nextId := by
  unfold restore; split <;> rfl

end

namespace World.Sound

variable {start : Option Bytes} {w w' : World}

theorem pass (h : w.Sound start) (new : List Event) (g : w.Grows w' new)
    (hb : w'.server.node.Bounded) (ht : Trace w'.inherited start w'.history w'.stored)
    (hn : ∀ e ∈ new, e.actor? = none) (hp : w'.parties = w.parties) (hi : w'.idle = w.idle)
    (hh : w'.handles = w.handles) : w'.Sound start := by
  refine h.grow new g hb ht ?_ ?_ ?_ ?_ ?_
  · intro id p hget
    rw [hp] at hget
    exact .inl ⟨hget, fun e he => by simp [hn e he]⟩
  · intro c hc
    rw [hi] at hc
    exact .inl hc
  · intro hd hmem
    rw [hh] at hmem
    exact .inl hmem
  · intro e he id ha
    rw [hn e he] at ha
    cases ha
  · intro id t seen judged u hz
    exact absurd (hn _ hz) (by simp [Event.actor?])

theorem tick (h : w.Sound start) (ms : Nat) :
    ({ w with clock := w.clock + ms } : World).Sound start :=
  h.pass [] ⟨rfl, rfl, .refl .., Nat.le_add_right .., Nat.le_refl _, rfl⟩ h.bounded
    h.trace (by simp) rfl rfl rfl

theorem reach (h : w.Sound start) (up : Bool) :
    ({ w with server := w.server.setUp up } : World).Sound start :=
  h.pass [] ⟨rfl, rfl, .refl .., Nat.le_refl _, Nat.le_refl _, rfl⟩ h.bounded
    h.trace (by simp) rfl rfl rfl

theorem elsewhere (h : w.Sound start) (c : Connection) {request : Call}
    (hs : request.spares w.key = true) :
    ({ w with server := (c.call w.server w.now request).2.1 } : World).Sound start := by
  refine h.pass []
    ⟨rfl, rfl, Connection.call_later .., Nat.le_refl _, Nat.le_refl _, rfl⟩
    (Connection.call_bounded h.bounded c w.now request) ?_ (by simp) rfl rfl rfl
  have hsame := Connection.call_spares hs c w.server w.now
  have ht := h.trace
  unfold World.stored World.key at *
  rw [hsame]
  exact ht

theorem age (h : w.Sound start) (ms : Nat) : (w.age ms).Sound start := by
  have hle : w.now ≤ w.now + ms := Nat.le_add_right ..
  have hlater := Later.wait w.key w.server.node hle
  have hwait : ({ w with now := w.now + ms } : World).stored = w.stored ∨
      ({ w with now := w.now + ms } : World).stored = none :=
    w.server.node.value?_wait hle w.key
  simp only [World.age]
  split
  · next value hv hgone =>
    refine h.pass [.lapsed value]
      ⟨rfl, rfl, hlater, Nat.le_refl _, Nat.le_refl _, rfl⟩ h.bounded ?_ ?_ rfl rfl rfl
    · have ht := h.trace.next (.lapsed hv)
      rw [← hgone] at ht
      exact ht
    · intro e he
      obtain rfl := List.mem_singleton.mp he
      rfl
  · next hstays =>
    have hsame : ({ w with now := w.now + ms } : World).stored = w.stored := by
      rcases hwait with hs | hs
      · exact hs
      · cases hv : w.stored with
        | none => exact hs
        | some value => exact absurd hs (hstays value hv)
    refine h.pass [] ⟨rfl, rfl, hlater, Nat.le_refl _, Nat.le_refl _, rfl⟩ h.bounded
      ?_ (by simp) rfl rfl rfl
    rw [hsame]
    exact h.trace

theorem restore (h : w.Sound start) {l : Loan Connection}
    (hl : l.isSound = true → l.conn.watched = []) : (w.restore l).Sound start := by
  unfold World.restore
  split
  · next hsound =>
    refine h.grow [] ⟨rfl, rfl, .refl .., Nat.le_refl _, Nat.le_refl _, rfl⟩ h.bounded
      h.trace ?_ ?_ ?_ (by simp) (by simp)
    · intro id p hget
      exact .inl ⟨hget, by simp⟩
    · intro c hc
      rcases List.mem_cons.mp hc with rfl | hc
      · exact .inr (hl hsound)
      · exact .inl hc
    · exact fun hd hmem => .inl hmem
  · exact h

theorem erase (h : w.Sound start) (id : Nat) :
    ({ w with parties := w.parties.erase id } : World).Sound start := by
  refine h.grow [] ⟨rfl, rfl, .refl .., Nat.le_refl _, Nat.le_refl _, rfl⟩ h.bounded
    h.trace ?_ ?_ ?_ (by simp) (by simp)
  · intro j p hget
    refine .inl ⟨?_, by simp⟩
    by_cases he : j = id
    · subst j
      simp at hget
    · rwa [Table.get?_erase_ne _ he] at hget
  · exact fun c hc => .inl hc
  · exact fun hd hmem => .inl hmem

theorem drop (h : w.Sound start) {id : Nat} {p : Party} (hp : w.parties.get? id = some p) :
    (World.restore { w with parties := w.parties.erase id } p.loan).Sound start := by
  have hs := h.parties id p hp
  refine (h.erase id).restore ?_
  intro hsound
  have hoff : p.loan.isWatching = false := by
    simp only [Loan.isSound, Bool.and_eq_true, Bool.not_eq_true'] at hsound
    exact hsound.2
  exact hs.watch.off (hs.flag ▸ hoff)

end World.Sound

/-- The draw of a token for a talk that is to write one: nobody has seen the token before. -/
structure World.Draws (w : World) (id : Nat) (talk : Talk) (new : List Event) : Prop where
  unsent : ∀ t, talk.unsent? = some t → .drew id t ∈ new
  fresh : new = [] ∨ ∃ t, new = [.drew id t] ∧ t.bytes ∉ w.inherited ∧ ∀ i, .drew i t ∉ w.history

theorem World.draw_cases {w w' : World} {id : Nat} {talk : Talk} (h : w.draw id talk = some w') :
    ∃ new, w.Draws id talk new ∧ w' = { w with history := new ++ w.history } := by
  unfold World.draw at h
  cases hu : talk.unsent? with
  | none =>
    simp only [hu] at h
    cases h
    exact ⟨[], ⟨by simp [hu], .inl rfl⟩, rfl⟩
  | some t =>
    simp only [hu, Option.ite_none_right_eq_some, Option.some.injEq] at h
    obtain ⟨hnew, rfl⟩ := h
    simp only [World.isNew, Bool.and_eq_true, decide_eq_true_eq, List.all_eq_true] at hnew
    have hold : t.bytes ∉ w.inherited := by simpa using hnew.1
    refine ⟨[.drew id t], ⟨by simp [hu], .inr ⟨t, rfl, hold, ?_⟩⟩, rfl⟩
    intro i hi
    exact hnew.2 _ hi rfl

theorem World.Draws.actor {w : World} {id : Nat} {talk : Talk} {new : List Event}
    (h : w.Draws id talk new) : ∀ e ∈ new, e.actor? = none := by
  rcases h.fresh with rfl | ⟨t, rfl, -⟩
  · simp
  · simp [Event.actor?]

theorem World.borrow_cases {w w' : World} {idle : Option Nat} {c : Connection}
    (h : w.borrow idle = some (w', c)) (hi : ∀ c ∈ w.idle, c.watched = []) :
    ∃ rest, w' = { w with idle := rest } ∧ (∀ c ∈ rest, c ∈ w.idle) ∧ c.watched = [] := by
  cases idle with
  | some k =>
    simp only [World.borrow, Option.map_eq_some_iff, Prod.mk.injEq] at h
    obtain ⟨d, hd, rfl, rfl⟩ := h
    exact ⟨_, rfl, fun c hc => List.mem_of_mem_eraseIdx hc, hi d (List.mem_of_getElem? hd)⟩
  | none =>
    simp only [World.borrow, Server.connect] at h
    split at h
    · next heq =>
      split at heq
      · cases h; cases heq
        exact ⟨_, rfl, fun c hc => hc, rfl⟩
      · cases heq
    · cases h

namespace World.Sound

variable {start : Option Bytes} {w w' : World}

/-- A party in order takes its place, and its draw is noted. -/
theorem seat (h : w.Sound start) {id : Nat} {p : Party} (hp : p.Sound w id)
    (hid : id < w.nextId) {new : List Event} (hd : w.Draws id p.talk new)
    {parties : Table Nat Party} (hset : parties.get? id = some p)
    (hothers : ∀ j q, j ≠ id → parties.get? j = some q → w.parties.get? j = some q) :
    ({ w with history := new ++ w.history, parties } : World).Sound start := by
  have g : w.Grows { w with history := new ++ w.history, parties } new :=
    ⟨rfl, rfl, .refl .., Nat.le_refl _, Nat.le_refl _, rfl⟩
  refine h.grow new g h.bounded ?_ ?_ ?_ ?_ ?_ ?_
  · rcases hd.fresh with rfl | ⟨t, rfl, hold, hfresh⟩
    · exact h.trace
    · exact h.trace.next (.drew hold hfresh hp.told.present)
  · intro j q hget
    by_cases he : j = id
    · subst j
      obtain rfl := Option.some.inj (hset.symm.trans hget)
      right
      refine ⟨hp.grow g (fun e he => by simp [hd.actor e he]), hid, ?_⟩
      exact fun t ht => List.mem_append_left _ (hd.unsent t ht)
    · exact .inl ⟨hothers j q he hget, fun e he => by simp [hd.actor e he]⟩
  · exact fun c hc => .inl hc
  · exact fun hd hmem => .inl hmem
  · intro e he i ha
    rw [hd.actor e he] at ha
    cases ha
  · intro i t seen judged u hz
    exact absurd (hd.actor _ hz) (by simp [Event.actor?])

theorem newcomer (h : w.Sound start) {talk : Talk} (hs : talk.sent? = none)
    (hk : ∀ r, talk = .release r → Known w.inherited r.handle w.history) :
    Told w.inherited w.nextId w.history talk := by
  have hlt : ∀ e ∈ w.history, e.actor? ≠ some w.nextId :=
    fun e he ha => absurd (h.past e he _ ha) (Nat.lt_irrefl _)
  refine ⟨?_, ?_, ?_, hk⟩
  · exact fun r hr => hlt _ hr rfl
  · intro t
    rw [hs]
    exact ⟨fun hc => absurd rfl (hlt _ hc), fun hn => by cases hn⟩
  · exact fun t seen judged u hz => hlt _ hz rfl

theorem join (h : w.Sound start) {idle : Option Nat} {talk : Talk} (hcall : talk.call? ≠ none)
    (ha : talk.About w.key) (hw : talk.isWatching = false) (hs : talk.sent? = none)
    (hk : ∀ r, talk = .release r → Known w.inherited r.handle w.history)
    (hj : w.join idle talk = some w') : w'.Sound start := by
  simp only [World.join, Option.bind_eq_bind, Option.bind_eq_some_iff, Option.pure_def,
    Option.some.injEq, Prod.exists] at hj
  obtain ⟨w₁, c, hb, w₂, hd, rfl⟩ := hj
  obtain ⟨rest, rfl, hrest, hc⟩ := World.borrow_cases hb h.idle
  obtain ⟨new, hdraws, rfl⟩ := World.draw_cases hd
  have hroom : ({ w with idle := rest, nextId := w.nextId + 1 } : World).Sound start := by
    refine h.grow [] ⟨rfl, rfl, .refl .., Nat.le_refl _, Nat.le_succ _, rfl⟩ h.bounded
      h.trace ?_ ?_ ?_ (by simp) (by simp)
    · exact fun id p hget => .inl ⟨hget, by simp⟩
    · exact fun c hc => .inl (hrest c hc)
    · exact fun hd hmem => .inl hmem
  have hp : Party.Sound { w with idle := rest, nextId := w.nextId + 1 } w.nextId
      { talk, loan := { conn := c } } := by
    refine ⟨hcall, ha, hw.symm, .idle hw hc, h.newcomer hs hk, ?_, Nat.zero_le _, ?_⟩
    · intro a t seen htalk hphase
      obtain rfl : talk = .attempt a := htalk
      obtain ⟨l, k, phase⟩ := a
      cases hphase
      cases hw
    · intro k hr
      cases hr
  refine hroom.seat hp (Nat.lt_succ_self _) ⟨hdraws.unsent, hdraws.fresh⟩
    (Table.get?_set_self ..) ?_
  intro j q hne hget
  rwa [Table.get?_set_ne _ _ hne] at hget

end World.Sound

@[simp] theorem Loan.conn_after (l : Loan Connection) (request : Call) (o : Outcome) :
    (l.after request o).conn = l.conn := by
  unfold Loan.after
  split <;> rfl

theorem Talk.attempt_of_resume {talk : Talk} {m : Moment} {o : Outcome} {a : Attempt}
    (h : talk.resume m o = .attempt a) : ∃ b, talk = .attempt b ∧ b.resume m o = a := by
  cases talk with
  | attempt b => exact ⟨b, rfl, Talk.attempt.inj h⟩
  | release r => cases h
  | probe p => cases h

theorem Talk.hasFailed_of_call? {talk : Talk} (h : talk.call? ≠ none) :
    talk.hasFailed = false := by
  unfold Talk.hasFailed
  split
  · exact absurd rfl h
  · exact absurd rfl h
  · exact absurd rfl h
  · rfl

theorem Party.deed?_cases {p : Party} {id : Nat} {stored : Option Bytes} {o : Outcome} {e : Event}
    (h : p.deed? id stored o = some e) :
    (∃ t, e = .created id t) ∨ (∃ t seen, e = .seized id t seen p.heardAt stored) ∨
      ∃ hd, e = .freed id hd stored := by
  unfold deed? at h
  split at h <;> cases h
  · exact .inl ⟨_, rfl⟩
  · exact .inr (.inl ⟨_, _, rfl⟩)
  · exact .inr (.inr ⟨_, rfl⟩)

namespace World.Sound

variable {start : Option Bytes} {w w' : World} {id : Nat} {p : Party} {s : Server}
  {c : Connection} {o : Outcome}

/-- The call of a party leaves all others in order. -/
theorem deed (h : w.Sound start) (hp : w.parties.get? id = some p)
    (ha : Answers w.key w.server.node w.now p.loan.conn p.talk s.node c o) :
    ({ w with
      server := s
      history := (p.deed? id w.stored o).toList ++ w.history
      parties := w.parties.erase id } : World).Sound start := by
  have hs := h.parties id p hp
  have hid := h.ids id p hp
  have hdeed : ∀ e ∈ (p.deed? id w.stored o).toList, (∀ i, e.actor? = some i → i = id) ∧
      ∀ i t seen judged u, e = .seized i t seen judged u → judged = p.heardAt := by
    intro e he
    rw [Option.mem_toList] at he
    rcases Party.deed?_cases he with ⟨t, rfl⟩ | ⟨t, seen, rfl⟩ | ⟨hd, rfl⟩
    · simp [Event.actor?, eq_comm]
    · refine ⟨by simp [Event.actor?, eq_comm], ?_⟩
      intro i t' seen' judged u hz
      cases hz
      rfl
    · simp [Event.actor?]
  refine h.grow (p.deed? id w.stored o).toList
    ⟨rfl, rfl, ha.later, Nat.le_refl _, Nat.le_refl _, rfl⟩ (ha.bounded h.bounded) ?_ ?_ ?_ ?_ ?_ ?_
  · exact ha.trace hs.about hs.told (h.drawn id p · hp) hs.stale h.trace
  · intro j q hget
    have hne : j ≠ id := by
      rintro rfl
      simp at hget
    rw [Table.get?_erase_ne _ hne] at hget
    exact .inl ⟨hget, fun e he hactor => hne ((hdeed e he).1 j hactor)⟩
  · exact fun c hc => .inl hc
  · exact fun hd hmem => .inl hmem
  · intro e he i hactor
    rw [(hdeed e he).1 i hactor]
    exact hid
  · intro i t seen judged u hz
    rw [(hdeed _ hz).2 i t seen judged u rfl]
    exact hs.heard

/-- An attempt that ends brings its caller what it has done. -/
theorem returned (h : w.Sound start) (hid : id < w.nextId) (hgone : w.parties.get? id = none)
    {r : Except Failure (Option Handle)} (hpres : Present id w.history)
    (hfits : Fits id w.history w.stored r) :
    ({ w with
      handles := World.gained r ++ w.handles
      history := .returned id r :: w.history } : World).Sound start := by
  refine h.grow [.returned id r]
    ⟨rfl, rfl, .refl .., Nat.le_refl _, Nat.le_refl _, rfl⟩ h.bounded
    (h.trace.next (.returned hpres hfits)) ?_ ?_ ?_ ?_ ?_
  · intro j q hget
    have hne : j ≠ id := by
      rintro rfl
      rw [hgone] at hget
      cases hget
    exact .inl ⟨hget, by simp [Event.actor?, Ne.symm hne]⟩
  · exact fun c hc => .inl hc
  · intro hd hmem
    rcases List.mem_append.mp hmem with hg | hmem
    · right
      have hr : r = .ok (some hd) := by
        unfold World.gained at hg
        split at hg
        · rw [List.mem_singleton.mp hg]
        · cases hg
      exact .inr ⟨id, by rw [hr]; exact List.mem_cons_self⟩
    · exact .inl hmem
  · intro e he i ha
    obtain rfl := List.mem_singleton.mp he
    cases ha
    exact hid
  · intro i t seen judged u hz
    cases List.mem_singleton.mp hz

theorem released (h : w.Sound start) (id : Nat) (hd : Handle) (r : Except Failure Bool) :
    ({ w with history := .released id hd r :: w.history } : World).Sound start := by
  refine h.pass [.released id hd r]
    ⟨rfl, rfl, .refl .., Nat.le_refl _, Nat.le_refl _, rfl⟩ h.bounded (h.trace.next .released)
    ?_ rfl rfl rfl
  intro e he
  obtain rfl := List.mem_singleton.mp he
  rfl

theorem dismiss (h : ({ w with parties := w.parties.erase id } : World).Sound start)
    (hid : id < w.nextId) (hpres : Present id w.history)
    (hwatch : p.talk.hasFailed = false → p.loan.isWatching = false → p.loan.conn.watched = [])
    (hfits : ∀ a r, p.talk = .attempt a → a.phase = .over r →
      Fits id w.history w.stored r) : (w.dismiss id p).Sound start := by
  obtain ⟨w', hw'⟩ : ∃ w', w' = World.restore { w with parties := w.parties.erase id }
    (if p.talk.hasFailed then p.loan.markBroken else p.loan) := ⟨_, rfl⟩
  have hback : w'.Sound start := by
    rw [hw']
    refine h.restore ?_
    intro hsound
    cases hf : p.talk.hasFailed with
    | true => simp [hf, Loan.isSound, Loan.markBroken] at hsound
    | false =>
      simp only [hf, Bool.false_eq_true, if_false, Loan.isSound, Bool.and_eq_true,
        Bool.not_eq_true'] at hsound ⊢
      exact hwatch hf hsound.2
  have hhistory : w'.history = w.history := by simp [hw']
  have hstored : w'.stored = w.stored := by rw [hw', World.restore_stored]; rfl
  simp only [World.dismiss, ← hw']
  split
  · next l k r htalk =>
    refine hback.returned ?_ ?_ ?_ ?_
    · simpa [hw'] using hid
    · simp [hw']
    · rwa [hhistory]
    · rw [hhistory, hstored]
      exact hfits _ r htalk rfl
  · exact hback.released id _ _
  · exact hback

/-- A party that hears an outcome goes on in order or goes. -/
theorem hear (h : w.Sound start) (hp : w.parties.get? id = some p) {request : Call}
    (hr : p.talk.call? = some request)
    (ha : Answers w.key w.server.node w.now p.loan.conn p.talk s.node c o) {owner : BitVec 128}
    (hh : World.hear { w with server := s } id
      { p with loan := { p.loan.before request with conn := c }, reading := none } request owner o
      (p.deed? id w.stored o) = some w') : w'.Sound start := by
  have hs := h.parties id p hp
  have hdeed := h.deed hp ha
  have hid := h.ids id p hp
  have hwatch := ha.watch h.bounded hs.watch ⟨w.clock, owner⟩
  have hflag := ha.flag hs.flag hr ⟨w.clock, owner⟩
  simp only [World.hear, Party.hear] at hh
  split at hh
  · next hover =>
    cases hh
    refine dismiss hdeed hid ?_ ?_ ?_
    · intro r hmem
      rcases List.mem_append.mp hmem with he | he
      · rw [Option.mem_toList] at he
        rcases Party.deed?_cases he with ⟨t, he⟩ | ⟨t, seen, he⟩ | ⟨hd, he⟩ <;> cases he
      · exact hs.told.present r he
    · intro hf hoff
      rw [Loan.conn_after]
      exact (hwatch hf).off ((hflag hf).symm.trans hoff)
    · intro a r htalk hphase
      obtain ⟨b, hb, rfl⟩ := Talk.attempt_of_resume htalk
      exact ha.fits hs.about hs.told hb ⟨w.clock, owner⟩ hphase
  · next next hcall =>
    have hnone : (p.talk.resume ⟨w.clock, owner⟩ o).call? ≠ none := by simp [hcall]
    have hf := Talk.hasFailed_of_call? hnone
    obtain ⟨w₁, hd, rfl⟩ := Option.map_eq_some_iff.mp hh
    obtain ⟨new, hdraws, rfl⟩ := World.draw_cases hd
    refine hdeed.seat ?_ hid ⟨hdraws.unsent, hdraws.fresh⟩ (Table.get?_set_self ..) ?_
    · refine ⟨hnone, hs.about.resume _ o, hflag hf, ?_, ?_, ?_, ?_, ?_⟩
      · rw [Loan.conn_after]
        exact hwatch hf
      · exact ha.told hs.told _ hnone
      · intro a t seen htalk hphase
        obtain ⟨b, -, rfl⟩ := Talk.attempt_of_resume htalk
        exact Attempt.stale_of_seizing hphase
      · exact Nat.le_refl _
      · intro k hk
        cases hk
    · intro j q hne hget
      rw [Table.get?_set_ne _ _ hne] at hget
      rwa [Table.get?_erase_ne _ hne]

end World.Sound
end Holdfast.Contention
