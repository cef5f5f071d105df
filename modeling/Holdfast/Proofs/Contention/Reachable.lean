import Holdfast.Proofs.Contention.Invariant

namespace Holdfast.Contention

open Store Lock Memory

theorem Loan.conn_before (l : Loan Connection) (request : Call) :
    (l.before request).conn = l.conn := by
  cases request <;> rfl

section
variable {w : World} {id : Nat} {p asked : Party} {request : Call} {s : Server}

theorem Party.ask_later (ha : p.ask w.server w.now request = (asked, s, none)) :
    s = w.server ∧ ∃ k, request = .get k ∧ asked = { p with reading := some k } := by
  unfold Party.ask at ha
  cases hread : p.reading with
  | some k => simp [hread] at ha
  | none =>
    simp only [hread] at ha
    rcases hcall : (p.loan.before request).conn.call w.server w.now request with ⟨c, s', answer⟩
    rw [hcall] at ha
    cases answer with
    | now o' => simp at ha
    | readAfter ms k =>
      simp only [Prod.mk.injEq, and_true] at ha
      obtain ⟨rfl, rfl⟩ := ha
      obtain ⟨rfl, rfl, rfl⟩ := call_readAfter hcall
      exact ⟨rfl, k, rfl, rfl⟩

/-- A call that is answered at once, or a slow read that ends. -/
theorem Party.Sound.ask_now (h : p.Sound w id) (hr : p.talk.call? = some request) {o : Outcome}
    (ha : p.ask w.server w.now request = (asked, s, some o)) :
    ∃ c, asked = { p with
        loan := { p.loan.before request with conn := c }
        reading := none } ∧
      Answers w.key w.server.node w.now p.loan.conn p.talk s.node c o := by
  unfold Party.ask at ha
  cases hread : p.reading with
  | some k =>
    have hget := h.reading k hread
    obtain rfl := Option.some.inj (hr.symm.trans hget)
    simp only [hread, Prod.mk.injEq, Option.some.injEq] at ha
    obtain ⟨rfl, rfl, rfl⟩ := ha
    exact ⟨p.loan.conn, rfl, read_answers h.about hget⟩
  | none =>
    simp only [hread] at ha
    rcases hcall : (p.loan.before request).conn.call w.server w.now request with ⟨c, s', answer⟩
    rw [hcall] at ha
    cases answer with
    | now o' =>
      simp only [Prod.mk.injEq, Option.some.injEq] at ha
      obtain ⟨rfl, rfl, rfl⟩ := ha
      rw [Loan.conn_before] at hcall
      exact ⟨c, rfl, call_answers h.about h.watch hr hcall⟩
    | readAfter ms k => simp at ha

end

namespace World

/-- A lock that can be made is about the key of its name and is held for some time. -/
theorem about_start {w : World} {o : Options} {l : Lock} (h : Lock.ofName w.name o = .ok l)
    (m : Moment) : Talk.About w.key (.attempt (.start l m)) := by
  unfold Lock.ofName at h
  split at h
  · cases h
  · cases h
    exact ⟨rfl, o.holdSeconds_pos⟩

variable {start : Option Bytes} {w w' : World}

theorem unsent_of_get {talk : Talk} {k : Bytes} (h : talk.call? = some (.get k)) :
    talk.unsent? = none := by
  unfold Talk.unsent?
  split
  · cases h
  · cases h
  · rfl

/-- A slow read that begins changes nothing but the party that waits for it. -/
theorem Sound.wait (h : w.Sound start) {id : Nat} {p : Party} (hp : w.parties.get? id = some p)
    {k : Bytes} (hr : p.talk.call? = some (.get k)) :
    ({ w with parties := w.parties.set id { p with reading := some k } } : World).Sound start := by
  have hs : Party.Sound w id { p with reading := some k } :=
    { h.parties id p hp with reading := fun k' hk => by cases hk; exact hr }
  have hd : w.Draws id p.talk [] := by
    refine ⟨?_, .inl rfl⟩
    intro t ht
    rw [unsent_of_get hr] at ht
    cases ht
  refine h.seat hs (h.ids id p hp) hd (Table.get?_set_self ..) ?_
  intro j q hne hget
  rwa [Table.get?_set_ne _ _ hne] at hget

/-- A party hears an outcome that the store may give it, and goes on or goes. -/
structure Hears (w w' : World) (id : Nat) (p : Party) (m : Moment) (o : Outcome) : Prop where
  clock : m.clock = w.clock
  party : w.parties.get? id = some p
  outcome : ∃ request s c, p.talk.call? = some request ∧
    Answers w.key w.server.node w.now p.loan.conn p.talk s.node c o ∧
    World.hear { w with server := s } id
      { p with loan := { p.loan.before request with conn := c }, reading := none } request m.owner
      o (p.deed? id w.stored o) = some w'

/-- The next call of a party is answered, or is a slow read that begins. -/
theorem Sound.call_cases (h : w.Sound start) {id : Nat} {owner : BitVec 128}
    (hm : w.act (.call id owner) = some w') :
    (∃ p m o, w.Hears w' id p m o) ∨
    ∃ p k, w.parties.get? id = some p ∧ p.talk.call? = some (.get k) ∧
      w' = { w with parties := w.parties.set id { p with reading := some k } } := by
  simp only [World.act, Option.bind_eq_bind, Option.bind_eq_some_iff] at hm
  obtain ⟨p, hp, request, hr, hm⟩ := hm
  split at hm
  · next asked server o hask =>
    obtain ⟨c, rfl, ha⟩ := (h.parties id p hp).ask_now hr hask
    exact .inl ⟨p, ⟨w.clock, owner⟩, o, rfl, hp, request, server, c, hr, ha, hm⟩
  · next asked server hask =>
    cases hm
    obtain ⟨rfl, k, rfl, rfl⟩ := Party.ask_later hask
    exact .inr ⟨p, k, hp, hr, rfl⟩

theorem fail_hears {id : Nat} {f : Failure} (hm : w.act (.fail id f) = some w') :
    ∃ p m, w.Hears w' id p m (.error f) := by
  simp only [World.act, Option.bind_eq_bind, Option.bind_eq_some_iff] at hm
  obtain ⟨p, hp, request, hr, hm⟩ := hm
  have hdeed : p.deed? id w.stored (.error f) = none := p.deed?_error id w.stored f
  have hconn : ({ p.loan.before request with conn := p.loan.conn } : Loan Connection) =
      p.loan.before request := by rw [← Loan.conn_before p.loan request]
  rw [← hdeed, ← hconn] at hm
  exact ⟨p, ⟨w.clock, 0⟩, rfl, hp, request, w.server, p.loan.conn, hr, .failed, hm⟩

theorem Hears.sound {id : Nat} {p : Party} {m : Moment} {o : Outcome}
    (hh : w.Hears w' id p m o) (h : w.Sound start) : w'.Sound start := by
  obtain ⟨-, hp, request, s, c, hr, ha, hhear⟩ := hh
  exact h.hear hp hr ha hhear

theorem dismiss_store (w : World) (id : Nat) (p : Party) :
    (w.dismiss id p).server = w.server ∧ (w.dismiss id p).now = w.now ∧
      (w.dismiss id p).name = w.name := by
  obtain ⟨u, hu⟩ : ∃ u, u = World.restore { w with parties := w.parties.erase id }
    (if p.talk.hasFailed then p.loan.markBroken else p.loan) := ⟨_, rfl⟩
  have hserver : u.server = w.server := by rw [hu, World.restore_server]
  have hnow : u.now = w.now := by rw [hu, World.restore_now]
  have hname : u.name = w.name := by rw [hu, World.restore_name]
  simp only [World.dismiss, ← hu]
  split <;> exact ⟨hserver, hnow, hname⟩

theorem dismiss_returned {w : World} {id j : Nat} {p : Party}
    {r : Except Failure (Option Handle)} (hr : .returned j r ∈ (w.dismiss id p).history)
    (hn : .returned j r ∉ w.history) :
    j = id ∧ (∃ a, p.talk = .attempt a ∧ a.phase = .over r) ∧
      (w.dismiss id p).history = .returned j r :: w.history := by
  obtain ⟨u, hu⟩ : ∃ u, u = World.restore { w with parties := w.parties.erase id }
    (if p.talk.hasFailed then p.loan.markBroken else p.loan) := ⟨_, rfl⟩
  have hhistory : u.history = w.history := by rw [hu, World.restore_history]
  simp only [World.dismiss, ← hu] at hr ⊢
  split at hr
  · next l k r' htalk =>
    rw [hhistory] at hr
    rcases List.mem_cons.mp hr with he | he
    · cases he
      exact ⟨rfl, ⟨_, htalk, rfl⟩, by simp [hhistory]⟩
    · exact absurd he hn
  · rw [hhistory] at hr
    rcases List.mem_cons.mp hr with he | he
    · cases he
    · exact absurd he hn
  · rw [hhistory] at hr
    exact absurd hr hn

/-- An attempt hears the last of its outcomes and brings its result. -/
structure Ends (w w' : World) (id : Nat) (r : Except Failure (Option Handle)) (p : Party)
    (a : Attempt) (m : Moment) (o : Outcome) : Prop where
  party : w.parties.get? id = some p
  talk : p.talk = .attempt a
  ended : (a.resume m o).phase = .over r
  answers : ∃ c, Answers w.key w.server.node w.now p.loan.conn p.talk w'.server.node c o
  now : w'.now = w.now
  key : w'.key = w.key
  history : w'.history = .returned id r :: ((p.deed? id w.stored o).toList ++ w.history)

/-- Who hears an outcome and brings a result was at the end of his attempt. -/
theorem Hears.ends {id j : Nat} {p : Party} {m : Moment} {o : Outcome}
    (hh : w.Hears w' id p m o) {r : Except Failure (Option Handle)}
    (hr : .returned j r ∈ w'.history) (hn : .returned j r ∉ w.history) :
    ∃ a, w.Ends w' j r p a m o := by
  obtain ⟨hclock, hp, request, s, c, hreq, ha, hhear⟩ := hh
  have hdeed : .returned j r ∉ (p.deed? id w.stored o).toList ++ w.history := by
    intro hmem
    rcases List.mem_append.mp hmem with he | he
    · rw [Option.mem_toList] at he
      rcases Party.deed?_cases he with ⟨t, he⟩ | ⟨t, seen, he⟩ | ⟨hd, he⟩ <;> cases he
    · exact hn he
  simp only [World.hear, Party.hear] at hhear
  split at hhear
  · cases hhear
    obtain ⟨rfl, ⟨a, htalk, hphase⟩, hhistory⟩ := dismiss_returned hr hdeed
    obtain ⟨b, hb, rfl⟩ := Talk.attempt_of_resume htalk
    obtain ⟨hserver, hnow, hname⟩ := dismiss_store { w with
      server := s, history := (p.deed? j w.stored o).toList ++ w.history } j _
    refine ⟨b, hp, hb, ?_, ⟨c, ?_⟩, hnow, ?_, hhistory⟩
    · obtain ⟨clock, owner⟩ := m
      cases hclock
      exact hphase
    · rw [hserver]
      exact ha
    · unfold World.key
      rw [hname]
  · obtain ⟨w₁, hd, rfl⟩ := Option.map_eq_some_iff.mp hhear
    obtain ⟨new, hdraws, rfl⟩ := World.draw_cases hd
    rcases List.mem_append.mp hr with he | he
    · exact absurd (hdraws.actor _ he) (by simp [Event.actor?])
    · exact absurd he hdeed

/-- Every move keeps the world in order. -/
theorem Sound.act (h : w.Sound start) (m : Move) (hm : w.act m = some w') : w'.Sound start := by
  cases m with
  | tick ms => cases hm; exact h.tick ms
  | age ms => cases hm; exact h.age ms
  | reach up => cases hm; exact h.reach up
  | elsewhere c request =>
    simp only [World.act, Option.ite_none_right_eq_some, Option.some.injEq] at hm
    obtain ⟨hs, rfl⟩ := hm
    exact h.elsewhere c hs
  | attempt o idle owner =>
    simp only [World.act] at hm
    split at hm
    · next l hl =>
      refine h.join ?_ (about_start hl _) rfl rfl ?_ hm
      · simp [Talk.call?, Attempt.start, Attempt.call?]
      · intro r hr
        cases hr
    · cases hm
  | release hd idle =>
    simp only [World.act, Option.ite_none_right_eq_some] at hm
    obtain ⟨⟨hmem, hkey⟩, hj⟩ := hm
    have hless : ({ w with handles := w.handles.erase hd } : World).Sound start := by
      refine h.grow [] ⟨rfl, rfl, .refl .., Nat.le_refl _, Nat.le_refl _, rfl⟩ h.bounded
        h.trace ?_ ?_ ?_ (by simp) (by simp)
      · exact fun id p hget => .inl ⟨hget, by simp⟩
      · exact fun c hc => .inl hc
      · exact fun hd' hmem' => .inl (List.mem_of_mem_erase hmem')
    refine hless.join ?_ ?_ rfl rfl ?_ hj
    · simp [Talk.call?, Release.call?]
    · exact hkey
    · intro r hr
      cases hr
      exact h.handles hd hmem
  | probe idle =>
    refine h.join ?_ ?_ rfl rfl ?_ hm
    · simp [Talk.call?, Probe.call?]
    · exact rfl
    · intro r hr
      cases hr
  | call id owner =>
    rcases h.call_cases hm with ⟨p, m, o, hh⟩ | ⟨p, k, hp, hr, rfl⟩
    · exact hh.sound h
    · exact h.wait hp hr
  | fail id f =>
    obtain ⟨p, m, hh⟩ := fail_hears hm
    exact hh.sound h
  | drop id =>
    simp only [World.act, Option.bind_eq_bind, Option.bind_eq_some_iff, Option.pure_def,
      Option.some.injEq] at hm
    obtain ⟨p, hp, rfl⟩ := hm
    exact h.drop hp

theorem join_returned {idle : Option Nat} {talk : Talk} (hi : ∀ c ∈ w.idle, c.watched = [])
    (hj : w.join idle talk = some w') {id : Nat} {r : Except Failure (Option Handle)}
    (hr : .returned id r ∈ w'.history) : .returned id r ∈ w.history := by
  simp only [World.join, Option.bind_eq_bind, Option.bind_eq_some_iff, Option.pure_def,
    Option.some.injEq, Prod.exists] at hj
  obtain ⟨w₁, c, hb, w₂, hd, rfl⟩ := hj
  obtain ⟨rest, rfl, -, -⟩ := World.borrow_cases hb hi
  obtain ⟨new, hdraws, rfl⟩ := World.draw_cases hd
  rcases List.mem_append.mp hr with he | he
  · exact absurd (hdraws.actor _ he) (by simp [Event.actor?])
  · exact he

/-- The move that brings an attempt's result is its last answer. -/
theorem Sound.ends (h : w.Sound start) {move : Move} (hm : w.act move = some w')
    {id : Nat} {r : Except Failure (Option Handle)} (hr : .returned id r ∈ w'.history)
    (hn : .returned id r ∉ w.history) :
    ∃ p a m o, w.Ends w' id r p a m o := by
  cases move with
  | tick | reach => cases hm; exact absurd hr hn
  | age ms =>
    cases hm
    simp only [World.age] at hr
    split at hr
    · rcases List.mem_cons.mp hr with he | he
      · cases he
      · exact absurd he hn
    · exact absurd hr hn
  | elsewhere c request =>
    simp only [World.act, Option.ite_none_right_eq_some, Option.some.injEq] at hm
    obtain ⟨-, rfl⟩ := hm
    exact absurd hr hn
  | attempt o idle owner =>
    simp only [World.act] at hm
    split at hm
    · exact absurd (join_returned h.idle hm hr) hn
    · cases hm
  | release hd idle =>
    simp only [World.act, Option.ite_none_right_eq_some] at hm
    obtain ⟨-, hj⟩ := hm
    exact absurd (join_returned (w := { w with handles := w.handles.erase hd }) h.idle hj hr) hn
  | probe idle => exact absurd (join_returned h.idle hm hr) hn
  | call id owner =>
    rcases h.call_cases hm with ⟨p, m, o, hh⟩ | ⟨p, k, -, -, rfl⟩
    · obtain ⟨a, he⟩ := hh.ends hr hn
      exact ⟨p, a, m, o, he⟩
    · exact absurd hr hn
  | fail id f =>
    obtain ⟨p, m, hh⟩ := fail_hears hm
    obtain ⟨a, he⟩ := hh.ends hr hn
    exact ⟨p, a, m, _, he⟩
  | drop id =>
    simp only [World.act, Option.bind_eq_bind, Option.bind_eq_some_iff, Option.pure_def,
      Option.some.injEq] at hm
    obtain ⟨p, -, rfl⟩ := hm
    rw [World.restore_history] at hr
    exact absurd hr hn

end World

theorem Start.sound {w : World} (h : Start w) : w.Sound w.stored := by
  have htrace : Trace w.inherited w.stored w.history w.stored := by rw [h.history]; exact .start
  refine ⟨h.bounded, h.stored, htrace, ?_, ?_, ?_, ?_, ?_, ?_, ?_⟩
  · intro id p hp; rw [h.parties] at hp; cases hp
  · intro id p t hp; rw [h.parties] at hp; cases hp
  · intro c hc; rw [h.idle] at hc; cases hc
  · exact fun hd hmem => .inl (h.handles hd hmem)
  · intro id p hp; rw [h.parties] at hp; cases hp
  · intro e he; rw [h.history] at he; cases he
  · intro id t seen judged u hz; rw [h.history] at hz; cases hz

/-- Whatever the parties do, and in whatever order, the world stays in order. -/
theorem Reachable.sound {s w : World} (hs : Start s) (h : Reachable s w) : w.Sound s.stored := by
  induction h with
  | refl => exact hs.sound
  | step _ m hm ih => exact ih.act m hm

theorem Reachable.trans {s w u : World} (h : Reachable s w) (h' : Reachable w u) :
    Reachable s u := by
  induction h' with
  | refl => exact h
  | step _ m hm ih => exact .step ih m hm

theorem World.run_reachable {w w' : World} {ms : List Move} (h : w.run ms = some w') :
    Reachable w w' := by
  induction ms generalizing w with
  | nil => cases h; exact .refl
  | cons m ms ih =>
    obtain ⟨u, hm, hrun⟩ := Option.bind_eq_some_iff.mp h
    exact (Reachable.step .refl m hm).trans (ih hrun)

end Holdfast.Contention
