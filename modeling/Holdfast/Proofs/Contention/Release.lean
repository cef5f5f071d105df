import Holdfast.Deployment.Errand
import Holdfast.Proofs.Contention.Step

namespace Holdfast.Contention

open Store Lock Memory

theorem Known.stood {old : List Bytes} {start v : Option Bytes} {es : List Event} {hd : Handle}
    (h : Known old hd es) (ht : Trace old start es v) : Stood old hd.token.bytes es := by
  rcases h with hold | ⟨id, hr⟩
  · exact .inl hold
  · exact .inr ⟨id, hd.token, ht.wrote_of_won hr, rfl⟩

theorem Talk.report?_released {id i : Nat} {talk : Talk} {hd : Handle} {r : Except Failure Bool}
    (h : talk.report? id = some (.released i hd r)) :
    i = id ∧ talk = .release ⟨hd, .over r⟩ := by
  unfold Talk.report? at h
  split at h <;> cases h
  exact ⟨rfl, rfl⟩

theorem Party.released_notMem_deed? {p : Party} {j i : Nat} {v : Option Bytes} {o : Outcome}
    {hd : Handle} {r : Except Failure Bool} : .released i hd r ∉ (p.deed? j v o).toList := by
  intro hmem
  rw [Option.mem_toList] at hmem
  rcases Party.deed?_cases hmem with ⟨t, he⟩ | ⟨t, seen, he⟩ | ⟨hd, he⟩ <;> cases he

theorem Talk.release_of_resume {talk : Talk} {m : Moment} {o : Outcome} {r : Release}
    (h : talk.resume m o = .release r) : ∃ r', talk = .release r' ∧ r'.resume o = r := by
  cases talk with
  | attempt a => cases h
  | release r' => exact ⟨r', rfl, Talk.release.inj h⟩
  | probe q => cases h

namespace World

variable {start : Option Bytes} {w w' : World} {move : Move}

namespace Stepped

theorem history (h : w.Stepped move w') : ∃ new, w'.history = new ++ w.history := by
  cases h with
  | passed | joined => exact ⟨_, rfl⟩
  | waits => exact ⟨[], rfl⟩
  | goes _ _ _ _ hhistory | ends _ _ _ hhistory =>
    exact ⟨_, hhistory.trans (List.append_assoc ..).symm⟩
  | dropped => exact ⟨[], by simp⟩

theorem inherited (h : w.Stepped move w') : w'.inherited = w.inherited := by
  cases h with
  | passed | joined | waits => rfl
  | goes _ heard | ends _ heard => exact heard.inherited
  | dropped => simp

theorem name (h : w.Stepped move w') : w'.name = w.name := by
  cases h with
  | passed | joined | waits => rfl
  | goes _ heard | ends _ heard => exact heard.name
  | dropped => simp

theorem key (h : w.Stepped move w') : w'.key = w.key := by
  unfold World.key
  rw [h.name]

theorem nextId_le (h : w.Stepped move w') : w.nextId ≤ w'.nextId := by
  cases h with
  | passed | waits => exact Nat.le_refl _
  | joined => exact Nat.le_succ _
  | goes _ heard | ends _ heard => exact Nat.le_of_eq heard.nextId.symm
  | dropped => simp

/-- A token that was about and is gone stays away. -/
theorem gone (hstep : w.Stepped move w') (h : w.Sound start) (h' : w'.Sound start) {hd : Handle}
    (hk : Known w.inherited hd w.history) (hne : w.stored ≠ some hd.token.bytes) :
    w'.stored ≠ some hd.token.bytes := by
  obtain ⟨new, hnew⟩ := hstep.history
  have ht := h'.trace
  rw [hstep.inherited, hnew] at ht
  exact (Trace.gone (hk.stood h.trace) h.trace hne ht).2

/-- Who is at his talk was so before, or has just come. -/
theorem party_cases (hstep : w.Stepped move w') {id : Nat} {p' : Party}
    (hp : w'.parties.get? id = some p') :
    (∃ p, w.parties.get? id = some p ∧ p'.talk = p.talk ∧ p'.loan = p.loan) ∨
      (id = w.nextId ∧ p'.loan.conn.watched = []) ∨
      ∃ p o, w.Heard w' id p o p'.talk p'.loan.conn ∧ p'.talk.call? ≠ none := by
  cases hstep with
  | passed => exact .inl ⟨p', hp, rfl, rfl⟩
  | joined _ unwatched _ =>
    by_cases hid : id = w.nextId
    · subst hid
      rw [Table.get?_set_self] at hp
      cases hp
      exact .inr (.inl ⟨rfl, unwatched⟩)
    · rw [Table.get?_set_ne _ _ hid] at hp
      exact .inl ⟨p', hp, rfl, rfl⟩
  | @waits j _ p _ party =>
    by_cases hid : id = j
    · subst hid
      rw [Table.get?_set_self] at hp
      cases hp
      exact .inl ⟨p, party, rfl, rfl⟩
    · rw [Table.get?_set_ne _ _ hid] at hp
      exact .inl ⟨p', hp, rfl, rfl⟩
  | @goes _ j p _ o _ _ _ heard active _ _ parties =>
    by_cases hid : id = j
    · subst hid
      rw [parties] at hp
      cases hp
      exact .inr (.inr ⟨p, o, heard, active⟩)
    · rw [heard.others id hid] at hp
      exact .inl ⟨p', hp, rfl, rfl⟩
  | @ends _ j _ _ _ _ _ _ heard _ _ parties =>
    by_cases hid : id = j
    · subst hid
      rw [parties] at hp
      cases hp
    · rw [heard.others id hid] at hp
      exact .inl ⟨p', hp, rfl, rfl⟩
  | @dropped j p _ =>
    rw [restore_parties] at hp
    by_cases hid : id = j
    · subst hid
      simp at hp
    · rw [Table.get?_erase_ne _ hid] at hp
      exact .inl ⟨p', hp, rfl, rfl⟩

/-- The result of a release comes by a move of its own, which is its last. -/
theorem released (hstep : w.Stepped move w') {id : Nat} {hd : Handle} {r : Except Failure Bool}
    (hr : .released id hd r ∈ w'.history) (hn : .released id hd r ∉ w.history) :
    move.actor? = some id ∧ (∃ p rel, w.parties.get? id = some p ∧ p.talk = .release rel ∧
        rel.handle = hd) ∧
      w'.parties.get? id = none ∧ w'.nextId = w.nextId ∧
      ∀ i hd' r', .released i hd' r' ∈ w'.history →
        .released i hd' r' ∈ w.history ∨ i = id ∧ hd' = hd ∧ r' = r := by
  have hold : ∀ {es : List Event} {i : Nat} {hd' : Handle} {r' : Except Failure Bool},
      (∀ e ∈ es, (∃ b, e = .lapsed b) ∨ ∃ j t, e = .drew j t) →
        .released i hd' r' ∈ es ++ w.history → .released i hd' r' ∈ w.history := by
    intro es i hd' r' hes hmem
    rcases List.mem_append.mp hmem with he | he
    · rcases hes _ he with ⟨b, he⟩ | ⟨j, t, he⟩ <;> cases he
    · exact he
  have hdeed : ∀ {j i : Nat} {p : Party} {o : Outcome} {hd' : Handle} {r' : Except Failure Bool},
      .released i hd' r' ∈ (p.deed? j w.stored o).toList ++ w.history →
        .released i hd' r' ∈ w.history := by
    intro j i p o hd' r' hmem
    rcases List.mem_append.mp hmem with he | he
    · exact absurd he Party.released_notMem_deed?
    · exact he
  cases hstep with
  | passed _ _ lapses => exact absurd (hold (fun e he => .inl (lapses e he)) hr) hn
  | joined _ _ draws => exact absurd (hold (fun e he => .inr ⟨_, draws e he⟩) hr) hn
  | waits => exact absurd hr hn
  | goes _ _ _ draws hhistory =>
    rw [hhistory] at hr
    rcases List.mem_append.mp hr with he | he
    · obtain ⟨t, he⟩ := draws _ he
      cases he
    · exact absurd (hdeed he) hn
  | @ends _ j p talk c o _ actor heard _ hhistory parties =>
    rw [hhistory] at hr
    rcases List.mem_append.mp hr with he | he
    · rw [Option.mem_toList] at he
      obtain ⟨rfl, rfl⟩ := Talk.report?_released he
      obtain ⟨m, hresume⟩ := heard.resumed
      obtain ⟨rel, htalk, hrel⟩ := Talk.release_of_resume hresume.symm
      have hhandle : rel.handle = hd := by rw [← rel.handle_resume o, hrel]
      refine ⟨actor, ⟨p, rel, heard.party, htalk, hhandle⟩, parties, heard.nextId, ?_⟩
      intro i hd' r' hmem
      rw [hhistory, he] at hmem
      rcases List.mem_append.mp hmem with he' | he'
      · cases List.mem_singleton.mp he'
        exact .inr ⟨rfl, rfl, rfl⟩
      · exact .inl (hdeed he')
    · exact absurd (hdeed he) hn
  | dropped => exact absurd (by simpa using hr) hn

end Stepped

/-- What holds of releases. One that found nothing under the key when its watch began is not about
to delete it, since its token is gone for good. -/
structure Releasing (w : World) : Prop where
  clear : ∀ {id p r}, w.parties.get? id = some p → p.talk = .release r →
    p.loan.conn.watched = [(w.key, none)] →
      w.stored ≠ some r.handle.token.bytes ∧ r.phase ≠ .deleting
  pending : ∀ {id p hd r}, w.parties.get? id = some p → .released id hd r ∉ w.history
  past : ∀ {id hd r}, .released id hd r ∈ w.history → id < w.nextId
  once : ∀ {id hd hd' r r'}, .released id hd r ∈ w.history → .released id hd' r' ∈ w.history →
    hd = hd' ∧ r = r'

theorem Releasing.begin {s : World} (hs : Start s) : s.Releasing := by
  refine ⟨?_, ?_, ?_, ?_⟩
  · intro id p r hp
    rw [hs.parties] at hp
    cases hp
  · intro id p hd r hp
    rw [hs.parties] at hp
    cases hp
  · intro id hd r hr
    rw [hs.history] at hr
    cases hr
  · intro id hd hd' r r' hr
    rw [hs.history] at hr
    cases hr

/-- A release that goes on has only looked, and what it watches tells what it can have seen. -/
theorem Heard.clear {id : Nat} {p : Party} {o : Outcome} {c : Connection} {r' : Release}
    (hh : w.Heard w' id p o (.release r') c) (hr : w.Releasing) (hcall : r'.call? ≠ none)
    (hwatched : c.watched = [(w.key, none)]) :
    w'.stored ≠ some r'.handle.token.bytes ∧ r'.phase ≠ .deleting := by
  obtain ⟨m, hresume⟩ := hh.resumed
  have hanswers := hh.answers
  have hclear := fun r => hr.clear (r := r) hh.party
  have hstored : w'.server.node = w.server.node → w'.stored = w.stored := by
    intro hnode
    unfold World.stored World.key
    rw [hnode, hh.now, hh.name]
  generalize hn : w'.server.node = n' at hanswers hstored
  cases htalk : p.talk with
  | attempt a => rw [htalk] at hresume; cases hresume
  | probe q => rw [htalk] at hresume; cases hresume
  | release r =>
    rw [htalk] at hresume hanswers
    cases hresume
    cases hanswers with
    | failed | kept | freed | missed => exact absurd rfl hcall
    | @rewatched hd =>
      have hversion : w.server.node.version? w.now w.key = none := by simpa using hwatched
      have hnone : w.stored = none := by
        rw [World.stored, Node.value?_eq_none]
        simpa [Node.version?] using hversion
      rw [hstored rfl, hnone]
      exact ⟨by simp, by simp [Release.resume, Release.replied]⟩
    | @reread hd =>
      obtain ⟨hgone, -⟩ := hclear _ htalk hwatched
      rw [hstored rfl]
      refine ⟨?_, ?_⟩
      · rw [Release.handle_resume]
        exact hgone
      · have hother : w.server.node.value? w.now w.key ≠ some hd.token.bytes := hgone
        simp [Release.resume, Release.replied, hother]

theorem Releasing.step (hr : w.Releasing) (h : w.Sound start) (h' : w'.Sound start)
    (hstep : w.Stepped move w') : w'.Releasing := by
  refine ⟨?_, ?_, ?_, ?_⟩
  · intro id p' r hp ht hwatched
    rw [hstep.key] at hwatched
    rcases hstep.party_cases hp with ⟨p, hold, htalk, hloan⟩ | ⟨-, hempty⟩ | ⟨p, o, heard, hcall⟩
    · rw [ht] at htalk
      rw [hloan] at hwatched
      obtain ⟨hgone, hphase⟩ := hr.clear hold htalk.symm hwatched
      have hknown := (h.parties id p hold).told.known r htalk.symm
      exact ⟨hstep.gone h h' hknown hgone, hphase⟩
    · rw [hempty] at hwatched
      cases hwatched
    · rw [ht] at heard hcall
      exact heard.clear hr hcall hwatched
  · intro id p' hd r hp hmem
    by_cases hold : .released id hd r ∈ w.history
    · rcases hstep.party_cases hp with ⟨p, hparty, -⟩ | ⟨rfl, -⟩ | ⟨p, o, heard, -⟩
      · exact hr.pending hparty hold
      · exact absurd (hr.past hold) (Nat.lt_irrefl _)
      · exact hr.pending heard.party hold
    · obtain ⟨-, -, hnone, -⟩ := hstep.released hmem hold
      rw [hp] at hnone
      cases hnone
  · intro id hd r hmem
    by_cases hold : .released id hd r ∈ w.history
    · exact Nat.lt_of_lt_of_le (hr.past hold) hstep.nextId_le
    · obtain ⟨-, ⟨p, -, hp, -⟩, -, hnext, -⟩ := hstep.released hmem hold
      rw [hnext]
      exact h.ids id p hp
  · intro id hd hd' r r' hmem hmem'
    -- A result that is new is the only one of its party, which had none while it was at its talk.
    by_cases hold : .released id hd r ∈ w.history
    · by_cases hold' : .released id hd' r' ∈ w.history
      · exact hr.once hold hold'
      · obtain ⟨-, ⟨p, -, hp, -⟩, -⟩ := hstep.released hmem' hold'
        exact absurd hold (hr.pending hp)
    · obtain ⟨-, ⟨p, -, hp, -⟩, -, -, honly⟩ := hstep.released hmem hold
      rcases honly id hd' r' hmem' with hold' | ⟨-, rfl, rfl⟩
      · exact absurd hold' (hr.pending hp)
      · exact ⟨rfl, rfl⟩

end World

theorem Reachable.releasing {s w : World} (hs : Start s) (h : Reachable s w) : w.Releasing := by
  induction h with
  | refl => exact .begin hs
  | step hw m hm ih =>
    have hsound := hw.sound hs
    exact ih.step hsound (hsound.act m hm) (hsound.stepped hm)

theorem Reachable.history {w u : World} {start : Option Bytes} (hs : w.Sound start)
    (h : Reachable w u) : ∃ new, u.history = new ++ w.history := by
  have hboth : u.Sound start ∧ ∃ new, u.history = new ++ w.history := by
    induction h with
    | refl => exact ⟨hs, [], rfl⟩
    | step _ m hm ih =>
      obtain ⟨hsound, new, hnew⟩ := ih
      obtain ⟨late, hlate⟩ := (hsound.stepped hm).history
      exact ⟨hsound.act m hm, late ++ new, by rw [hlate, hnew, List.append_assoc]⟩
  exact hboth.2

/-- A transaction of a release that runs finds the release's own token. -/
theorem World.Releasing.stored {w : World} {start : Option Bytes} (hr : w.Releasing)
    (h : w.Sound start) {id : Nat} {p : Party} {hd : Handle} (hp : w.parties.get? id = some p)
    (ht : p.talk = .release ⟨hd, .deleting⟩)
    (hu : p.loan.conn.isUntouched w.server.node w.now = true) :
    w.stored = some hd.token.bytes := by
  have hwatch := (h.parties id p hp).watch
  rw [ht] at hwatch
  obtain ⟨v, hwatched, hv⟩ := hwatch.on rfl
  cases v with
  | none => exact absurd rfl (hr.clear hp ht hwatched).2
  | some x =>
    have hversion : w.server.node.version? w.now w.key = some x := by
      simpa [Connection.isUntouched, hwatched] using hu
    exact (hv x rfl).2 _ rfl hversion

/-- A release that is told that its transaction ran has deleted the key; else it has only looked. -/
theorem Answers.release_cases {key : Bytes} {n n' : Node} {now : Nat} {c c' : Connection}
    {r : Release} {o : Outcome} (h : Answers key n now c (.release r) n' c' o) :
    (n' = n ∧ (r.resume o).phase ≠ .over (.ok true)) ∨
      (r = ⟨r.handle, .deleting⟩ ∧ c.isUntouched n now = true ∧ n' = n.delete key ∧
        r.resume o = ⟨r.handle, .over (.ok true)⟩) := by
  cases h with
  | freed _ untouched => exact .inr ⟨rfl, untouched, rfl, rfl⟩
  | failed | rewatched | kept | missed =>
    exact .inl ⟨rfl, by simp [Release.resume, Release.replied, Release.finish]⟩
  | reread =>
    refine .inl ⟨rfl, ?_⟩
    simp only [Release.resume, Release.replied]
    split <;> simp

/-- A move of a release leaves the data as they are, or it is the end of the release, which deletes
the key while its own token stands there. -/
theorem release_step {w w' : World} {start : Option Bytes} (hr : w.Releasing) (h : w.Sound start)
    {move : Move} (hstep : w.Stepped move w') {id : Nat} (hactor : move.actor? = some id)
    {p : Party} {r : Release} (hp : w.parties.get? id = some p) (ht : p.talk = .release r) :
    (w'.server.node = w.server.node ∧ .released id r.handle (.ok true) ∉ w'.history) ∨
      (r = ⟨r.handle, .deleting⟩ ∧ w.stored = some r.handle.token.bytes ∧
        w'.server.node = w.server.node.delete w.key ∧
        .released id r.handle (.ok true) ∈ w'.history) := by
  have hpending : .released id r.handle (.ok true) ∉ w.history := hr.pending hp
  have hnew : .released id r.handle (.ok true) ∈ w'.history → w'.parties.get? id = none := by
    intro hmem
    obtain ⟨-, -, hnone, -⟩ := hstep.released hmem hpending
    exact hnone
  cases hstep with
  | passed _ nobody | joined nobody => rw [nobody] at hactor; cases hactor
  | waits => exact .inl ⟨rfl, hpending⟩
  | dropped => exact .inl ⟨by simp, by simpa using hpending⟩
  | @goes _ j q p' o _ _ actor heard active draws hhistory parties =>
    obtain rfl : j = id := Option.some.inj (actor.symm.trans hactor)
    obtain rfl : q = p := Option.some.inj (heard.party.symm.trans hp)
    obtain ⟨m, hresume⟩ := heard.resumed
    have hanswers := heard.answers
    rw [ht] at hresume hanswers
    rcases hanswers.release_cases with ⟨hnode, -⟩ | ⟨-, -, -, hover⟩
    · refine .inl ⟨hnode, ?_⟩
      intro hmem
      have hnone := hnew hmem
      rw [parties] at hnone
      cases hnone
    · rw [hresume, Talk.resume, hover] at active
      exact absurd rfl active
  | @ends _ j q talk c o _ actor heard ended hhistory parties =>
    obtain rfl : j = id := Option.some.inj (actor.symm.trans hactor)
    obtain rfl : q = p := Option.some.inj (heard.party.symm.trans hp)
    obtain ⟨m, rfl⟩ := heard.resumed
    have hanswers := heard.answers
    rw [ht] at hanswers
    rcases hanswers.release_cases with ⟨hnode, hphase⟩ | ⟨hr', hu, hnode, hover⟩
    · refine .inl ⟨hnode, ?_⟩
      intro hmem
      rw [hhistory] at hmem
      rcases List.mem_append.mp hmem with he | he
      · rw [Option.mem_toList, ht] at he
        obtain ⟨-, hrel⟩ := Talk.report?_released he
        have hover : r.resume o = ⟨r.handle, .over (.ok true)⟩ := Talk.release.inj hrel
        rw [hover] at hphase
        exact hphase rfl
      · rcases List.mem_append.mp he with he | he
        · exact Party.released_notMem_deed? he
        · exact hpending he
    · refine .inr ⟨hr', ?_, hnode, ?_⟩
      · exact hr.stored h hp (ht.trans (congrArg Talk.release hr')) hu
      · rw [hhistory, ht, Talk.resume, hover]
        exact List.mem_cons_self

/-- A handle of another lock is turned away, and the store is not asked. -/
theorem startRelease_foreign (d : Deployment) {l : PlacedLock} {hd : Handle}
    (h : hd.key ≠ l.lock.key) : ∃ talk, d.startRelease l hd = (d, .over talk) ∧
      talk.released = .ok false ∧ d.stepErrand (.over talk) = none := by
  refine ⟨.release { handle := hd, phase := .over (.ok false) }, ?_, rfl, rfl⟩
  simp only [Deployment.startRelease, if_neg h]

/-- A release takes its own token from under the key and nothing else, at the move that tells its
caller so; a release that is told no has left the data as they are at every move. -/
theorem release_takes_own_token {s w : World} (hs : Start s) (hw : Reachable s w) :
    (∀ hd idle w', w.act (.release hd idle) = some w' → w'.server = w.server) ∧
    (∀ move w' id p r, w.act move = some w' → move.actor? = some id →
      w.parties.get? id = some p → p.talk = .release r →
        (w'.server.node = w.server.node ∨ w.stored = some r.handle.token.bytes ∧
          w'.server.node = w.server.node.delete w.key ∧
          .released id r.handle (.ok true) ∈ w'.history) ∧
        ∀ u hd, Reachable w' u → .released id hd (.ok false) ∈ u.history →
          w'.server.node = w.server.node) ∧
    (∀ move w' id hd, w.act move = some w' → .released id hd (.ok true) ∈ w'.history →
      .released id hd (.ok true) ∉ w.history → move.actor? = some id ∧
        (∃ p, w.parties.get? id = some p ∧ p.talk = .release ⟨hd, .deleting⟩) ∧
        w.stored = some hd.token.bytes ∧ w'.server.node = w.server.node.delete w.key) ∧
    ∀ (d : Deployment) (l : PlacedLock) (hd : Handle), hd.key ≠ l.lock.key →
      ∃ talk, d.startRelease l hd = (d, .over talk) ∧ talk.released = .ok false ∧
        d.stepErrand (.over talk) = none := by
  have hsound := hw.sound hs
  have hreleasing := hw.releasing hs
  refine ⟨?_, ?_, ?_, fun d l hd => startRelease_foreign d⟩
  · intro hd idle w' hm
    simp only [World.act, Option.ite_none_right_eq_some] at hm
    exact World.join_server (w := { w with handles := w.handles.erase hd }) hsound.idle hm.2
  · intro move w' id p r hm hactor hp ht
    have hstep := release_step hreleasing hsound (hsound.stepped hm) hactor hp ht
    refine ⟨?_, ?_⟩
    · rcases hstep with ⟨hnode, -⟩ | ⟨-, hstored, hnode, htold⟩
      · exact .inl hnode
      · exact .inr ⟨hstored, hnode, htold⟩
    · intro u hd hlater hno
      rcases hstep with ⟨hnode, -⟩ | ⟨-, -, -, htold⟩
      · exact hnode
      · have hw' : Reachable s w' := .step hw move hm
        obtain ⟨new, hnew⟩ := hlater.history (hw'.sound hs)
        have hyes : .released id r.handle (.ok true) ∈ u.history := by
          rw [hnew]
          exact List.mem_append_right _ htold
        obtain ⟨-, hsame⟩ := ((hw'.trans hlater).releasing hs).once hyes hno
        cases hsame
  · intro move w' id hd hm htold hn
    have hstepped := hsound.stepped hm
    obtain ⟨hactor, ⟨p, r, hp, ht, rfl⟩, -⟩ := hstepped.released htold hn
    rcases release_step hreleasing hsound hstepped hactor hp ht with
      ⟨-, hno⟩ | ⟨hr, hstored, hnode, -⟩
    · exact absurd htold hno
    · exact ⟨hactor, ⟨p, hp, ht.trans (congrArg Talk.release hr)⟩, hstored, hnode⟩

/-- A party takes the lock, and its release has read the token. -/
def releasing : List Move :=
  [.attempt { hold := 1 } none 0, .call 0 0, .call 0 0,
    .release ⟨(World.empty "L").key, ⟨0, 1000⟩⟩ none, .call 1 0, .call 1 0]

theorem release_takes_own_token_held : ∃ w w', (World.empty "L").run releasing = some w ∧
    w.act (.call 1 0) = some w' ∧ w.stored = some (Token.bytes ⟨0, 1000⟩) ∧
    w'.server.node = w.server.node.delete w.key := by
  have h : ((World.empty "L").run releasing).any (fun w => (w.act (.call 1 0)).any (fun w' =>
      .released 1 ⟨(World.empty "L").key, ⟨0, 1000⟩⟩ (.ok true) ∈ w'.history ∧
      .released 1 ⟨(World.empty "L").key, ⟨0, 1000⟩⟩ (.ok true) ∉ w.history)) = true := by
    decide +kernel
  obtain ⟨w, hw, hact⟩ := (Option.any_eq_true _ _).mp h
  obtain ⟨w', hm, hends⟩ := (Option.any_eq_true _ _).mp hact
  obtain ⟨htold, hn⟩ := of_decide_eq_true hends
  have hown := release_takes_own_token (start_empty "L") (World.run_reachable hw)
  obtain ⟨-, -, hstored, hnode⟩ := hown.2.2.1 _ w' 1 _ hm htold hn
  exact ⟨w, w', hw, hm, hstored, hnode⟩

end Holdfast.Contention
