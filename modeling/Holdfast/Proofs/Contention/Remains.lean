import Holdfast.Proofs.Contention.Reachable

namespace Holdfast.Contention

open Store Lock Memory

/-- A lost attempt leaves a token of its own behind exactly if it wrote it by a transaction after
what it had read was gone, and then only as long as nobody removes it. -/
theorem lost_attempt_remains {s w : World} (hs : Start s) (hw : Reachable s w) {id : Nat}
    {t : Token} (hr : .returned id (.ok none) ∈ w.history) (hd : .drew id t ∈ w.history) :
    w.stored = some t.bytes ↔
      ∃ post pre seen judged, w.history = post ++ .seized id t seen judged none :: pre ∧
        ∀ x ∈ post, x.removed? ≠ some t.bytes := by
  have hsound := hw.sound hs
  rw [hsound.trace.stands_iff hsound.origin hd]
  constructor
  · rintro ⟨post, pre, e, hsplit, hwrites, hkeep⟩
    have hmem : e ∈ w.history := by simp [hsplit]
    obtain ⟨seen, judged, rfl⟩ := hsound.trace.seized_of_lost hr hmem hwrites
    exact ⟨post, pre, seen, judged, hsplit, hkeep⟩
  · rintro ⟨post, pre, seen, judged, hsplit, hkeep⟩
    exact ⟨post, pre, _, hsplit, rfl, hkeep⟩

/-- A party waits while the lock is released and taken, reads the second token, judges it stale and
has its transaction run after the second release. -/
def orphaning : List Move :=
  [.attempt { hold := 1 } none 0, .call 0 0, .call 0 0, .attempt { hold := 1 } none 1, .call 1 0,
    .release ⟨(World.empty "L").key, ⟨0, 1000⟩⟩ none, .call 2 0, .call 2 0, .call 2 0, .call 1 0,
    .attempt { hold := 1 } none 2, .call 3 0, .call 3 0, .tick 2000, .call 1 3,
    .release ⟨(World.empty "L").key, ⟨2, 1000⟩⟩ none, .call 4 0, .call 4 0, .call 4 0, .call 1 0]

theorem orphaning_runs : ∃ w, (World.empty "L").run orphaning = some w ∧
    .returned 1 (.ok none) ∈ w.history ∧ .drew 1 ⟨3, 3000⟩ ∈ w.history ∧
    w.stored = some (Token.bytes ⟨3, 3000⟩) := by
  have h : ((World.empty "L").run orphaning).any (fun w => .returned 1 (.ok none) ∈ w.history ∧
      .drew 1 ⟨3, 3000⟩ ∈ w.history ∧ w.stored = some (Token.bytes ⟨3, 3000⟩)) = true := by
    decide +kernel
  obtain ⟨w, hw, hp⟩ := (Option.any_eq_true _ _).mp h
  exact ⟨w, hw, of_decide_eq_true hp⟩

theorem lost_attempt_remains_orphan : ∃ w, (World.empty "L").run orphaning = some w ∧
    ∃ post pre seen judged, w.history = post ++ .seized 1 ⟨3, 3000⟩ seen judged none :: pre ∧
      ∀ x ∈ post, x.removed? ≠ some (Token.bytes ⟨3, 3000⟩) := by
  obtain ⟨w, hw, hr, hd, hv⟩ := orphaning_runs
  exact ⟨w, hw,
    (lost_attempt_remains (start_empty "L") (World.run_reachable hw) hr hd).mp hv⟩

/-- No call fails, no party is dropped and the store is not cut off. -/
def Move.isSmooth : Move → Bool
  | .reach _ | .fail .. | .drop _ => false
  | _ => true

/-- Even so an attempt may lose and leave its token under the key. -/
theorem lost_attempt_orphans : ¬ ∀ (ms : List Move) (w : World) (id : Nat) (t : Token),
    ms.all Move.isSmooth → (World.empty "L").run ms = some w →
      .returned id (.ok none) ∈ w.history → .drew id t ∈ w.history →
        w.stored ≠ some t.bytes := by
  intro h
  obtain ⟨w, hw, hr, hd, hv⟩ := orphaning_runs
  exact h orphaning w 1 ⟨3, 3000⟩ rfl hw hr hd hv

theorem Answers.of_failed {key : Bytes} {n n' : Node} {now : Nat} {c c' : Connection}
    {a : Attempt} {o : Outcome} (h : Answers key n now c (.attempt a) n' c' o) {m : Moment}
    {f : Failure} (hover : (a.resume m o).phase = .over (.error f)) :
    n' = n ∧ ∃ g, o = .error g := by
  cases h with
  | failed => exact ⟨rfl, _, rfl⟩
  | @retried l k => cases k <;> cases hover
  | read => exact absurd hover (Attempt.phase_read _ _ m _ _)
  | created | taken | expired | watched | yielded | seized | aborted => cases hover

/-- A failed attempt leaves a token of its own behind exactly if what failed was to give a time to
live to the key that it had created, and then only as long as nobody removes it. -/
theorem failed_attempt_remains {s w : World} (hs : Start s) (hw : Reachable s w) {id : Nat}
    {f : Failure} {t : Token} :
    (∀ move w', w.act move = some w' → .returned id (.error f) ∈ w'.history →
      .returned id (.error f) ∉ w.history →
      (.drew id t ∈ w'.history ∧ w'.stored = some t.bytes ↔
        ∃ p, w.parties.get? id = some p ∧ p.talk.sent? = some t ∧ w.stored = some t.bytes)) ∧
    (.returned id (.error f) ∈ w.history → .drew id t ∈ w.history →
      (w.stored = some t.bytes ↔ ∃ post pre, w.history = post ++ .created id t :: pre ∧
        ∀ x ∈ post, x.removed? ≠ some t.bytes)) := by
  have hsound := hw.sound hs
  have htrace := hsound.trace
  refine ⟨?_, ?_⟩
  · intro move w' hm hr hn
    obtain ⟨p, a, m, o, hends⟩ := hsound.ends hm hr hn
    obtain ⟨c, hans⟩ := hends.answers
    have htold := (hsound.parties id p hends.party).told
    rw [hends.talk] at hans
    obtain ⟨hnode, g, rfl⟩ := hans.of_failed hends.ended
    have hstored : w'.stored = w.stored := by
      unfold World.stored
      rw [hnode, hends.now, hends.key]
    have hdrew : .drew id t ∈ w'.history ↔ .drew id t ∈ w.history := by
      simp [hends.history]
    rw [hstored, hdrew]
    constructor
    · rintro ⟨hd, hv⟩
      rw [hv] at htrace
      have hwrote := htrace.wrote_of_stored hsound.origin hd
      rcases wrote_iff.mp hwrote with hc | ⟨seen, judged, u, hz⟩
      · exact ⟨p, hends.party, (htold.created t).mp hc, hv⟩
      · exact absurd hz (htold.seized t seen judged u)
    · rintro ⟨q, hq, hsent, hv⟩
      obtain rfl := Option.some.inj (hends.party.symm.trans hq)
      have hc := (htold.created t).mpr hsent
      exact ⟨htrace.drew_of_wrote (.of_created hc), hv⟩
  · intro hr hd
    rw [htrace.stands_iff hsound.origin hd]
    constructor
    · rintro ⟨post, pre, e, hsplit, hwrites, hkeep⟩
      have hmem : e ∈ w.history := by simp [hsplit]
      obtain rfl := htrace.created_of_failed hr hmem hwrites
      exact ⟨post, pre, hsplit, hkeep⟩
    · rintro ⟨post, pre, hsplit, hkeep⟩
      exact ⟨post, pre, _, hsplit, rfl, hkeep⟩

/-- A party creates the key and the store is cut off. -/
def creating : List Move := [.attempt { hold := 1 } none 0, .call 0 0, .reach false]

theorem failed_attempt_remains_created : ∃ w w', (World.empty "L").run creating = some w ∧
    w.act (.call 0 0) = some w' ∧ .drew 0 ⟨0, 1000⟩ ∈ w'.history ∧
    w'.stored = some (Token.bytes ⟨0, 1000⟩) := by
  have h : ((World.empty "L").run creating).any (fun w =>
      (w.parties.get? 0).any (fun p => p.talk.sent? = some ⟨0, 1000⟩) ∧
      w.stored = some (Token.bytes ⟨0, 1000⟩) ∧ (w.act (.call 0 0)).any (fun w' =>
        .returned 0 (.error (.unreachable w.endpoint)) ∈ w'.history ∧
        .returned 0 (.error (.unreachable w.endpoint)) ∉ w.history)) = true := by decide +kernel
  obtain ⟨w, hw, hp⟩ := (Option.any_eq_true _ _).mp h
  obtain ⟨hparty, hstored, hact⟩ := of_decide_eq_true hp
  obtain ⟨p, hget, hsent⟩ := (Option.any_eq_true _ _).mp hparty
  obtain ⟨w', hm, hends⟩ := (Option.any_eq_true _ _).mp hact
  obtain ⟨hr, hn⟩ := of_decide_eq_true hends
  exact ⟨w, w', hw, hm,
    ((failed_attempt_remains (start_empty "L") (World.run_reachable hw)).1 _ w' hm hr hn).mpr
      ⟨p, hget, of_decide_eq_true hsent, hstored⟩⟩

/-- After the failure the next attempt finds the lock held, by nobody. -/
def blocking : List Move :=
  [.attempt { hold := 1 } none 0, .call 0 0, .reach false, .call 0 0, .reach true,
    .attempt { hold := 1 } none 1, .call 1 0, .call 1 0, .call 1 0, .call 1 0]

theorem failed_attempt_blocks : ∃ w f, (World.empty "L").run blocking = some w ∧
    .returned 0 (.error f) ∈ w.history ∧ .drew 0 ⟨0, 1000⟩ ∈ w.history ∧
    w.stored = some (Token.bytes ⟨0, 1000⟩) ∧ .returned 1 (.ok none) ∈ w.history ∧
    w.handles = [] := by
  have h : ((World.empty "L").run blocking).any (fun w =>
      .returned 0 (.error (.unreachable w.endpoint)) ∈ w.history ∧
      .drew 0 ⟨0, 1000⟩ ∈ w.history ∧ w.stored = some (Token.bytes ⟨0, 1000⟩) ∧
      .returned 1 (.ok none) ∈ w.history ∧ w.handles = []) = true := by decide +kernel
  obtain ⟨w, hw, hp⟩ := (Option.any_eq_true _ _).mp h
  exact ⟨w, _, hw, of_decide_eq_true hp⟩

end Holdfast.Contention
