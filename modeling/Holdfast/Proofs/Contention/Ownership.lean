import Holdfast.Proofs.Contention.Reachable

namespace Holdfast.Contention

open Store Lock Memory

/-- As long as the party that wrote a token is at its attempt nobody releases the token, so it
goes by a takeover after its expiry or with its time to live. -/
theorem Trace.removal_of_present {old : List Bytes} {start v : Option Bytes} {es : List Event}
    (h : Trace old start es v) {id : Nat} {t : Token} (hd : .drew id t ∈ es)
    (hp : Present id es) {x : Event} (hx : x ∈ es) (hr : x.removed? = some t.bytes) :
    x = .lapsed t.bytes ∨ ∃ i t' judged, x = .seized i t' t.bytes judged (some t.bytes) ∧
      t.expiry.toNat < judged := by
  obtain ⟨post, pre, u, w, rfl, -, n⟩ := h.before_of_mem hx
  rcases n.removal hr with ⟨i, t', judged, rfl, hstale⟩ | ⟨i, hand, rfl, heq, hknown⟩ | rfl
  · exact .inr ⟨i, t', judged, rfl, expiry_lt_of_isStale hstale⟩
  · obtain rfl := Token.bytes_inj.mp heq
    rcases hknown with hold | ⟨j, hret⟩
    · exact absurd hold (h.drew_new hd)
    · have hmem : .returned j (.ok (some hand)) ∈ post ++ .freed i hand (some hand.token.bytes) ::
          pre := List.mem_append_right _ (List.mem_cons_of_mem _ hret)
      obtain rfl := h.wrote_unique hd (h.wrote_of_won hmem)
      exact absurd hmem (hp _)
  · exact .inl rfl

/-- Between the creation of the key with a token and now somebody has judged the token expired and
replaced it, or the time to live of the key ran out. -/
def Overtaken (id : Nat) (t : Token) (w : World) : Prop :=
  ∃ post pre x, w.history = post ++ .created id t :: pre ∧ x ∈ post ∧
    (x = .lapsed t.bytes ∨ ∃ i t' judged, x = .seized i t' t.bytes judged (some t.bytes) ∧
      t.expiry.toNat < judged ∧ judged ≤ w.clock)

theorem stored_iff_not_overtaken {start : Option Bytes} {w : World} (h : w.Sound start)
    {id : Nat} {p : Party} (hp : w.parties.get? id = some p) {t : Token}
    (hsent : p.talk.sent? = some t) : w.stored = some t.bytes ↔ ¬ Overtaken id t w := by
  have htold := (h.parties id p hp).told
  have hc := (htold.created t).mpr hsent
  have hd := h.trace.drew_of_wrote (.of_created hc)
  constructor
  · rintro hv ⟨post, pre, x, hsplit, hx, hremoves⟩
    have htrace := h.trace
    rw [hv, hsplit] at htrace
    have hkeep := (htrace.stored_iff h.origin rfl).mp rfl x hx
    rcases hremoves with rfl | ⟨i, t', judged, rfl, -⟩
    · exact hkeep rfl
    · exact hkeep rfl
  · intro hnot
    obtain ⟨post, pre, hsplit⟩ := List.append_of_mem hc
    have htrace := h.trace
    rw [hsplit] at htrace
    refine (htrace.stored_iff h.origin rfl).mpr ?_
    intro x hx hr
    have hmem : x ∈ w.history := by rw [hsplit]; exact List.mem_append_left _ hx
    refine hnot ⟨post, pre, x, hsplit, hx, ?_⟩
    rcases h.trace.removal_of_present hd htold.present hmem hr with
      rfl | ⟨i, t', judged, rfl, hexpired⟩
    · exact .inl rfl
    · exact .inr ⟨i, t', judged, rfl, hexpired, h.judged i t' _ judged _ hmem⟩

/-- To give a key a time to live is to give it to the value that stands there. -/
theorem live?_expire_iff {n : Node} {now : Nat} {key value : Bytes} {seconds : Nat}
    (hs : 0 < seconds) :
    (∃ x, (n.expire now key seconds).1.live? now key =
      some ⟨value, x, some (now + seconds * 1000)⟩) ↔ n.value? now key = some value := by
  constructor
  · rintro ⟨x, hx⟩
    rw [← n.value?_expire_self now key hs, Node.value?, hx]
    rfl
  · intro hv
    obtain ⟨e, he, rfl⟩ := Option.map_eq_some_iff.mp hv
    exact ⟨n.version + 1, Node.live?_expire_self he hs⟩

/-- When an attempt brings a handle, the handle's token stands under the key with the time to live
that the attempt has just given it, unless the token was overtaken after its creation. -/
theorem returned_handle_owns {s w w' : World} (hs : Start s) (hw : Reachable s w) {move : Move}
    (hm : w.act move = some w') {id : Nat} {hand : Handle}
    (hr : .returned id (.ok (some hand)) ∈ w'.history)
    (hn : .returned id (.ok (some hand)) ∉ w.history) :
    ∃ p a, w.parties.get? id = some p ∧ p.talk = .attempt a ∧ hand.key = w.key ∧
      ((∃ x, w'.server.node.live? w'.now w'.key =
        some ⟨hand.token.bytes, x, some (w'.now + a.lock.hold * 1000)⟩) ↔
          ¬ Overtaken id hand.token w) := by
  have hsound := hw.sound hs
  obtain ⟨p, a, m, o, hends⟩ := hsound.ends hm hr hn
  obtain ⟨c, hans⟩ := hends.answers
  have hparty := hsound.parties id p hends.party
  have hover := hends.ended
  have hhold : 0 < a.lock.hold := by
    have habout := hparty.about
    rw [hends.talk] at habout
    exact habout.2
  have hkey : a.lock.key = w.key := by
    have habout := hparty.about
    rw [hends.talk] at habout
    exact habout.1
  refine ⟨p, a, hends.party, hends.talk, ?_⟩
  rw [hends.now, hends.key]
  rw [hends.talk] at hans
  generalize w'.server.node = n' at hans ⊢
  cases hans with
  | expired =>
    cases hover
    refine ⟨hkey, ?_⟩
    rw [live?_expire_iff hhold]
    refine stored_iff_not_overtaken hsound hends.party ?_
    rw [hends.talk]
    rfl
  | @seized l k t seen es kept =>
    have hwon : (if Attempt.tookOver seen (some (.previous (w.server.node.value? w.now w.key) :: es))
        then some (l.handle t) else none) = some hand := Except.ok.inj (Attempt.Phase.over.inj hover)
    simp only [Option.ite_none_right_eq_some, Option.some.injEq] at hwon
    obtain ⟨-, rfl⟩ := hwon
    refine ⟨hkey, ?_⟩
    rw [live?_expire_iff hhold]
    refine iff_of_true (Node.value?_put_self ..) ?_
    rintro ⟨post, pre, x, hsplit, -⟩
    have hsent := (hparty.told.created t).mp (by rw [hsplit]; simp [Lock.handle])
    rw [hends.talk] at hsent
    cases hsent
  | @retried l k => cases k <;> cases hover
  | read => exact absurd hover (Attempt.phase_read _ _ m _ _)
  | failed | created | taken | watched | yielded | aborted => cases hover

theorem returned_handle_owns_created : ∃ (w w' : World) (a : Attempt) (x : Nat),
    (World.empty "L").run [.attempt { hold := 5 } none 0, .call 0 0] = some w ∧
    w.act (.call 0 0) = some w' ∧ w'.server.node.live? w'.now w'.key =
      some ⟨Token.bytes ⟨0, 5000⟩, x, some (w'.now + a.lock.hold * 1000)⟩ := by
  have h : ((World.empty "L").run [.attempt { hold := 5 } none 0, .call 0 0]).any (fun w =>
      w.history = [.created 0 ⟨0, 5000⟩, .drew 0 ⟨0, 5000⟩] ∧
      (w.act (.call 0 0)).any (fun w' =>
        .returned 0 (.ok (some ⟨w.key, ⟨0, 5000⟩⟩)) ∈ w'.history)) = true := by decide +kernel
  obtain ⟨w, hw, hp⟩ := (Option.any_eq_true _ _).mp h
  obtain ⟨hhistory, hact⟩ := of_decide_eq_true hp
  obtain ⟨w', hm, hr⟩ := (Option.any_eq_true _ _).mp hact
  have hn : .returned 0 (.ok (some ⟨w.key, ⟨0, 5000⟩⟩)) ∉ w.history := by simp [hhistory]
  obtain ⟨p, a, -, -, -, howns⟩ := returned_handle_owns (start_empty "L")
    (World.run_reachable hw) hm (of_decide_eq_true hr) hn
  have hnot : ¬ Overtaken 0 ⟨0, 5000⟩ w := by
    rintro ⟨post, pre, y, hsplit, hy, -⟩
    rw [hhistory] at hsplit
    rcases post with _ | ⟨e, _ | ⟨e', post⟩⟩
    · cases hy
    · simp at hsplit
    · simp at hsplit
  obtain ⟨x, hx⟩ := howns.mpr hnot
  exact ⟨w, w', a, x, hw, hm, hx⟩

/-- The clock passes the first token's expiry between its creation and the call that gives the key a
time to live, and a second party takes the lock over meanwhile. -/
def overtaking : List Move :=
  [.attempt { hold := 5 } none 0, .call 0 0, .tick 6000, .attempt { hold := 1 } none 1, .call 1 0,
    .call 1 0, .call 1 2, .call 1 0, .call 0 0]

/-- A handle may come when the lock is already another's, whose key it has just given five more
seconds. -/
theorem returned_handle_overtaken : ∃ w, (World.empty "L").run overtaking = some w ∧
    w.history.head? = some (.returned 0 (.ok (some ⟨w.key, ⟨0, 5000⟩⟩))) ∧
    (w.server.node.live? w.now w.key).any (fun e =>
      e.value = Token.bytes ⟨2, 7000⟩ ∧ e.expiresAt = some 5000) = true := by
  have h : ((World.empty "L").run overtaking).any (fun w =>
      w.history.head? = some (.returned 0 (.ok (some ⟨w.key, ⟨0, 5000⟩⟩))) ∧
      (w.server.node.live? w.now w.key).any (fun e =>
        e.value = Token.bytes ⟨2, 7000⟩ ∧ e.expiresAt = some 5000) = true) = true := by
    decide +kernel
  obtain ⟨w, hw, hp⟩ := (Option.any_eq_true _ _).mp h
  exact ⟨w, hw, of_decide_eq_true hp⟩

end Holdfast.Contention
