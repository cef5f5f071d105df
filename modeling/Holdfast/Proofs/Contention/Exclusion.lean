import Holdfast.Proofs.Contention.Reachable

namespace Holdfast.Contention

open Store Lock

variable {old : List Bytes} {start v : Option Bytes}

/-- Before the lock is won again, what the winner before has written goes. -/
theorem Trace.removed_between {post mid pre : List Event} {e₁ e₂ : Event} {t₁ t₂ : Token}
    (h : Trace old start (post ++ e₂ :: (mid ++ e₁ :: pre)) v) (h₁ : e₁.won? = some t₁)
    (h₂ : e₂.won? = some t₂) : ∃ x ∈ e₂ :: mid, x.removed? = some t₁.bytes := by
  obtain ⟨u₂, w₂, tr₂, n₂⟩ := h.before
  obtain ⟨u₁, w₁, tr₁, n₁⟩ := tr₂.before
  obtain ⟨id, hwrites⟩ := Event.writes_of_won h₁
  obtain ⟨-, -, rfl⟩ := n₁.of_writes hwrites
  rcases (tr₁.next n₁).stays tr₂ with hu | ⟨x, hx, hr⟩
  · cases n₂ with
    | created absent =>
      rw [absent] at hu
      cases hu
    | seized => exact ⟨_, List.mem_cons_self, hu⟩
    | _ => cases h₂
  · exact ⟨x, List.mem_cons_of_mem _ hx, hr⟩

/-- Unless its time to live ran out, a token goes by a release of its handle or by a takeover
after its expiry. -/
theorem Trace.removal {es : List Event} (h : Trace old start es v)
    (hlapsed : ∀ b, .lapsed b ∉ es) {x : Event} (hx : x ∈ es) {t : Token}
    (hr : x.removed? = some t.bytes) :
    (∃ id hd, x = .freed id hd (some t.bytes) ∧ hd.token = t) ∨
    ∃ id t' judged, x = .seized id t' t.bytes judged (some t.bytes) ∧
      t.expiry.toNat < judged := by
  obtain ⟨post, pre, u, w, rfl, -, n⟩ := h.before_of_mem hx
  rcases n.removal hr with ⟨id, t', judged, rfl, hstale⟩ | ⟨id, hd, rfl, heq, -⟩ | rfl
  · exact .inr ⟨id, t', judged, rfl, expiry_lt_of_isStale hstale⟩
  · exact .inl ⟨id, hd, rfl, Token.bytes_inj.mp heq⟩
  · exact absurd hx (hlapsed t.bytes)

/-- Between two wins the first winner releases the lock, or somebody has seen the first token when
the wall clock was past its expiry and replaces it. No value is taken from the key twice, so of
all that find a stale one at most one takes the lock over. -/
theorem mutual_exclusion {s w : World} (hs : Start s) (hw : Reachable s w)
    (hlapsed : ∀ b, .lapsed b ∉ w.history) {post mid pre : List Event} {e₁ e₂ : Event}
    (hsplit : w.history = post ++ e₂ :: (mid ++ e₁ :: pre)) :
    (∀ t₁ t₂, e₁.won? = some t₁ → e₂.won? = some t₂ →
      (∃ id hd, .freed id hd (some t₁.bytes) ∈ mid ∧ hd.token = t₁) ∨
      ∃ id t judged, .seized id t t₁.bytes judged (some t₁.bytes) ∈ e₂ :: mid ∧
        t₁.expiry.toNat < judged ∧ judged ≤ w.clock) ∧
    ∀ b, e₁.removed? = some b → e₂.removed? ≠ some b := by
  have hsound := hw.sound hs
  have htrace := hsound.trace
  rw [hsplit] at htrace
  refine ⟨?_, ?_⟩
  · intro t₁ t₂ h₁ h₂
    obtain ⟨x, hx, hr⟩ := htrace.removed_between h₁ h₂
    have hmem : x ∈ w.history := by
      rw [hsplit]
      refine List.mem_append_right post ?_
      rcases List.mem_cons.mp hx with rfl | hx
      · exact List.mem_cons_self
      · exact List.mem_cons_of_mem _ (List.mem_append_left _ hx)
    rcases hsound.trace.removal hlapsed hmem hr with
      ⟨id, hd, rfl, htoken⟩ | ⟨id, t, judged, rfl, hexpired⟩
    · left
      rcases List.mem_cons.mp hx with rfl | hx
      · cases h₂
      · exact ⟨id, hd, hx, htoken⟩
    · exact .inr ⟨id, t, judged, hx, hexpired, hsound.judged id t _ judged _ hmem⟩
  · intro b h₁
    exact htrace.removed_once hsound.origin h₁

/-- One party wins the lock, and when its second is over another takes it over. -/
def takeover : List Move :=
  [.attempt { hold := 1 } none 0, .call 0 0, .call 0 0, .tick 2000,
    .attempt { hold := 1 } none 1, .call 1 0, .call 1 0, .call 1 2, .call 1 0]

theorem mutual_exclusion_takeover : ∃ w, (World.empty "L").run takeover = some w ∧
    ∃ id t judged, .seized id t (Token.bytes ⟨0, 1000⟩) judged (some (Token.bytes ⟨0, 1000⟩)) ∈
      w.history ∧ 1000 < judged := by
  have hrun : ((World.empty "L").run takeover).map World.history = some
      ([.returned 1 (.ok (some ⟨(World.empty "L").key, ⟨2, 3000⟩⟩))] ++
        .seized 1 ⟨2, 3000⟩ (Token.bytes ⟨0, 1000⟩) 2000 (some (Token.bytes ⟨0, 1000⟩)) ::
        ([.drew 1 ⟨2, 3000⟩, .drew 1 ⟨1, 3000⟩,
          .returned 0 (.ok (some ⟨(World.empty "L").key, ⟨0, 1000⟩⟩))] ++
        .created 0 ⟨0, 1000⟩ :: [.drew 0 ⟨0, 1000⟩])) := by decide +kernel
  obtain ⟨w, hw, hh⟩ := Option.map_eq_some_iff.mp hrun
  have h := mutual_exclusion (start_empty "L") (World.run_reachable hw) (by rw [hh]; simp) hh
  refine ⟨w, hw, ?_⟩
  rcases h.1 ⟨0, 1000⟩ ⟨2, 3000⟩ rfl (by simp [Event.won?]) with
    ⟨id, hd, hmem, -⟩ | ⟨id, t, judged, hmem, hlt, -⟩
  · simp at hmem
  · refine ⟨id, t, judged, ?_, hlt⟩
    rw [hh]
    exact List.mem_append_right _ (by simpa using hmem)

end Holdfast.Contention
