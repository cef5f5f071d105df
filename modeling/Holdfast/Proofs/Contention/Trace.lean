import Holdfast.Proofs.Contention.World
import Holdfast.Proofs.Token

namespace Holdfast.Contention

open Store Lock

namespace Event

/-- The party that wrote a token under the key, with the token. -/
def writes? : Event → Option (Nat × Token)
  | created id t | seized id t _ _ _ => some (id, t)
  | _ => none

/-- What stood under the key and was taken from it. -/
def removed? : Event → Option Bytes
  | seized _ _ _ _ previous => previous
  | freed _ _ removed => removed
  | lapsed value => some value
  | _ => none

/-- The token with which the lock was won. -/
def won? : Event → Option Token
  | created _ t => some t
  | seized _ t seen _ previous => if previous = some seen then some t else none
  | _ => none

theorem writes_of_won {e : Event} {t : Token} (h : e.won? = some t) :
    ∃ id, e.writes? = some (id, t) := by
  cases e with
  | created id u => cases h; exact ⟨id, rfl⟩
  | seized id u seen judged previous =>
    simp only [won?, Option.ite_none_right_eq_some, Option.some.injEq] at h
    exact ⟨id, by simp [writes?, h.2]⟩
  | _ => cases h

end Event

def Wrote (id : Nat) (t : Token) (es : List Event) : Prop := ∃ e ∈ es, e.writes? = some (id, t)

/-- The party has not got the result of an attempt. -/
def Present (id : Nat) (es : List Event) : Prop := ∀ r, Event.returned id r ∉ es

/-- The party has neither written nor got its result. -/
def Silent (id : Nat) (es : List Event) : Prop := Present id es ∧ ∀ t, ¬ Wrote id t es

/-- What a party that gets a result has done before, where `v` stands under the key. -/
def Fits (id : Nat) (es : List Event) (v : Option Bytes) :
    Except Failure (Option Handle) → Prop
  | .error _ => ∀ t seen judged u, .seized id t seen judged u ∉ es
  | .ok none => (∀ t, .created id t ∉ es) ∧
    ∀ t seen judged u, .seized id t seen judged u ∈ es → u = none ∧ v = some t.bytes
  | .ok (some h) => .created id h.token ∈ es ∨
    (∃ seen judged, .seized id h.token seen judged (some seen) ∈ es) ∧ v = some h.token.bytes

/-- The handle is of before the run, or an attempt has brought it. -/
def Known (old : List Bytes) (h : Handle) (es : List Event) : Prop :=
  h.token.bytes ∈ old ∨ ∃ id, .returned id (.ok (some h)) ∈ es

/-- The events that can come next where `v` stands under the key, each with what stands there
after it. -/
inductive Next (old : List Bytes) (es : List Event) (v : Option Bytes) :
    Event → Option Bytes → Prop
  | drew {id : Nat} {t : Token} (new : t.bytes ∉ old) (fresh : ∀ i, .drew i t ∉ es)
      (present : Present id es) : Next old es v (.drew id t) v
  | created {id : Nat} {t : Token} (absent : v = none) (mine : .drew id t ∈ es)
      (silent : Silent id es) : Next old es v (.created id t) (some t.bytes)
  | seized {id : Nat} {t : Token} {seen : Bytes} {judged : Nat} (mine : .drew id t ∈ es)
      (silent : Silent id es)
      (stale : ∀ s, v = some s → s = seen ∧ isStale seen (UInt64.ofNat judged) = true) :
      Next old es v (.seized id t seen judged v) (some t.bytes)
  | freed {id : Nat} {hd : Handle} (own : ∀ s, v = some s → s = hd.token.bytes)
      (known : Known old hd es) : Next old es v (.freed id hd v) none
  | lapsed {s : Bytes} (stood : v = some s) : Next old es v (.lapsed s) none
  | returned {id : Nat} {r : Except Failure (Option Handle)} (present : Present id es)
      (fits : Fits id es v r) : Next old es v (.returned id r) v
  | released {id : Nat} {hd : Handle} {r : Except Failure Bool} :
      Next old es v (.released id hd r) v

/-- The histories that can come about, each with what stands under the key after it. -/
inductive Trace (old : List Bytes) (start : Option Bytes) : List Event → Option Bytes → Prop
  | start : Trace old start [] start
  | next {es : List Event} {v u : Option Bytes} {e : Event} (h : Trace old start es v)
      (n : Next old es v e u) : Trace old start (e :: es) u

theorem wrote_cons {id : Nat} {t : Token} {e : Event} {es : List Event} :
    Wrote id t (e :: es) ↔ e.writes? = some (id, t) ∨ Wrote id t es := by
  simp [Wrote]

theorem Wrote.of_created {id : Nat} {t : Token} {es : List Event} (h : .created id t ∈ es) :
    Wrote id t es :=
  ⟨_, h, rfl⟩

theorem Wrote.of_seized {id : Nat} {t : Token} {seen : Bytes} {judged : Nat}
    {previous : Option Bytes} {es : List Event} (h : .seized id t seen judged previous ∈ es) :
    Wrote id t es :=
  ⟨_, h, rfl⟩

theorem wrote_iff {id : Nat} {t : Token} {es : List Event} :
    Wrote id t es ↔
      .created id t ∈ es ∨ ∃ seen judged previous, .seized id t seen judged previous ∈ es := by
  constructor
  · rintro ⟨e, he, hw⟩
    cases e with
    | created i u => cases hw; exact .inl he
    | seized i u seen judged previous => cases hw; exact .inr ⟨seen, judged, previous, he⟩
    | _ => cases hw
  · rintro (h | ⟨seen, judged, previous, h⟩)
    · exact .of_created h
    · exact .of_seized h

namespace Next

variable {old : List Bytes} {es : List Event} {v u : Option Bytes} {e : Event}

/-- Only a party that drew the token and has done nothing else yet writes. -/
theorem of_writes (h : Next old es v e u) {id : Nat} {t : Token}
    (hw : e.writes? = some (id, t)) : .drew id t ∈ es ∧ Silent id es ∧ u = some t.bytes := by
  cases h with
  | created _ mine silent | seized mine silent _ => cases hw; exact ⟨mine, silent, rfl⟩
  | _ => cases hw

theorem of_no_write (h : Next old es v e u) (hw : e.writes? = none) : u = v ∨ u = none := by
  cases h with
  | created | seized => cases hw
  | drew | returned | released => exact .inl rfl
  | freed | lapsed => exact .inr rfl

theorem stays (h : Next old es v e u) {b : Bytes} (hv : v = some b) :
    u = some b ∨ e.removed? = some b := by
  cases h with
  | created absent => rw [absent] at hv; cases hv
  | drew | returned | released => exact .inl hv
  | seized | freed => exact .inr hv
  | lapsed stood => exact .inr (stood.symm.trans hv)

theorem of_removed (h : Next old es v e u) {b : Bytes} (hr : e.removed? = some b) :
    v = some b := by
  cases h with
  | drew | created | returned | released => cases hr
  | seized | freed => exact hr
  | lapsed stood => exact stood.trans hr

/-- What removes a value is a takeover by somebody who judged it stale, a release of its handle or
the end of its time to live. -/
theorem removal (h : Next old es v e u) {b : Bytes} (hr : e.removed? = some b) :
    (∃ id t judged, e = .seized id t b judged (some b) ∧
      isStale b (UInt64.ofNat judged) = true) ∨
    (∃ id hd, e = .freed id hd (some b) ∧ hd.token.bytes = b ∧ Known old hd es) ∨
    e = .lapsed b := by
  cases h with
  | drew | created | returned | released => cases hr
  | @seized id t seen judged mine silent stale =>
    left
    obtain ⟨rfl, hstale⟩ := stale b hr
    exact ⟨id, t, judged, by rw [show v = some b from hr], hstale⟩
  | @freed id hd own known =>
    right; left
    exact ⟨id, hd, by rw [show v = some b from hr], (own b hr).symm, known⟩
  | lapsed stood => right; right; cases hr; rfl

theorem unique {w : Option Bytes} (h : Next old es v e u) (h' : Next old es v e w) : u = w := by
  cases h <;> cases h' <;> rfl

end Next

namespace Trace

variable {old : List Bytes} {start v u : Option Bytes} {es : List Event}

theorem unique (h : Trace old start es v) (h' : Trace old start es u) : v = u := by
  induction h generalizing u with
  | start => cases h'; rfl
  | next _ n ih =>
    cases h' with
    | next h' n' =>
      obtain rfl := ih h'
      exact n.unique n'

/-- What happened before an event, and what stood under the key then. -/
theorem before {post pre : List Event} {e : Event} (h : Trace old start (post ++ e :: pre) v) :
    ∃ u w, Trace old start pre u ∧ Next old pre u e w := by
  induction post generalizing v with
  | nil => cases h with | next h n => exact ⟨_, _, h, n⟩
  | cons _ post ih => cases h with | next h _ => exact ih h

theorem before_of_mem (h : Trace old start es v) {e : Event} (he : e ∈ es) :
    ∃ post pre u w, es = post ++ e :: pre ∧ Trace old start pre u ∧ Next old pre u e w := by
  obtain ⟨post, pre, rfl⟩ := List.append_of_mem he
  obtain ⟨u, w, hu, n⟩ := h.before
  exact ⟨post, pre, u, w, rfl, hu, n⟩

/-- What stands under the key stays there until an event removes it. -/
theorem stays {post pre : List Event} {b : Bytes} (hp : Trace old start pre (some b))
    (h : Trace old start (post ++ pre) v) : v = some b ∨ ∃ x ∈ post, x.removed? = some b := by
  induction post generalizing v with
  | nil => exact .inl (h.unique hp)
  | cons e post ih =>
    cases h with
    | next h n =>
      rcases ih h with hv | ⟨x, hx, hr⟩
      · rcases n.stays hv with hu | hr
        · exact .inl hu
        · exact .inr ⟨e, List.mem_cons_self, hr⟩
      · exact .inr ⟨x, List.mem_cons_of_mem _ hx, hr⟩

theorem drew_of_wrote (h : Trace old start es v) {id : Nat} {t : Token} (hw : Wrote id t es) :
    .drew id t ∈ es := by
  obtain ⟨e, he, hw⟩ := hw
  obtain ⟨post, pre, u, w, rfl, -, n⟩ := h.before_of_mem he
  obtain ⟨hd, -, -⟩ := n.of_writes hw
  simp [hd]

theorem drew_unique (h : Trace old start es v) {i j : Nat} {t : Token} (hi : .drew i t ∈ es)
    (hj : .drew j t ∈ es) : i = j := by
  induction h with
  | start => cases hi
  | next h n ih =>
    rcases List.mem_cons.mp hi with rfl | hi' <;> rcases List.mem_cons.mp hj with he | hj'
    · cases he; rfl
    · cases n with | drew _ fresh _ => exact absurd hj' (fresh j)
    · subst he
      cases n with | drew _ fresh _ => exact absurd hi' (fresh i)
    · exact ih hi' hj'

theorem drew_new (h : Trace old start es v) {id : Nat} {t : Token} (hd : .drew id t ∈ es) :
    t.bytes ∉ old := by
  obtain ⟨_, _, _, _, -, -, n⟩ := h.before_of_mem hd
  cases n with | drew new _ _ => exact new

theorem wrote_unique (h : Trace old start es v) {i j : Nat} {t : Token} (hi : .drew i t ∈ es)
    (hj : Wrote j t es) : j = i :=
  h.drew_unique (h.drew_of_wrote hj) hi

theorem write_before_return {post pre : List Event} {id : Nat}
    {r : Except Failure (Option Handle)} {e : Event} {t : Token}
    (h : Trace old start (post ++ .returned id r :: pre) v)
    (he : e ∈ post ++ .returned id r :: pre) (hw : e.writes? = some (id, t)) : e ∈ pre := by
  induction post generalizing v with
  | nil =>
    rcases List.mem_cons.mp he with rfl | he
    · cases hw
    · exact he
  | cons x post ih =>
    cases h with
    | next h n =>
      rcases List.mem_cons.mp he with rfl | he
      · exact absurd (by simp) ((n.of_writes hw).2.1.1 r)
      · exact ih h he

/-- What a party that has its result did before it, and where. -/
theorem fits_of_returned (h : Trace old start es v) {id : Nat}
    {r : Except Failure (Option Handle)} (hr : .returned id r ∈ es) :
    ∃ pre u, Fits id pre u r ∧ (∀ e ∈ pre, e ∈ es) ∧
      ∀ e ∈ es, ∀ t, e.writes? = some (id, t) → e ∈ pre := by
  obtain ⟨post, pre, u, w, rfl, hu, n⟩ := h.before_of_mem hr
  cases n with
  | returned _ fits =>
    refine ⟨pre, u, fits, ?_, fun e he t => h.write_before_return he⟩
    exact fun e he => List.mem_append_right post (List.mem_cons_of_mem _ he)

theorem created_of_failed (h : Trace old start es v) {id : Nat} {f : Failure}
    (hr : .returned id (.error f) ∈ es) {e : Event} (he : e ∈ es) {t : Token}
    (hw : e.writes? = some (id, t)) : e = .created id t := by
  obtain ⟨pre, u, fits, -, back⟩ := h.fits_of_returned hr
  have hpre := back e he t hw
  cases e with
  | created => cases hw; rfl
  | seized i t' seen judged previous =>
    cases hw
    exact absurd hpre (fits t seen judged previous)
  | _ => cases hw

/-- A lost attempt has written by a transaction after what it had read was gone, if at all. -/
theorem seized_of_lost (h : Trace old start es v) {id : Nat}
    (hr : .returned id (.ok none) ∈ es) {e : Event} (he : e ∈ es) {t : Token}
    (hw : e.writes? = some (id, t)) : ∃ seen judged, e = .seized id t seen judged none := by
  obtain ⟨pre, u, fits, -, back⟩ := h.fits_of_returned hr
  have hpre := back e he t hw
  cases e with
  | created =>
    cases hw
    exact absurd hpre (fits.1 t)
  | seized i t' seen judged previous =>
    cases hw
    obtain ⟨rfl, -⟩ := fits.2 t seen judged previous hpre
    exact ⟨seen, judged, rfl⟩
  | _ => cases hw

theorem wrote_of_won (h : Trace old start es v) {id : Nat} {hd : Handle}
    (hr : .returned id (.ok (some hd)) ∈ es) : Wrote id hd.token es := by
  obtain ⟨pre, u, fits, hsub, -⟩ := h.fits_of_returned hr
  rcases fits with hc | ⟨⟨seen, judged, hs⟩, -⟩
  · exact .of_created (hsub _ hc)
  · exact .of_seized (hsub _ hs)

end Trace

/-- Whether a value has been about: before the run, or as a token that was written. -/
def Stood (old : List Bytes) (b : Bytes) (es : List Event) : Prop :=
  b ∈ old ∨ ∃ id t, Wrote id t es ∧ t.bytes = b

theorem Stood.cons {old : List Bytes} {b : Bytes} {es : List Event} (h : Stood old b es)
    (e : Event) : Stood old b (e :: es) := by
  rcases h with h | ⟨id, t, hw, rfl⟩
  · exact .inl h
  · exact .inr ⟨id, t, wrote_cons.mpr (.inr hw), rfl⟩

namespace Trace

variable {old : List Bytes} {start v u : Option Bytes} {es : List Event}

theorem stood (hs : ∀ b, start = some b → b ∈ old) (h : Trace old start es v) {b : Bytes}
    (hv : v = some b) : Stood old b es := by
  induction h with
  | start => exact .inl (hs b hv)
  | @next es v u e h n ih =>
    cases hw : e.writes? with
    | some w =>
      obtain ⟨id, t⟩ := w
      obtain ⟨-, -, hu⟩ := n.of_writes hw
      rw [hu] at hv
      cases hv
      exact .inr ⟨id, t, wrote_cons.mpr (.inl hw), rfl⟩
    | none =>
      rcases n.of_no_write hw with hu | hu
      · exact (ih (hu ▸ hv)).cons e
      · rw [hu] at hv; cases hv

/-- What is written has not been about before. -/
theorem write_fresh (h : Trace old start es v) {e : Event} (n : Next old es v e u) {id : Nat}
    {t : Token} (hw : e.writes? = some (id, t)) : ¬ Stood old t.bytes es := by
  obtain ⟨hd, hsilent, -⟩ := n.of_writes hw
  rintro (ho | ⟨j, t', hj, ht⟩)
  · exact h.drew_new hd ho
  · obtain rfl := Token.bytes_inj.mp ht
    obtain rfl := h.wrote_unique hd hj
    exact hsilent.2 t' hj

/-- A value that is gone does not come back. -/
theorem gone {post pre : List Event} {b : Bytes} (hs : Stood old b pre)
    (hp : Trace old start pre u) (hu : u ≠ some b) (h : Trace old start (post ++ pre) v) :
    Stood old b (post ++ pre) ∧ v ≠ some b := by
  induction post generalizing v with
  | nil => rw [h.unique hp]; exact ⟨hs, hu⟩
  | cons e post ih =>
    cases h with
    | next h n =>
      obtain ⟨hs, hne⟩ := ih h
      refine ⟨hs.cons e, ?_⟩
      cases hw : e.writes? with
      | some w =>
        obtain ⟨-, -, hx⟩ := n.of_writes hw
        rw [hx]
        intro he
        cases he
        exact h.write_fresh n hw hs
      | none =>
        rcases n.of_no_write hw with hx | hx
        · rwa [hx]
        · simp [hx]

theorem gone_of_removed (hs : ∀ b, start = some b → b ∈ old) {post pre : List Event} {e : Event}
    (h : Trace old start (post ++ e :: pre) v) {b : Bytes} (hr : e.removed? = some b) :
    v ≠ some b := by
  obtain ⟨u, w, tr, n⟩ := h.before
  have hstood : Stood old b pre := tr.stood hs (n.of_removed hr)
  have hgone : w ≠ some b := by
    cases hw : e.writes? with
    | some x =>
      obtain ⟨-, -, hx⟩ := n.of_writes hw
      rw [hx]
      intro he
      cases he
      exact tr.write_fresh n hw hstood
    | none =>
      cases n with
      | freed | lapsed => simp
      | drew | returned | released => cases hr
      | created | seized => cases hw
  exact (gone (hstood.cons e) (tr.next n) hgone h).2

/-- No value is removed from the key twice. -/
theorem removed_once (hs : ∀ b, start = some b → b ∈ old) {post mid pre : List Event}
    {e₁ e₂ : Event} (h : Trace old start (post ++ e₂ :: (mid ++ e₁ :: pre)) v) {b : Bytes}
    (h₁ : e₁.removed? = some b) : e₂.removed? ≠ some b := by
  obtain ⟨u, w, tr, n⟩ := h.before
  intro h₂
  exact tr.gone_of_removed hs h₁ (n.of_removed h₂)

theorem stored_iff (hs : ∀ b, start = some b → b ∈ old) {post pre : List Event} {e : Event}
    (h : Trace old start (post ++ e :: pre) v) {id : Nat} {t : Token}
    (hw : e.writes? = some (id, t)) :
    v = some t.bytes ↔ ∀ x ∈ post, x.removed? ≠ some t.bytes := by
  constructor
  · intro hv x hx hr
    obtain ⟨late, early, rfl⟩ := List.append_of_mem hx
    rw [List.append_assoc] at h
    exact h.gone_of_removed hs hr hv
  · intro hkeep
    obtain ⟨u, w, tr, n⟩ := h.before
    obtain ⟨-, -, rfl⟩ := n.of_writes hw
    rcases (tr.next n).stays h with hv | ⟨x, hx, hr⟩
    · exact hv
    · exact absurd hr (hkeep x hx)

theorem wrote_of_stored (hs : ∀ b, start = some b → b ∈ old) {id : Nat} {t : Token}
    (h : Trace old start es (some t.bytes)) (hd : .drew id t ∈ es) : Wrote id t es := by
  rcases h.stood hs rfl with ho | ⟨j, t', hj, ht⟩
  · exact absurd ho (h.drew_new hd)
  · obtain rfl := Token.bytes_inj.mp ht
    obtain rfl := h.wrote_unique hd hj
    exact hj

/-- A drawn token stands under the key from its write until an event removes it, and at no other
time. -/
theorem stands_iff (hs : ∀ b, start = some b → b ∈ old) (h : Trace old start es v) {id : Nat}
    {t : Token} (hd : .drew id t ∈ es) :
    v = some t.bytes ↔ ∃ post pre e, es = post ++ e :: pre ∧ e.writes? = some (id, t) ∧
      ∀ x ∈ post, x.removed? ≠ some t.bytes := by
  constructor
  · rintro rfl
    obtain ⟨e, he, hw⟩ := h.wrote_of_stored hs hd
    obtain ⟨post, pre, rfl⟩ := List.append_of_mem he
    exact ⟨post, pre, e, rfl, hw, (h.stored_iff hs hw).mp rfl⟩
  · rintro ⟨post, pre, e, rfl, hw, hkeep⟩
    exact (h.stored_iff hs hw).mpr hkeep

end Trace
end Holdfast.Contention
