import Holdfast.Proofs.Contention.Answer
import Holdfast.Proofs.Contention.Trace

namespace Holdfast.Contention

open Store Lock Memory

/-- What the history says about a party that is still at its talk. -/
structure Told (old : List Bytes) (id : Nat) (es : List Event) (talk : Talk) : Prop where
  present : Present id es
  created : ∀ t, .created id t ∈ es ↔ talk.sent? = some t
  seized : ∀ t seen judged u, .seized id t seen judged u ∉ es
  known : ∀ r, talk = .release r → Known old r.handle es

theorem Told.silent {old : List Bytes} {id : Nat} {es : List Event} {talk : Talk}
    (h : Told old id es talk) (hs : talk.sent? = none) : Silent id es := by
  refine ⟨h.present, ?_⟩
  intro t hw
  rcases wrote_iff.mp hw with hc | ⟨seen, judged, u, hz⟩
  · rw [(h.created t).mp hc] at hs
    cases hs
  · exact h.seized t seen judged u hz

/-- A talk that goes on without a write leaves its party's record as it was. -/
theorem Told.go {old : List Bytes} {id : Nat} {es : List Event} {talk talk' : Talk}
    (h : Told old id es talk) (hs : talk.sent? = none) (hs' : talk'.sent? = none)
    (hr : ∀ r', talk' = .release r' → ∃ r, talk = .release r ∧ r.handle = r'.handle) :
    Told old id es talk' := by
  refine ⟨h.present, ?_, h.seized, ?_⟩
  · intro t
    rw [h.created t, hs, hs']
  · intro r' hr'
    obtain ⟨r, ht, hh⟩ := hr r' hr'
    rw [← hh]
    exact h.known r ht

theorem Told.fits_none {old : List Bytes} {id : Nat} {es : List Event} {talk : Talk}
    {v : Option Bytes} (h : Told old id es talk) (hs : talk.sent? = none) :
    Fits id es v (.ok none) := by
  refine ⟨?_, ?_⟩
  · intro t hc
    rw [(h.created t).mp hc] at hs
    cases hs
  · intro t seen judged u hz
    exact absurd hz (h.seized t seen judged u)

theorem Attempt.phase_read (l : Lock) (k : Nat) (m : Moment) (v : Option Bytes)
    (r : Except Failure (Option Handle)) :
    ((⟨l, k, .reading⟩ : Attempt).resume m (.ok (.value v))).phase ≠ .over r := by
  cases v with
  | none => simp [Attempt.resume, Attempt.replied]
  | some seen =>
    simp only [Attempt.resume, Attempt.replied]
    split <;> simp

theorem Attempt.sent?_read (l : Lock) (k : Nat) (m : Moment) (v : Option Bytes) :
    (Talk.resume (.attempt ⟨l, k, .reading⟩) m (.ok (.value v))).sent? = none := by
  cases v with
  | none => rfl
  | some seen =>
    simp only [Talk.resume, Attempt.resume, Attempt.replied]
    split <;> rfl

@[simp] theorem Party.deed?_error (p : Party) (id : Nat) (stored : Option Bytes) (f : Failure) :
    p.deed? id stored (.error f) = none := by
  unfold deed?
  split <;> simp_all

namespace Answers

variable {key : Bytes} {n n' : Node} {now id : Nat} {c c' : Connection} {p : Party} {o : Outcome}
  {old : List Bytes} {start : Option Bytes} {es : List Event}

/-- What a party does to the key can come next in the history. -/
theorem trace (h : Answers key n now c p.talk n' c' o) (ha : p.talk.About key)
    (ht : Told old id es p.talk) (hd : ∀ t, p.talk.unsent? = some t → .drew id t ∈ es)
    (hs : ∀ a t seen, p.talk = .attempt a → a.phase = .seizing t seen →
      isStale seen (UInt64.ofNat p.heardAt) = true)
    (hp : Trace old start es (n.value? now key)) :
    Trace old start ((p.deed? id (n.value? now key) o).toList ++ es) (n'.value? now key) := by
  obtain ⟨talk, loan, reading, heardAt⟩ := p
  cases h with
  | @created l k t absent =>
    rw [Node.value?_put_self]
    exact hp.next (.created absent (hd t rfl) (ht.silent rfl))
  | expired =>
    rw [Node.value?_expire_self n now key ha.2]
    exact hp
  | @seized l k t seen effects kept =>
    rw [Node.value?_expire_self _ now key ha.2, Node.value?_put_self]
    refine hp.next (.seized (hd t rfl) (ht.silent rfl) ?_)
    intro s hv
    exact ⟨kept s hv, hs _ t seen rfl rfl⟩
  | @freed handle effects own untouched =>
    rw [Node.value?_delete_self]
    exact hp.next (.freed own (ht.known ⟨handle, .deleting⟩ rfl))
  | failed => rw [Party.deed?_error]; exact hp
  | _ => exact hp

/-- A party that goes on is known by what it has done. -/
theorem told (h : Answers key n now c p.talk n' c' o) (ht : Told old id es p.talk) (m : Moment)
    (hcall : (p.talk.resume m o).call? ≠ none) :
    Told old id ((p.deed? id (n.value? now key) o).toList ++ es) (p.talk.resume m o) := by
  obtain ⟨talk, loan, reading, heardAt⟩ := p
  cases h with
  | @created l k t absent =>
    refine ⟨?_, ?_, ?_, ?_⟩
    · intro r hr
      exact ht.present r (by simpa [Party.deed?] using hr)
    · intro t'
      have hnone : .created id t' ∉ es := by simpa [Talk.sent?] using ht.created t'
      simp [Party.deed?, Talk.resume, Attempt.resume, Attempt.replied, Talk.sent?, hnone, eq_comm]
    · intro t' seen judged u hz
      exact ht.seized t' seen judged u (by simpa [Party.deed?] using hz)
    · intro r hr
      cases hr
  | failed =>
    cases talk with
    | attempt a => exact absurd rfl hcall
    | release r => exact absurd rfl hcall
    | probe p => cases p <;> exact absurd rfl hcall
  | taken | watched => exact ht.go rfl rfl (fun r hr => by cases hr)
  | read =>
    refine ht.go rfl (Attempt.sent?_read ..) ?_
    intro r hr
    cases hr
  | @retried l k =>
    cases k with
    | zero => exact absurd rfl hcall
    | succ k => exact ht.go rfl rfl (fun r hr => by cases hr)
  | rewatched => exact ht.go rfl rfl (fun r hr => by cases hr; exact ⟨_, rfl, rfl⟩)
  | reread => exact ht.go rfl rfl (fun r hr => by cases hr; exact ⟨_, rfl, rfl⟩)
  | expired | yielded | seized | aborted | kept | freed | missed | probed =>
    exact absurd rfl hcall

/-- What an attempt brings fits what it has done. -/
theorem fits (h : Answers key n now c p.talk n' c' o) (ha : p.talk.About key)
    (ht : Told old id es p.talk) {a : Attempt} (hp : p.talk = .attempt a) (m : Moment)
    {r : Except Failure (Option Handle)} (hr : (a.resume m o).phase = .over r) :
    Fits id ((p.deed? id (n.value? now key) o).toList ++ es) (n'.value? now key) r := by
  obtain ⟨talk, loan, reading, heardAt⟩ := p
  cases h with
  | failed =>
    cases hp; cases hr
    rw [Party.deed?_error]
    exact ht.seized
  | created | taken | watched => cases hp; cases hr
  | expired =>
    cases hp; cases hr
    exact .inl ((ht.created _).mpr rfl)
  | read =>
    cases hp
    exact absurd hr (Attempt.phase_read _ _ m _ r)
  | yielded | aborted => cases hp; cases hr; exact ht.fits_none rfl
  | @retried l k =>
    cases hp
    cases k with
    | zero => cases hr; exact ht.fits_none rfl
    | succ k => cases hr
  | @seized l k t seen effects kept =>
    cases hp; cases hr
    have hcreated (t' : Token) : .created id t' ∉ es := by simpa [Talk.sent?] using ht.created t'
    rw [Node.value?_expire_self _ now key ha.2, Node.value?_put_self]
    cases hv : n.value? now key with
    | none =>
      simp only [Attempt.tookOver, Party.deed?, Option.toList_some, List.singleton_append]
      refine ⟨?_, ?_⟩
      · intro t'
        simpa using hcreated t'
      · intro t' seen' judged u hz
        rcases List.mem_cons.mp hz with he | hz
        · cases he; exact ⟨rfl, rfl⟩
        · exact absurd hz (ht.seized t' seen' judged u)
    | some s =>
      obtain rfl := kept s hv
      simp only [Attempt.tookOver, decide_true, if_true, Party.deed?, Option.toList_some,
        List.singleton_append]
      exact .inr ⟨⟨s, heardAt, List.mem_cons_self⟩, rfl⟩
  | rewatched | reread | kept | freed | missed | probed => cases hp

end Answers

end Holdfast.Contention
