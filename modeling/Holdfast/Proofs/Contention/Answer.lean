import Holdfast.Proofs.Contention.World

namespace Holdfast

open Store

namespace Lock.Talk

/-- Whether a talk stands between the start of a watch and its end. -/
def isWatching : Talk → Bool
  | attempt { phase := .reading, .. } | attempt { phase := .yielding, .. }
  | attempt { phase := .retrying, .. } | attempt { phase := .seizing .., .. }
  | release { phase := .reading, .. } | release { phase := .yielding, .. }
  | release { phase := .deleting, .. } => true
  | _ => false

/-- The value that a talk's transaction is to replace or delete. -/
def relied? : Talk → Option Bytes
  | attempt { phase := .seizing _ seen, .. } => some seen
  | release { handle, phase := .deleting } => some handle.token.bytes
  | _ => none

/-- The token that a talk has created its key with. -/
def sent? : Talk → Option Token
  | attempt { phase := .expiring t, .. } => some t
  | _ => none

/-- A talk about the lock under a key, which is held for some time. -/
def About (key : Bytes) : Talk → Prop
  | attempt a => a.lock.key = key ∧ 0 < a.lock.hold
  | release r => r.handle.key = key
  | probe (.reading k) => k = key
  | probe (.over _) => True

end Lock.Talk

theorem Lock.Attempt.lock_resume (a : Attempt) (m : Moment) (o : Outcome) :
    (a.resume m o).lock = a.lock := by
  cases o with
  | error f => rfl
  | ok reply =>
    simp only [resume]
    unfold replied
    split <;> try rfl
    · split <;> rfl
    · unfold again
      split <;> rfl

theorem Lock.Release.handle_resume (r : Release) (o : Outcome) :
    (r.resume o).handle = r.handle := by
  cases o with
  | error f => rfl
  | ok reply =>
    simp only [resume]
    unfold replied
    split <;> rfl

theorem Lock.Talk.About.resume {key : Bytes} {talk : Talk} (h : talk.About key) (m : Moment)
    (o : Outcome) : (talk.resume m o).About key := by
  cases talk with
  | attempt a =>
    simp only [Talk.resume, Talk.About, a.lock_resume]
    exact h
  | release r =>
    simp only [Talk.resume, Talk.About, r.handle_resume]
    exact h
  | probe p => cases p <;> trivial

/-- A value that is about to be replaced was judged stale when it was read. -/
theorem Lock.Attempt.stale_of_seizing {a : Attempt} {m : Moment} {o : Outcome} {t : Token}
    {seen : Bytes} (h : (a.resume m o).phase = .seizing t seen) :
    isStale seen (UInt64.ofNat m.clock) = true := by
  cases o with
  | error f => cases h
  | ok reply =>
    simp only [resume] at h
    unfold replied at h
    split at h <;> try cases h
    · split at h
      · cases h; assumption
      · cases h
    · unfold again at h
      split at h <;> cases h
    · rename_i hover
      rw [hover] at h
      cases h

namespace Contention

open Lock Memory

/-- The watch of a talk is on the lock's key, and what the talk relies on stands there as long as
the key has the version that is watched. -/
structure Watch (key : Bytes) (n : Node) (now : Nat) (talk : Talk) (c : Connection) : Prop where
  off : talk.isWatching = false → c.watched = []
  on : talk.isWatching = true → ∃ v, c.watched = [(key, v)] ∧ ∀ x, v = some x →
    x ≤ n.version ∧ ∀ b, talk.relied? = some b → n.version? now key = some x →
      n.value? now key = some b

/-- A watch goes by the version, which no other writer gives out again. -/
theorem Watch.later {key : Bytes} {n n' : Node} {now now' : Nat} {talk : Talk} {c : Connection}
    (h : Watch key n now talk c) (hl : Later key n now n' now') : Watch key n' now' talk c := by
  refine ⟨h.off, ?_⟩
  intro hw
  obtain ⟨v, hc, hv⟩ := h.on hw
  refine ⟨v, hc, ?_⟩
  intro x hx
  obtain ⟨hle, hrel⟩ := hv x hx
  refine ⟨Nat.le_trans hle hl.counter, ?_⟩
  intro b hb hversion
  obtain ⟨hbefore, hsame⟩ := hl.entry_of_version hle hversion
  rw [hsame]
  exact hrel b hb hbefore

namespace Watch

variable {key : Bytes} {n : Node} {now : Nat} {talk talk' : Talk} {c : Connection}

theorem idle (ht : talk.isWatching = false) (hc : c.watched = []) : Watch key n now talk c := by
  refine ⟨fun _ => hc, ?_⟩
  intro hw
  rw [ht] at hw
  cases hw

theorem begin (hb : n.Bounded) (ht : talk.isWatching = true) (hr : talk.relied? = none) :
    Watch key n now talk { c with watched := [(key, n.version? now key)] } := by
  refine ⟨fun hw => absurd (ht.symm.trans hw) (by simp), ?_⟩
  intro _
  refine ⟨_, rfl, ?_⟩
  intro x hx
  refine ⟨hb.version hx, ?_⟩
  intro b hbr
  rw [hr] at hbr
  cases hbr

theorem rely (h : Watch key n now talk c) (hw : talk.isWatching = true)
    (ht : talk'.isWatching = true)
    (hr : ∀ b, talk'.relied? = some b → n.value? now key = some b) :
    Watch key n now talk' c := by
  refine ⟨fun hoff => absurd (ht.symm.trans hoff) (by simp), ?_⟩
  intro _
  obtain ⟨v, hc, hv⟩ := h.on hw
  exact ⟨v, hc, fun x hx => ⟨(hv x hx).1, fun b hb _ => hr b hb⟩⟩

end Watch

/-- What the next call of a talk comes to: the data and the connection after it, and the
outcome. -/
inductive Answers (key : Bytes) (n : Node) (now : Nat) (c : Connection) :
    Talk → Node → Connection → Outcome → Prop
  | failed {talk : Talk} {f : Failure} : Answers key n now c talk n c (.error f)
  | created {l : Lock} {k : Nat} {t : Token} (absent : n.value? now key = none) :
      Answers key n now c (.attempt ⟨l, k, .creating t⟩) (n.put key t.bytes) c (.ok (.flag true))
  | taken {l : Lock} {k : Nat} {t : Token} :
      Answers key n now c (.attempt ⟨l, k, .creating t⟩) n c (.ok (.flag false))
  | expired {l : Lock} {k : Nat} {t : Token} {b : Bool} :
      Answers key n now c (.attempt ⟨l, k, .expiring t⟩) (n.expire now key l.hold).1 c
        (.ok (.flag b))
  | watched {l : Lock} {k : Nat} :
      Answers key n now c (.attempt ⟨l, k, .watching⟩) n
        { c with watched := [(key, n.version? now key)] } (.ok .done)
  | read {l : Lock} {k : Nat} :
      Answers key n now c (.attempt ⟨l, k, .reading⟩) n c (.ok (.value (n.value? now key)))
  | yielded {l : Lock} {k : Nat} :
      Answers key n now c (.attempt ⟨l, k, .yielding⟩) n { c with watched := [] } (.ok .done)
  | retried {l : Lock} {k : Nat} :
      Answers key n now c (.attempt ⟨l, k, .retrying⟩) n { c with watched := [] } (.ok .done)
  | seized {l : Lock} {k : Nat} {t : Token} {seen : Bytes} {es : List Effect}
      (kept : ∀ s, n.value? now key = some s → s = seen) :
      Answers key n now c (.attempt ⟨l, k, .seizing t seen⟩)
        ((n.put key t.bytes).expire now key l.hold).1 { c with watched := [] }
        (.ok (.effects (some (.previous (n.value? now key) :: es))))
  | aborted {l : Lock} {k : Nat} {t : Token} {seen : Bytes} :
      Answers key n now c (.attempt ⟨l, k, .seizing t seen⟩) n { c with watched := [] }
        (.ok (.effects none))
  | rewatched {h : Handle} :
      Answers key n now c (.release ⟨h, .watching⟩) n
        { c with watched := [(key, n.version? now key)] } (.ok .done)
  | reread {h : Handle} :
      Answers key n now c (.release ⟨h, .reading⟩) n c (.ok (.value (n.value? now key)))
  | kept {h : Handle} :
      Answers key n now c (.release ⟨h, .yielding⟩) n { c with watched := [] } (.ok .done)
  | freed {h : Handle} {es : List Effect}
      (own : ∀ s, n.value? now key = some s → s = h.token.bytes)
      (untouched : c.isUntouched n now = true) :
      Answers key n now c (.release ⟨h, .deleting⟩) (n.delete key) { c with watched := [] }
        (.ok (.effects (some es)))
  | missed {h : Handle} :
      Answers key n now c (.release ⟨h, .deleting⟩) n { c with watched := [] }
        (.ok (.effects none))
  | probed {k : Bytes} :
      Answers key n now c (.probe (.reading k)) n c (.ok (.value (n.value? now key)))

section
variable {key : Bytes} {s s' : Server} {now : Nat} {c c' : Connection} {o : Outcome}

/-- Where nothing has touched the watched key, what the talk relies on still stands there. -/
theorem Watch.stands {talk : Talk} {n : Node} (h : Watch key n now talk c) {b : Bytes}
    (hw : talk.isWatching = true) (hb : talk.relied? = some b)
    (hu : c.isUntouched n now = true) : ∀ v, n.value? now key = some v → v = b := by
  obtain ⟨x, hc, hx⟩ := h.on hw
  have hversion : n.version? now key = x := by simpa [Connection.isUntouched, hc] using hu
  intro v hv
  obtain ⟨e, he, rfl⟩ := Option.map_eq_some_iff.mp hv
  have hx' : x = some e.version := by rw [← hversion, Node.version?, he]; rfl
  have := (hx e.version hx').2 b hb (by rw [hversion, hx'])
  rw [hv] at this
  exact Option.some.inj this

theorem call_attempt {a : Attempt} (ha : Talk.About key (.attempt a))
    (hw : Watch key s.node now (.attempt a) c) {request : Call} (hr : a.call? = some request)
    (hcut : c.isCut s = false) (h : c.call s now request = (c', s', .now o)) :
    Answers key s.node now c (.attempt a) s'.node c' o := by
  obtain ⟨l, k, phase⟩ := a
  obtain ⟨hkey, -⟩ := ha
  cases phase <;> cases hr <;>
    simp only [Connection.call, hcut, Bool.false_eq_true, if_false] at h
  case creating t =>
    cases h
    rw [hkey]
    cases hl : s.node.live? now key with
    | none =>
      simp only [Node.setIfAbsent, hl]
      exact .created (Node.value?_eq_none.mpr hl)
    | some e =>
      simp only [Node.setIfAbsent, hl]
      exact .taken
  case expiring t =>
    cases h
    rw [hkey]
    exact .expired
  case watching =>
    cases h
    simp only [Connection.watch, hw.off rfl, hkey, Table.get?, Table.set]
    exact .watched
  case reading =>
    cases hd : s.readDelay with
    | some ms => simp [hd] at h
    | none =>
      simp only [hd] at h
      cases h
      rw [hkey]
      exact .read
  case yielding => cases h; exact .yielded
  case retrying => cases h; exact .retried
  case seizing t seen =>
    cases hu : c.isUntouched s.node now with
    | false =>
      simp only [Connection.exec, hu, Bool.false_eq_true, if_false] at h
      cases h
      exact .aborted
    | true =>
      simp only [Connection.exec, hu, if_true] at h
      cases h
      rw [hkey]
      exact .seized (hw.stands rfl rfl hu)

theorem call_release {r : Release} (ha : Talk.About key (.release r))
    (hw : Watch key s.node now (.release r) c) {request : Call} (hr : r.call? = some request)
    (hcut : c.isCut s = false) (h : c.call s now request = (c', s', .now o)) :
    Answers key s.node now c (.release r) s'.node c' o := by
  obtain ⟨hd, phase⟩ := r
  have hkey : hd.key = key := ha
  cases phase <;> cases hr <;>
    simp only [Connection.call, hcut, Bool.false_eq_true, if_false] at h
  case watching =>
    cases h
    simp only [Connection.watch, hw.off rfl, hkey, Table.get?, Table.set]
    exact .rewatched
  case reading =>
    cases hd : s.readDelay with
    | some ms => simp [hd] at h
    | none =>
      simp only [hd] at h
      cases h
      rw [hkey]
      exact .reread
  case yielding => cases h; exact .kept
  case deleting =>
    cases hu : c.isUntouched s.node now with
    | false =>
      simp only [Connection.exec, hu, Bool.false_eq_true, if_false] at h
      cases h
      exact .missed
    | true =>
      simp only [Connection.exec, hu, if_true] at h
      cases h
      rw [hkey]
      exact .freed (hw.stands rfl rfl hu) hu

/-- Whatever a talk asks the store, the answer is one of those that its phase allows. -/
theorem call_answers {talk : Talk} (ha : talk.About key) (hw : Watch key s.node now talk c)
    {request : Call} (hr : talk.call? = some request)
    (h : c.call s now request = (c', s', .now o)) :
    Answers key s.node now c talk s'.node c' o := by
  cases hcut : c.isCut s with
  | true =>
    rw [Connection.call_cut hcut] at h
    cases h
    exact .failed
  | false =>
    cases talk with
    | attempt a => exact call_attempt ha hw hr hcut h
    | release r => exact call_release ha hw hr hcut h
    | probe p =>
      cases p with
      | reading k =>
        cases hr
        obtain rfl : k = key := ha
        simp only [Connection.call, hcut, Bool.false_eq_true, if_false] at h
        cases hd : s.readDelay with
        | some ms => simp [hd] at h
        | none =>
          simp only [hd] at h
          cases h
          exact .probed
      | _ => cases hr

theorem read_answers {talk : Talk} (ha : talk.About key) {k : Bytes}
    (hr : talk.call? = some (.get k)) :
    Answers key s.node now c talk s.node c (.ok (.value (s.node.value? now k))) := by
  cases talk with
  | attempt a =>
    obtain ⟨l, r, phase⟩ := a
    obtain ⟨hkey, -⟩ := ha
    cases phase <;> cases hr
    rw [hkey]
    exact .read
  | release r =>
    obtain ⟨hd, phase⟩ := r
    obtain rfl : hd.key = key := ha
    cases phase <;> cases hr
    exact .reread
  | probe p =>
    cases p with
    | reading k =>
      cases hr
      obtain rfl : k = key := ha
      exact .probed
    | _ => cases hr

/-- A call that does not answer at once has begun a slow read and changed nothing. -/
theorem call_readAfter {request : Call} {ms : Nat} {k : Bytes}
    (h : c.call s now request = (c', s', .readAfter ms k)) :
    request = .get k ∧ c' = c ∧ s' = s := by
  cases hcut : c.isCut s with
  | true => rw [Connection.call_cut hcut] at h; cases h
  | false =>
    cases request <;> simp only [Connection.call, hcut, Bool.false_eq_true, if_false] at h
    case get key =>
      cases hd : s.readDelay with
      | some ms => simp only [hd] at h; cases h; exact ⟨rfl, rfl, rfl⟩
      | none => simp [hd] at h
    all_goals cases h

end

namespace Answers

variable {key : Bytes} {n n' : Node} {now : Nat} {c c' : Connection} {talk : Talk} {o : Outcome}

theorem later (h : Answers key n now c talk n' c' o) : Later key n now n' now := by
  cases h with
  | created => exact (Later.spans key now).put n key _
  | expired => exact (Later.spans key now).expire n now key _
  | @seized l k t =>
    have hput := (Later.spans key now).put n key t.bytes
    exact hput.trans ((Later.spans key now).expire _ now key l.hold)
  | freed => exact (Later.spans key now).delete n key
  | _ => exact .refl key n now

theorem bounded (h : Answers key n now c talk n' c' o) (hb : n.Bounded) : n'.Bounded := by
  cases h with
  | created => exact Node.spans_bounded.put n key _ hb
  | expired => exact Node.spans_bounded.expire n now key _ hb
  | seized =>
    exact Node.spans_bounded.expire _ now key _ (Node.spans_bounded.put n key _ hb)
  | freed => exact Node.spans_bounded.delete n key hb
  | _ => exact hb

/-- Unless the talk fails, its watch goes on or ends as its next phase says. -/
theorem watch (h : Answers key n now c talk n' c' o) (hb : n.Bounded)
    (hw : Watch key n now talk c) (m : Moment) (hf : (talk.resume m o).hasFailed = false) :
    Watch key n' now (talk.resume m o) c' := by
  cases h with
  | failed =>
    cases talk with
    | attempt a => cases hf
    | release r => cases hf
    | probe p => cases p <;> exact .idle rfl (hw.off rfl)
  | created | taken | expired | probed => exact .idle rfl (hw.off rfl)
  | watched | rewatched => exact .begin hb rfl rfl
  | yielded | seized | aborted | kept | freed | missed => exact .idle rfl rfl
  | @retried l k => cases k <;> exact .idle rfl rfl
  | read =>
    simp only [Talk.resume, Attempt.resume, Attempt.replied]
    cases hv : n.value? now key with
    | none => exact hw.rely rfl rfl (fun b hb => by cases hb)
    | some seen =>
      by_cases hs : isStale seen (UInt64.ofNat m.clock) = true
      · simp only [hs, if_true]
        exact hw.rely rfl rfl (fun b hb => hv.trans hb)
      · simp only [hs]
        exact hw.rely rfl rfl (fun b hb => by cases hb)
  | @reread hd =>
    simp only [Talk.resume, Release.resume, Release.replied]
    by_cases hv : n.value? now key = some hd.token.bytes
    · simp only [hv, if_true]
      exact hw.rely rfl rfl (fun b hb => hv.trans hb)
    · simp only [hv, if_false]
      exact hw.rely rfl rfl (fun b hb => by cases hb)

/-- The loan of a connection keeps the same account of the watch as the talk. -/
theorem flag (h : Answers key n now c talk n' c' o) {l : Loan Connection}
    (hl : l.isWatching = talk.isWatching) {request : Call} (hr : talk.call? = some request)
    (m : Moment) (hf : (talk.resume m o).hasFailed = false) :
    (({ l.before request with conn := c' } : Loan Connection).after request o).isWatching =
      (talk.resume m o).isWatching := by
  cases h with
  | failed =>
    cases talk with
    | attempt a => cases hf
    | release r => cases hf
    | probe p =>
      cases p with
      | reading k => cases hf
      | _ => cases hr
  | @retried l k => cases hr; cases k <;> rfl
  | read =>
    cases hr
    simp only [Talk.resume, Attempt.resume, Attempt.replied]
    cases hv : n.value? now key with
    | none => exact hl
    | some seen => by_cases hs : isStale seen (UInt64.ofNat m.clock) = true <;>
        simp [hs, hl, Loan.before, Loan.after, Loan.endsWatch, Talk.isWatching]
  | @reread hd =>
    cases hr
    simp only [Talk.resume, Release.resume, Release.replied]
    by_cases hv : n.value? now key = some hd.token.bytes <;>
      simp [hv, hl, Loan.before, Loan.after, Loan.endsWatch, Talk.isWatching]
  | created | taken | expired | probed => cases hr; exact hl
  | watched | rewatched | yielded | seized | aborted | kept | freed | missed => cases hr; rfl

end Answers

end Contention
end Holdfast
