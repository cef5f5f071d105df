import Holdfast.Lock.Attempt
import Holdfast.Proofs.Token

namespace Holdfast

open Store

/-- Whether a reply is of the kind that a call is answered with. -/
def Store.Reply.answers : Reply → Call → Bool
  | .flag _, .setIfAbsent .. | .flag _, .expire .. => true
  | .done, .watch _ | .done, .unwatch | .done, .ping => true
  | .value _, .get _ => true
  | .effects _, .exec _ => true
  | _, _ => false

namespace Lock

/-- A call of an attempt, what came of it, and the moment at which that was heard. -/
structure Attempt.Turn where
  call : Call
  outcome : Outcome
  heard : Moment

namespace Attempt

/-- Why a call has failed; a reply to another kind of call is a failure as well. -/
def Turn.failure? (x : Turn) : Option Failure :=
  match x.outcome with
  | .error f => some f
  | .ok reply => if reply.answers x.call then none else some mismatch

/-- Where an attempt stands after some turns, provided they are those that it takes. -/
def after (a : Attempt) : List Turn → Option Attempt
  | [] => some a
  | x :: xs => if a.call? = some x.call then (a.resume x.heard x.outcome).after xs else none

/-- What a reply of the right kind comes to. -/
inductive Hears : Attempt → Turn → Attempt → Prop
  | created {l : Lock} {k : Nat} {t : Token} {m : Moment} :
      Hears ⟨l, k, .creating t⟩ ⟨.setIfAbsent l.key t.bytes, .ok (.flag true), m⟩
        ⟨l, k, .expiring t⟩
  | taken {l : Lock} {k : Nat} {t : Token} {m : Moment} :
      Hears ⟨l, k, .creating t⟩ ⟨.setIfAbsent l.key t.bytes, .ok (.flag false), m⟩
        ⟨l, k, .watching⟩
  | expired {l : Lock} {k : Nat} {t : Token} {b : Bool} {m : Moment} :
      Hears ⟨l, k, .expiring t⟩ ⟨.expire l.key l.hold, .ok (.flag b), m⟩
        ⟨l, k, .over (.ok (some (l.handle t)))⟩
  | watched {l : Lock} {k : Nat} {m : Moment} :
      Hears ⟨l, k, .watching⟩ ⟨.watch l.key, .ok .done, m⟩ ⟨l, k, .reading⟩
  | vanished {l : Lock} {k : Nat} {m : Moment} :
      Hears ⟨l, k, .reading⟩ ⟨.get l.key, .ok (.value none), m⟩ ⟨l, k, .retrying⟩
  | stale {l : Lock} {k : Nat} {seen : Bytes} {m : Moment}
      (hs : isStale seen (UInt64.ofNat m.clock) = true) :
      Hears ⟨l, k, .reading⟩ ⟨.get l.key, .ok (.value (some seen)), m⟩
        ⟨l, k, .seizing (l.freshToken m) seen⟩
  | live {l : Lock} {k : Nat} {seen : Bytes} {m : Moment}
      (hs : isStale seen (UInt64.ofNat m.clock) = false) :
      Hears ⟨l, k, .reading⟩ ⟨.get l.key, .ok (.value (some seen)), m⟩ ⟨l, k, .yielding⟩
  | yielded {l : Lock} {k : Nat} {m : Moment} :
      Hears ⟨l, k, .yielding⟩ ⟨.unwatch, .ok .done, m⟩ ⟨l, k, .over (.ok none)⟩
  | again {l : Lock} {k : Nat} {m : Moment} :
      Hears ⟨l, k + 1, .retrying⟩ ⟨.unwatch, .ok .done, m⟩ ⟨l, k, .creating (l.freshToken m)⟩
  | exhausted {l : Lock} {m : Moment} :
      Hears ⟨l, 0, .retrying⟩ ⟨.unwatch, .ok .done, m⟩ ⟨l, 0, .over (.ok none)⟩
  | seized {l : Lock} {k : Nat} {t : Token} {seen : Bytes} {es : Option (List Effect)}
      {m : Moment} :
      Hears ⟨l, k, .seizing t seen⟩
        ⟨.exec [.put l.key t.bytes, .expire l.key l.hold], .ok (.effects es), m⟩
        ⟨l, k, .over (.ok (if tookOver seen es then some (l.handle t) else none))⟩

variable {a b : Attempt} {x : Turn} {xs ys : List Turn}

/-- A turn either fails, which ends the attempt, or takes it on. -/
theorem resume_cases (hc : a.call? = some x.call) :
    (∃ f, x.failure? = some f ∧ a.resume x.heard x.outcome = a.finish (.error f)) ∨
      (x.failure? = none ∧ Hears a x (a.resume x.heard x.outcome)) := by
  obtain ⟨l, k, phase⟩ := a
  obtain ⟨call, outcome, m⟩ := x
  cases outcome with
  | error f => exact .inl ⟨f, rfl, rfl⟩
  | ok reply =>
    cases phase <;> cases hc <;> cases reply <;> try exact .inl ⟨_, rfl, rfl⟩
    case creating.refl.flag t b =>
      cases b with
      | true => exact .inr ⟨rfl, .created⟩
      | false => exact .inr ⟨rfl, .taken⟩
    case expiring.refl.flag t b => exact .inr ⟨rfl, .expired⟩
    case watching.refl.done => exact .inr ⟨rfl, .watched⟩
    case reading.refl.value v =>
      cases v with
      | none => exact .inr ⟨rfl, .vanished⟩
      | some seen =>
        refine .inr ⟨rfl, ?_⟩
        simp only [resume, replied]
        split
        · next hs => exact .stale hs
        · next hs => exact .live (Bool.eq_false_iff.mpr hs)
    case yielding.refl.done => exact .inr ⟨rfl, .yielded⟩
    case retrying.refl.done =>
      cases k with
      | zero => exact .inr ⟨rfl, .exhausted⟩
      | succ k => exact .inr ⟨rfl, .again⟩
    case seizing.refl.effects t seen es => exact .inr ⟨rfl, .seized⟩

theorem Hears.call (h : Hears a x b) : a.call? = some x.call := by
  cases h <;> rfl

theorem Hears.resume (h : Hears a x b) : a.resume x.heard x.outcome = b := by
  cases h with
  | stale hs => simp [Attempt.resume, replied, hs]
  | live hs => simp [Attempt.resume, replied, hs]
  | _ => rfl

theorem after_append (a : Attempt) (xs ys : List Turn) :
    a.after (xs ++ ys) = (a.after xs).bind (·.after ys) := by
  induction xs generalizing a with
  | nil => rfl
  | cons x xs ih =>
    simp only [List.cons_append, after]
    split
    · exact ih _
    · rfl

theorem after_concat {a₀ : Attempt} (h : a₀.after xs = some a) (hc : a.call? = some x.call) :
    a₀.after (xs ++ [x]) = some (a.resume x.heard x.outcome) := by
  simp [after_append, h, after, hc]

theorem after_cons (h : Hears a x b) : a.after (x :: xs) = b.after xs := by
  simp [after, h.call, h.resume]

/-- The last turn was the call that was due, and took the attempt to where it stands. -/
theorem after_concat_eq {a₀ : Attempt} (h : a₀.after (xs ++ [x]) = some b) :
    ∃ a, a₀.after xs = some a ∧ a.call? = some x.call ∧ a.resume x.heard x.outcome = b := by
  rw [after_append] at h
  obtain ⟨a, ha, h⟩ := Option.bind_eq_some_iff.mp h
  simp only [after] at h
  split at h
  · next hc => exact ⟨a, ha, hc, Option.some.inj h⟩
  · cases h

theorem after_of_over (ha : a.call? = none) (h : a.after xs = some b) : xs = [] ∧ b = a := by
  cases xs with
  | nil => exact ⟨rfl, (Option.some.inj h).symm⟩
  | cons x xs => simp [after, ha] at h

theorem call?_eq_none : a.call? = none ↔ ∃ result, a.phase = .over result := by
  obtain ⟨l, k, phase⟩ := a
  cases phase <;> simp [call?]

theorem call?_of_over {result : Except Failure (Option Handle)} (h : a.phase = .over result) :
    a.call? = none := call?_eq_none.mpr ⟨result, h⟩

/-- An attempt that ends without a failure has heard a reply of the right kind to each call. -/
theorem hears_first {c : Call} {r : Option Handle} (hc : a.call? = some c)
    (h : a.after xs = some b) (hb : b.phase = .over (.ok r)) :
    ∃ y ys a', xs = y :: ys ∧ Hears a y a' ∧ a'.after ys = some b := by
  cases xs with
  | nil =>
    cases h
    rw [call?_of_over hb] at hc
    cases hc
  | cons y ys =>
    simp only [after] at h
    split at h
    · next hy =>
      rcases resume_cases hy with ⟨f, -, hf⟩ | ⟨-, hears⟩
      · rw [hf] at h
        obtain ⟨-, rfl⟩ := after_of_over rfl h
        cases hb
      · exact ⟨y, ys, _, rfl, hears, h⟩
    · cases h

/-- Whether replies may come that end an attempt without a failure. -/
def CanEnd (a : Attempt) : Prop :=
  ∃ ys b r, a.after ys = some b ∧ b.phase = .over (.ok r)

theorem canEnd_over {r : Option Handle} (h : a.phase = .over (.ok r)) : a.CanEnd :=
  ⟨[], a, r, rfl, h⟩

theorem Hears.canEnd (h : Hears a x b) (hb : b.CanEnd) : a.CanEnd := by
  obtain ⟨ys, c, r, hys, hc⟩ := hb
  exact ⟨x :: ys, c, r, (after_cons h).trans hys, hc⟩

theorem canEnd (ha : ∀ f, a.phase ≠ .over (.error f)) : a.CanEnd := by
  obtain ⟨l, k, phase⟩ := a
  let m : Moment := ⟨0, 0⟩
  have hexpiring (k : Nat) (t : Token) : CanEnd ⟨l, k, .expiring t⟩ :=
    (Hears.expired (b := true) (m := m)).canEnd (canEnd_over rfl)
  have hcreating (k : Nat) (t : Token) : CanEnd ⟨l, k, .creating t⟩ :=
    (Hears.created (m := m)).canEnd (hexpiring k t)
  have hseizing (t : Token) (seen : Bytes) : CanEnd ⟨l, k, .seizing t seen⟩ :=
    (@Hears.seized l k t seen none m).canEnd (canEnd_over rfl)
  have hreading : CanEnd ⟨l, k, .reading⟩ :=
    (@Hears.stale l k [] m rfl).canEnd (hseizing _ _)
  match phase, ha with
  | .creating t, _ => exact hcreating k t
  | .expiring t, _ => exact hexpiring k t
  | .watching, _ => exact (Hears.watched (m := m)).canEnd hreading
  | .reading, _ => exact hreading
  | .yielding, _ => exact (Hears.yielded (m := m)).canEnd (canEnd_over rfl)
  | .retrying, _ =>
    cases k with
    | zero => exact (Hears.exhausted (m := m)).canEnd (canEnd_over rfl)
    | succ k => exact (Hears.again (m := m)).canEnd (hcreating k _)
  | .seizing t seen, _ => exact hseizing t seen
  | .over (.error f), ha => exact absurd rfl (ha f)
  | .over (.ok r), _ => exact canEnd_over rfl

end Attempt

open Attempt

/-- The calls of a round in which the lock has vanished before its value could be read. -/
def vanishedRound (l : Lock) (t : Token) (m₁ m₂ m₃ m₄ : Moment) : List Turn :=
  [⟨.setIfAbsent l.key t.bytes, .ok (.flag false), m₁⟩, ⟨.watch l.key, .ok .done, m₂⟩,
    ⟨.get l.key, .ok (.value none), m₃⟩, ⟨.unwatch, .ok .done, m₄⟩]

/-- The turns of an attempt that no failure cuts short, and what comes of it. It begins at a moment,
and may start again some times. -/
inductive Course (l : Lock) : Nat → Moment → List Turn → Option Handle → Prop
  | created {k : Nat} {m m₁ m₂ : Moment} {b : Bool} :
      Course l k m
        [⟨.setIfAbsent l.key (l.freshToken m).bytes, .ok (.flag true), m₁⟩,
          ⟨.expire l.key l.hold, .ok (.flag b), m₂⟩]
        (some (l.handle (l.freshToken m)))
  | held {k : Nat} {m m₁ m₂ m₃ m₄ : Moment} {seen : Bytes}
      (live : isStale seen (UInt64.ofNat m₃.clock) = false) :
      Course l k m
        [⟨.setIfAbsent l.key (l.freshToken m).bytes, .ok (.flag false), m₁⟩,
          ⟨.watch l.key, .ok .done, m₂⟩, ⟨.get l.key, .ok (.value (some seen)), m₃⟩,
          ⟨.unwatch, .ok .done, m₄⟩]
        none
  | seized {k : Nat} {m m₁ m₂ m₃ m₄ : Moment} {seen : Bytes} {es : Option (List Effect)}
      (stale : isStale seen (UInt64.ofNat m₃.clock) = true) :
      Course l k m
        [⟨.setIfAbsent l.key (l.freshToken m).bytes, .ok (.flag false), m₁⟩,
          ⟨.watch l.key, .ok .done, m₂⟩, ⟨.get l.key, .ok (.value (some seen)), m₃⟩,
          ⟨.exec [.put l.key (l.freshToken m₃).bytes, .expire l.key l.hold], .ok (.effects es),
            m₄⟩]
        (if tookOver seen es then some (l.handle (l.freshToken m₃)) else none)
  | exhausted {m m₁ m₂ m₃ m₄ : Moment} :
      Course l 0 m (l.vanishedRound (l.freshToken m) m₁ m₂ m₃ m₄) none
  | again {k : Nat} {m m₁ m₂ m₃ m₄ : Moment} {xs : List Turn} {r : Option Handle}
      (rest : Course l k m₄ xs r) :
      Course l (k + 1) m (l.vanishedRound (l.freshToken m) m₁ m₂ m₃ m₄ ++ xs) r

section
variable {l : Lock} {k : Nat} {m : Moment} {xs : List Turn} {r : Option Handle}

/-- A course is what an attempt takes, and it ends with what the course comes to. -/
theorem Course.after (h : Course l k m xs r) :
    ∃ n, (⟨l, k, .creating (l.freshToken m)⟩ : Attempt).after xs = some ⟨l, n, .over (.ok r)⟩ := by
  induction h with
  | @created k =>
    rw [after_cons .created, after_cons .expired]
    exact ⟨k, rfl⟩
  | @held k _ _ _ _ _ _ live =>
    rw [after_cons .taken, after_cons .watched, after_cons (.live live), after_cons .yielded]
    exact ⟨k, rfl⟩
  | @seized k _ _ _ _ _ _ _ stale =>
    rw [after_cons .taken, after_cons .watched, after_cons (.stale stale), after_cons .seized]
    exact ⟨k, rfl⟩
  | exhausted =>
    rw [vanishedRound, after_cons .taken, after_cons .watched, after_cons .vanished,
      after_cons .exhausted]
    exact ⟨0, rfl⟩
  | again _ ih =>
    rw [vanishedRound, List.cons_append, List.cons_append, List.cons_append, List.cons_append,
      after_cons .taken, after_cons .watched, after_cons .vanished, after_cons .again]
    exact ih

/-- Whatever an attempt takes until it ends without a failure is a course. -/
theorem course_of_after {b : Attempt}
    (h : (⟨l, k, .creating (l.freshToken m)⟩ : Attempt).after xs = some b)
    (hb : b.phase = .over (.ok r)) : Course l k m xs r := by
  induction k using Nat.strongRecOn generalizing m xs with
  | ind k ih =>
    obtain ⟨x₁, xs₁, a₁, rfl, hears₁, h⟩ := hears_first rfl h hb
    cases hears₁ with
    | created =>
      obtain ⟨x₂, xs₂, a₂, rfl, hears₂, h⟩ := hears_first rfl h hb
      cases hears₂
      obtain ⟨rfl, rfl⟩ := after_of_over rfl h
      cases hb
      exact .created
    | taken =>
      obtain ⟨x₂, xs₂, a₂, rfl, hears₂, h⟩ := hears_first rfl h hb
      cases hears₂
      obtain ⟨x₃, xs₃, a₃, rfl, hears₃, h⟩ := hears_first rfl h hb
      cases hears₃ with
      | live hs =>
        obtain ⟨x₄, xs₄, a₄, rfl, hears₄, h⟩ := hears_first rfl h hb
        cases hears₄
        obtain ⟨rfl, rfl⟩ := after_of_over rfl h
        cases hb
        exact .held hs
      | stale hs =>
        obtain ⟨x₄, xs₄, a₄, rfl, hears₄, h⟩ := hears_first rfl h hb
        cases hears₄
        obtain ⟨rfl, rfl⟩ := after_of_over rfl h
        cases hb
        exact .seized hs
      | vanished =>
        obtain ⟨x₄, xs₄, a₄, rfl, hears₄, h⟩ := hears_first rfl h hb
        cases hears₄ with
        | exhausted =>
          obtain ⟨rfl, rfl⟩ := after_of_over rfl h
          cases hb
          exact .exhausted
        | again => exact .again (ih _ (Nat.lt_succ_self _) h)

theorem Course.failure? (h : Course l k m xs r) : ∀ x ∈ xs, x.failure? = none := by
  have hround (t : Token) (m₁ m₂ m₃ m₄ : Moment) :
      ∀ x ∈ l.vanishedRound t m₁ m₂ m₃ m₄, x.failure? = none := by
    simp [vanishedRound, Turn.failure?, Reply.answers]
  induction h with
  | created | held | seized => simp [Turn.failure?, Reply.answers]
  | exhausted => exact hround _ _ _ _ _
  | again _ ih =>
    intro x hx
    rcases List.mem_append.mp hx with hx | hx
    · exact hround _ _ _ _ _ x hx
    · exact ih x hx

theorem Course.length_le (h : Course l k m xs r) : xs.length ≤ 4 * (k + 1) := by
  induction h with
  | again _ ih =>
    simp only [List.length_append, vanishedRound, List.length_cons, List.length_nil]
    omega
  | _ => simp [vanishedRound]; try omega

theorem Course.two_le_length (h : Course l k m xs r) : 2 ≤ xs.length := by
  induction h <;> simp [vanishedRound]

/-- The last two of some turns have won a lock with a token: the creation of its key with the expiry
that was set after it, or the value that was read with the transaction that replaced just that. -/
inductive Wins (l : Lock) (t : Token) (xs : List Turn) : Prop
  | expired {x y : Turn} (last : [y, x] <:+ xs) (expiry : x.call = .expire l.key l.hold)
      (sound : x.failure? = none) (creation : y.call = .setIfAbsent l.key t.bytes)
  | replaced {x y : Turn} {seen : Bytes} {es : List Effect} (last : [y, x] <:+ xs)
      (read : y.outcome = .ok (.value (some seen)))
      (takeover : x.call = .exec [.put l.key t.bytes, .expire l.key l.hold])
      (outcome : x.outcome = .ok (.effects (some (.previous (some seen) :: es))))

theorem Attempt.tookOver_eq_true {seen : Bytes} {es : Option (List Effect)} :
    tookOver seen es = true ↔ ∃ rest, es = some (.previous (some seen) :: rest) := by
  constructor
  · intro h
    unfold tookOver at h
    split at h
    · next value rest =>
      obtain rfl : value = seen := by simpa using h
      exact ⟨rest, rfl⟩
    · cases h
  · rintro ⟨rest, rfl⟩
    simp [tookOver]

theorem last_two {x y x' y' : Turn} (front : List Turn) (h : [y, x] <:+ front ++ [y', x']) :
    y = y' ∧ x = x' := by
  obtain ⟨front', h⟩ := h
  simpa using (List.append_inj' h rfl).2

theorem wins_append {t : Token} {front : List Turn} (h : 2 ≤ xs.length) :
    Wins l t (front ++ xs) ↔ Wins l t xs := by
  have hlast {x y : Turn} : [y, x] <:+ front ++ xs ↔ [y, x] <:+ xs := by
    constructor
    · intro hyx
      exact List.suffix_of_suffix_length_le hyx (List.suffix_append front xs) h
    · intro hyx
      exact hyx.trans (List.suffix_append front xs)
  constructor
  · rintro (⟨last, expiry, sound, creation⟩ | ⟨last, read, takeover, outcome⟩)
    · exact .expired (hlast.mp last) expiry sound creation
    · exact .replaced (hlast.mp last) read takeover outcome
  · rintro (⟨last, expiry, sound, creation⟩ | ⟨last, read, takeover, outcome⟩)
    · exact .expired (hlast.mpr last) expiry sound creation
    · exact .replaced (hlast.mpr last) read takeover outcome

theorem not_wins_unwatch (front : List Turn) {t : Token} {y : Turn} {o : Outcome} :
    ¬ Wins l t (front ++ [y, ⟨.unwatch, o, m⟩]) := by
  rintro (⟨last, expiry, -, -⟩ | ⟨last, -, takeover, -⟩)
  · obtain ⟨-, rfl⟩ := last_two _ last
    cases expiry
  · obtain ⟨-, rfl⟩ := last_two _ last
    cases takeover

/-- A course has brought the lock just where its last two turns have won it. -/
theorem Course.won_iff {handle : Handle} (h : Course l k m xs r) :
    r = some handle ↔ ∃ t, Wins l t xs ∧ handle = l.handle t := by
  induction h with
  | created =>
    constructor
    · intro h
      cases h
      exact ⟨_, .expired (List.suffix_refl _) rfl rfl rfl, rfl⟩
    · rintro ⟨t, wins, rfl⟩
      rcases wins with ⟨last, -, -, creation⟩ | ⟨last, -, takeover, -⟩
      · obtain ⟨rfl, rfl⟩ := last_two [] last
        simp only [Call.setIfAbsent.injEq, Token.bytes_inj, true_and] at creation
        rw [creation]
      · obtain ⟨-, rfl⟩ := last_two [] last
        cases takeover
  | held | exhausted =>
    refine ⟨fun h => (by cases h), ?_⟩
    rintro ⟨t, wins, -⟩
    exact absurd wins (not_wins_unwatch [_, _])
  | @seized _ _ _ _ m₃ _ seen es =>
    constructor
    · intro h
      split at h
      · next htook =>
        cases h
        obtain ⟨rest, rfl⟩ := tookOver_eq_true.mp htook
        exact ⟨_, .replaced (List.suffix_append [_, _] _) rfl rfl rfl, rfl⟩
      · cases h
    · rintro ⟨t, wins, rfl⟩
      rcases wins with ⟨last, expiry, -, -⟩ | ⟨last, read, takeover, outcome⟩
      · obtain ⟨-, rfl⟩ := last_two [_, _] last
        cases expiry
      · obtain ⟨rfl, rfl⟩ := last_two [_, _] last
        cases read
        cases outcome
        have ht : l.freshToken m₃ = t := by simpa using takeover
        rw [if_pos (tookOver_eq_true.mpr ⟨_, rfl⟩), ht]
  | again rest ih => simp only [ih, wins_append rest.two_le_length]

end

/-- The turns of an attempt from its first call to its end, and what comes of it: a course, cut
short where a call fails. -/
inductive Talked (l : Lock) (m : Moment) : List Turn → Except Failure (Option Handle) → Prop
  | whole {xs : List Turn} {r : Option Handle} (course : Course l maxRetries m xs r) :
      Talked l m xs (.ok r)
  | cut {xs ys : List Turn} {x y : Turn} {r : Option Handle} {f : Failure}
      (course : Course l maxRetries m (xs ++ y :: ys) r) (call : x.call = y.call)
      (failure : x.failure? = some f) : Talked l m (xs ++ [x]) (.error f)

/-- Some turns with which a course begins, and the call that comes next in it. -/
def Leads (l : Lock) (m : Moment) (xs : List Turn) (request : Call) : Prop :=
  ∃ y ys r, Course l maxRetries m (xs ++ y :: ys) r ∧ y.call = request

section
variable {l : Lock} {m : Moment} {xs : List Turn} {a : Attempt}

/-- As long as an attempt has heard of no failure, it is on a course. -/
theorem leads_of_after {request : Call} (h : (Attempt.start l m).after xs = some a)
    (hc : a.call? = some request) : Leads l m xs request := by
  have hsound : ∀ f, a.phase ≠ .over (.error f) := by
    intro f hf
    rw [call?_of_over hf] at hc
    cases hc
  obtain ⟨ys, b, r, hys, hb⟩ := canEnd hsound
  have hall : (Attempt.start l m).after (xs ++ ys) = some b := by
    rw [after_append, h, Option.bind_some, hys]
  have hcourse : Course l maxRetries m (xs ++ ys) r := course_of_after hall hb
  obtain ⟨y, ys, a', rfl, hears, -⟩ := hears_first hc hys hb
  exact ⟨y, ys, r, hcourse, Option.some.inj (hears.call.symm.trans hc)⟩

/-- What an attempt takes until it ends is a course or the beginning of one, and what it comes to.
-/
theorem talked_of_after {result : Except Failure (Option Handle)}
    (h : (Attempt.start l m).after xs = some a) (ha : a.phase = .over result) :
    Talked l m xs result := by
  cases result with
  | ok r => exact .whole (course_of_after h ha)
  | error f =>
    rcases List.eq_nil_or_concat xs with rfl | ⟨xs, x, rfl⟩
    · cases h
      cases ha
    · rw [List.concat_eq_append] at h ⊢
      obtain ⟨a', h', hc, rfl⟩ := after_concat_eq h
      obtain ⟨y, ys, r, hcourse, hy⟩ := leads_of_after h' hc
      rcases resume_cases hc with ⟨f', hf, hend⟩ | ⟨-, hears⟩
      · rw [hend] at ha
        cases ha
        exact .cut hcourse hy.symm hf
      · generalize a'.resume x.heard x.outcome = b at ha hears
        cases hears <;> cases ha

variable {result : Except Failure (Option Handle)}

theorem Talked.after (h : Talked l m xs result) :
    ∃ a, (Attempt.start l m).after xs = some a ∧ a.phase = .over result := by
  cases h with
  | whole course =>
    obtain ⟨k, hk⟩ := course.after
    exact ⟨_, hk, rfl⟩
  | @cut xs ys x y r f course call failure =>
    obtain ⟨k, hk⟩ := course.after
    rw [after_append] at hk
    obtain ⟨a, ha, hrest⟩ := Option.bind_eq_some_iff.mp hk
    have hc : a.call? = some x.call := by
      simp only [Attempt.after] at hrest
      split at hrest
      · next hy => rw [hy, call]
      · cases hrest
    refine ⟨_, after_concat ha hc, ?_⟩
    rcases resume_cases hc with ⟨f', hf, hend⟩ | ⟨hsound, -⟩
    · rw [hend]
      rw [failure] at hf
      cases hf
      rfl
    · rw [failure] at hsound
      cases hsound

/-- An attempt has failed just where one of its calls has, which was its last one. -/
theorem Talked.failed_iff {f : Failure} (h : Talked l m xs result) :
    result = .error f ↔ ∃ x ∈ xs, x.failure? = some f := by
  cases h with
  | whole course =>
    refine ⟨fun h => (by cases h), ?_⟩
    rintro ⟨x, hx, hf⟩
    rw [course.failure? x hx] at hf
    cases hf
  | @cut xs ys x y r f' course call failure =>
    constructor
    · intro h
      cases h
      exact ⟨x, by simp, failure⟩
    · rintro ⟨x', hx', hf⟩
      rcases List.mem_append.mp hx' with hx' | hx'
      · rw [course.failure? x' (List.mem_append_left _ hx')] at hf
        cases hf
      · obtain rfl := List.mem_singleton.mp hx'
        rw [failure] at hf
        cases hf
        rfl

/-- It has brought the lock just where its last two calls have won it. -/
theorem Talked.won_iff {handle : Handle} (h : Talked l m xs result) :
    result = .ok (some handle) ↔ ∃ t, Wins l t xs ∧ handle = l.handle t := by
  cases h with
  | whole course => rw [Except.ok.injEq]; exact course.won_iff
  | @cut xs ys x y r f course call failure =>
    refine ⟨fun h => (by cases h), ?_⟩
    rintro ⟨t, wins, -⟩
    have hlast {x' y' : Turn} (h : [y', x'] <:+ xs ++ [x]) : x' = x := by
      have := h.getLast (by simp)
      simpa using this
    rcases wins with ⟨last, -, sound, -⟩ | ⟨last, -, takeover, outcome⟩
    · rw [hlast last, failure] at sound
      cases sound
    · rw [hlast last] at takeover outcome
      simp [Turn.failure?, outcome, takeover, Reply.answers] at failure

theorem Talked.length_le (h : Talked l m xs result) : xs.length ≤ 16 := by
  cases h with
  | whole course => exact course.length_le
  | cut course call failure =>
    have hle := course.length_le
    simp only [List.length_append, List.length_cons, List.length_nil, maxRetries] at hle ⊢
    omega

/-- Four rounds of four calls at most. -/
theorem length_le_of_after (h : (Attempt.start l m).after xs = some a) : xs.length ≤ 16 := by
  cases hcall : a.call? with
  | none =>
    obtain ⟨result, hresult⟩ := call?_eq_none.mp hcall
    exact (talked_of_after h hresult).length_le
  | some request =>
    obtain ⟨y, ys, r, hcourse, -⟩ := leads_of_after h hcall
    have hle := hcourse.length_le
    simp only [List.length_append, List.length_cons, maxRetries] at hle
    omega

end
end Lock
end Holdfast
