import Holdfast.Proofs.Acquisition.Course
import Holdfast.Proofs.Contention.Answer
import Holdfast.Proofs.Works
import Holdfast.Proofs.Pool.Errand

namespace Holdfast

open Store Lock Lock.Attempt

/-- The turn that an answer brings to an attempt which waits for it. -/
def Errand.turn? (d : Deployment) : Errand → Option Turn
  | .talking _ (some flight) talk => talk.call?.map (⟨·, d.outcome flight, d.moment⟩)
  | _ => none

/-- The moment at which an errand has its connection. -/
def Errand.entry? (d : Deployment) : Errand → Option Moment
  | .borrowing b _ =>
    match b.result? with
    | some (.ok _) => some d.moment
    | _ => none
  | _ => none

theorem Errand.eq_over {e : Errand} {talk : Talk} (h : e.talk? = some talk) : e = .over talk := by
  cases e <;> cases h
  rfl

namespace Deployment

/-- An attempt to take a lock, asked for in a deployment, the moment at which it has its connection,
and the turns that it has had so far. What happens beside it may do anything to the deployment but
draw an owner a second time. -/
inductive Attempts (l : PlacedLock) (d₀ : Deployment) :
    Deployment → Errand → Option Moment → List Turn → Prop
  | start : Attempts l d₀ (d₀.startAttempt l).1 (d₀.startAttempt l).2 none []
  | step {d d' : Deployment} {e e' : Errand} {began : Option Moment} {xs : List Turn}
      (so : Attempts l d₀ d e began xs) (step : d.stepErrand e = some (d', e')) :
      Attempts l d₀ d' e' (began.or (e.entry? d)) (xs ++ (e.turn? d).toList)
  | beside {d d' : Deployment} {e : Errand} {began : Option Moment} {xs : List Turn}
      (so : Attempts l d₀ d e began xs) (draws : d.nextOwner ≤ d'.nextOwner) :
      Attempts l d₀ d' e began xs

end Deployment

/-- A loan keeps the same account of the watch as the attempt that has it. -/
theorem Lock.Attempt.Hears.watch {a b : Attempt} {x : Turn} (h : Hears a x b) {loan : Loan Link}
    (hl : loan.isWatching = (Talk.attempt a).isWatching) (conn : Link) :
    (({ loan.before x.call with conn } : Loan Link).after x.call x.outcome).isWatching =
      (Talk.attempt b).isWatching := by
  cases h with
  | created | taken | expired | vanished | stale | live => exact hl
  | watched | yielded | again | exhausted | seized => rfl

theorem Loan.isBroken_after (loan : Loan Link) (request : Call) (o : Outcome) :
    (loan.after request o).isBroken = loan.isBroken := by
  unfold Loan.after
  split <;> rfl

theorem Loan.isBroken_before (loan : Loan Link) (request : Call) :
    (loan.before request).isBroken = loan.isBroken := by
  cases request <;> rfl

/-- A connection is lent unmarked. -/
def Checkout.IsFresh (c : Checkout Link) : Prop :=
  ∀ loan, c = .over (.ok loan) → loan.isBroken = false ∧ loan.isWatching = false

namespace Checkout

theorem isFresh_lend (conn : Link) : (lend conn).IsFresh := by
  intro loan h
  cases h
  exact ⟨rfl, rfl⟩

theorem isFresh_choose (p : Pool Link) : (choose p).2.IsFresh := by
  unfold choose
  split
  · split
    · rintro loan ⟨⟩
    · exact isFresh_lend _
  · rintro loan ⟨⟩

theorem isFresh_start (p : Pool Link) (now : Nat) : (start p now).2.IsFresh := by
  unfold start
  split
  · rintro loan ⟨⟩
  · exact isFresh_choose _
  · rintro loan ⟨⟩

theorem isFresh_wake? {p : Pool Link} {now ticket deadline : Nat} {next : Pool Link × Checkout Link}
    (h : wake? p now ticket deadline = some next) : next.2.IsFresh := by
  unfold wake? at h
  split at h
  · cases h
    rintro loan ⟨⟩
  · cases h
    exact isFresh_choose _
  · split at h
    · cases h
      rintro loan ⟨⟩
    · cases h

theorem isFresh_tested (p : Pool Link) (conn : Link) (o : Outcome) :
    (tested p conn o).2.IsFresh := by
  cases o with
  | ok reply => exact isFresh_lend conn
  | error f => exact isFresh_choose p

theorem isFresh_opened (p : Pool Link) (r : Except Failure Link) : (opened p r).2.IsFresh := by
  cases r with
  | ok conn => exact isFresh_lend conn
  | error f => rintro loan ⟨⟩

end Checkout

namespace Deployment

variable {d d' : Deployment}

theorem isFresh_borrow (d : Deployment) (id : Nat) : (d.borrow id).2.checkout.IsFresh := by
  unfold borrow
  split
  · exact Checkout.isFresh_start _ _
  · rintro loan ⟨⟩

theorem isFresh_stepBorrowing {b b' : Borrowing} (hb : b.checkout.IsFresh)
    (h : d.stepBorrowing b = some (d', b')) : b'.checkout.IsFresh := by
  obtain ⟨pool, checkout, flight⟩ := b
  unfold stepBorrowing at h
  obtain ⟨p, -, h⟩ := Option.bind_eq_some_iff.mp h
  split at h
  · cases h
  · obtain ⟨next, hnext, h⟩ := Option.bind_eq_some_iff.mp h
    cases h
    exact Checkout.isFresh_wake? hnext
  · cases h
    rintro loan ⟨⟩
  · split at h
    · cases h
      exact Checkout.isFresh_tested _ _ _
    · cases h
  · cases h
    exact hb
  · split at h
    · cases h
      exact Checkout.isFresh_opened _ _
    · cases h

/-- Where the errand of an attempt stands, and what its loan has on record of the turns. -/
inductive OnCourse (l : Lock) : Option Moment → Errand → List Turn → Prop
  | borrowing {b : Borrowing} (fresh : b.checkout.IsFresh) :
      OnCourse l none (.borrowing b (.attempt l)) []
  | refused {f : Failure} :
      OnCourse l none (.over (.attempt ⟨l, maxRetries, .over (.error f)⟩)) []
  | speaking {m : Moment} {lent : Lent} {a : Attempt} {xs : List Turn}
      (so : (Attempt.start l m).after xs = some a) (unmarked : lent.loan.isBroken = false)
      (watch : (Talk.attempt a).hasFailed = false →
        lent.loan.isWatching = (Talk.attempt a).isWatching) :
      OnCourse l (some m) (.talking lent none (.attempt a)) xs
  | hearing {m : Moment} {lent : Lent} {flight : Flight} {a : Attempt} {request : Call}
      {loan : Loan Link} {xs : List Turn} (so : (Attempt.start l m).after xs = some a)
      (call : a.call? = some request) (unmarked : loan.isBroken = false)
      (watch : loan.isWatching = (Talk.attempt a).isWatching)
      (lends : lent.loan = { loan.before request with conn := lent.loan.conn }) :
      OnCourse l (some m) (.talking lent (some flight) (.attempt a)) xs
  | done {m : Moment} {a : Attempt} {result : Except Failure (Option Handle)} {xs : List Turn}
      (so : (Attempt.start l m).after xs = some a) (ended : a.phase = .over result) :
      OnCourse l (some m) (.over (.attempt a)) xs

variable {l : Lock} {m : Moment} {began : Option Moment} {e e' : Errand} {xs : List Turn}

theorem hasFailed_of_call? {a : Attempt} {request : Call} (h : a.call? = some request) :
    (Talk.attempt a).hasFailed = false := by
  obtain ⟨l, k, phase⟩ := a
  cases phase <;> first | rfl | cases h

theorem onCourse_start (d : Deployment) (l : PlacedLock) :
    OnCourse l.lock none (d.startAttempt l).2 [] := by
  unfold startAttempt startErrand
  dsimp only
  split
  · exact .borrowing (isFresh_borrow _ _)
  · exact .refused

theorem OnCourse.step (h : OnCourse l began e xs) (hstep : d.stepErrand e = some (d', e')) :
    OnCourse l (began.or (e.entry? d)) e' (xs ++ (e.turn? d).toList) := by
  cases h with
  | refused => cases hstep
  | done => cases hstep
  | @borrowing b fresh =>
    simp only [stepErrand] at hstep
    split at hstep
    · next lent hlent =>
      cases hstep
      obtain ⟨unmarked, watch⟩ := fresh _ (Borrowing.result?_ok hlent).2
      simp only [Errand.entry?, hlent]
      exact .speaking rfl unmarked fun _ => watch
    · next f hf =>
      cases hstep
      simp only [Errand.entry?, hf]
      exact .refused
    · next hwaits =>
      obtain ⟨⟨d₁, b'⟩, hb, hstep⟩ := Option.bind_eq_some_iff.mp hstep
      cases hstep
      simp only [Errand.entry?, hwaits]
      exact .borrowing (isFresh_stepBorrowing fresh hb)
  | @speaking m lent a xs so unmarked watch =>
    have hturn : xs ++ ((Errand.talking lent none (.attempt a)).turn? d).toList = xs := by
      simp [Errand.turn?]
    rw [hturn]
    simp only [stepErrand] at hstep
    split at hstep
    · next hcall =>
      cases hstep
      obtain ⟨result, hresult⟩ := call?_eq_none.mp hcall
      exact .done so hresult
    · next request hcall =>
      cases hstep
      exact .hearing so hcall unmarked (watch (hasFailed_of_call? hcall)) rfl
  | @hearing m lent flight a request loan xs so call unmarked watch lends =>
    have hcall : (Talk.attempt a).call? = some request := call
    simp only [stepErrand, hcall] at hstep
    split at hstep
    · cases hstep
      have hturn : ((Errand.talking lent (some flight) (.attempt a)).turn? d).toList =
          [⟨request, d.outcome flight, d.moment⟩] := by simp [Errand.turn?, hcall]
      rw [hturn]
      refine .speaking (after_concat (x := ⟨request, d.outcome flight, d.moment⟩) so call) ?_ ?_
      · rw [Loan.isBroken_after, lends]
        exact (Loan.isBroken_before loan request).trans unmarked
      · intro hsound
        have hcases := resume_cases (x := ⟨request, d.outcome flight, d.moment⟩) call
        dsimp only at hcases
        rcases hcases with ⟨f, -, hend⟩ | ⟨-, hears⟩
        · rw [hend] at hsound
          cases hsound
        · rw [lends]
          exact hears.watch watch lent.loan.conn
    · cases hstep

theorem Attempts.onCourse {l : PlacedLock} {d₀ : Deployment} (h : Attempts l d₀ d e began xs) :
    OnCourse l.lock began e xs := by
  induction h with
  | start => exact onCourse_start d₀ l
  | step _ hstep ih => exact ih.step hstep
  | beside _ _ ih => exact ih

def draw (n : Nat) : BitVec 128 := BitVec.ofNat 128 (1 <<< 127 + n)

/-- Moments whose owners were drawn one after the other, from one draw on and before another. -/
def Drawn (first last : Nat) (ms : List Moment) : Prop :=
  ∃ ns : List Nat, ns.Pairwise (· < ·) ∧ (∀ n ∈ ns, first ≤ n ∧ n < last) ∧
    ms.map (·.owner) = ns.map draw

theorem Drawn.mono {first last last' : Nat} {ms : List Moment} (h : Drawn first last ms)
    (hle : last ≤ last') : Drawn first last' ms := by
  obtain ⟨ns, hpairwise, hbounds, howners⟩ := h
  refine ⟨ns, hpairwise, ?_, howners⟩
  intro n hn
  obtain ⟨hfirst, hlast⟩ := hbounds n hn
  exact ⟨hfirst, Nat.lt_of_lt_of_le hlast hle⟩

theorem Drawn.concat {first last : Nat} {ms : List Moment} {m : Moment} (h : Drawn first last ms)
    (hfirst : first ≤ last) (hm : m.owner = draw last) : Drawn first (last + 1) (ms ++ [m]) := by
  obtain ⟨ns, hpairwise, hbounds, howners⟩ := h
  refine ⟨ns ++ [last], ?_, ?_, by simp [howners, hm]⟩
  · refine List.pairwise_append.mpr ⟨hpairwise, List.pairwise_singleton _ _, ?_⟩
    intro n hn n' hn'
    rw [List.mem_singleton.mp hn']
    exact (hbounds n hn).2
  · intro n hn
    rcases List.mem_append.mp hn with hn | hn
    · exact ⟨(hbounds n hn).1, Nat.lt_succ_of_lt (hbounds n hn).2⟩
    · rw [List.mem_singleton.mp hn]
      exact ⟨hfirst, Nat.lt_succ_self _⟩

/-- So is a connection entered on. -/
theorem entry?_eq_some (hm : e.entry? d = some m) (hstep : d.stepErrand e = some (d', e')) :
    d' = d.spendOwner ∧ m = d.moment ∧ e.turn? d = none ∧ ∃ b aim, e = .borrowing b aim := by
  cases e with
  | borrowing b aim =>
    cases hr : b.result? with
    | none => simp [Errand.entry?, hr] at hm
    | some r =>
      cases r with
      | error f => simp [Errand.entry?, hr] at hm
      | ok lent =>
        simp only [Errand.entry?, hr, Option.some.injEq] at hm
        simp only [stepErrand, hr] at hstep
        cases hstep
        exact ⟨rfl, hm.symm, rfl, b, aim, rfl⟩
  | _ => cases hm

/-- An answer is heard with an owner that has not been drawn before. -/
theorem turn?_eq_some {x : Turn} (hx : e.turn? d = some x)
    (hstep : d.stepErrand e = some (d', e')) : d' = d.spendOwner ∧ x.heard = d.moment := by
  unfold Errand.turn? at hx
  split at hx
  · next lent flight talk =>
    obtain ⟨request, -, rfl⟩ := Option.map_eq_some_iff.mp hx
    simp only [stepErrand] at hstep
    split at hstep
    · cases hstep
      exact ⟨rfl, rfl⟩
    · cases hstep
  · cases hx

/-- A talk waits for nothing but the answer to a call. -/
theorem waits_for_answer {lent : Lent} {flight : Option Flight} {talk : Talk}
    (h : d.stepErrand (.talking lent flight talk) = none) :
    ∃ f, flight = some f ∧ d.now < f.due := by
  cases flight with
  | none =>
    simp only [stepErrand] at h
    split at h <;> cases h
  | some f =>
    simp only [stepErrand] at h
    split at h
    · cases h
    · next hlanded => exact ⟨f, rfl, by simpa [hasLanded] using hlanded⟩

/-- A connection comes back sound unless a call has failed on it or a watch is pending. -/
theorem endErrand_pools (d : Deployment) (lent : Lent) (talk : Talk) :
    (d.endErrand lent talk).1.pools = d.pools.modify lent.pool fun p =>
      (p.checkIn lent.loan.conn (!talk.hasFailed && lent.loan.isSound)).giveBack := by
  cases hfailed : talk.hasFailed <;>
    simp [endErrand, hfailed, restore, modifyPool, Pool.restore, Loan.isSound, Loan.markBroken]

/-- How an attempt has ended, with the pool before and after its connection came back. -/
structure Ended (l : Lock) (m : Moment) (d d' : Deployment) (lent : Lent) (xs : List Turn)
    (result : Except Failure (Option Handle)) : Prop where
  talked : Talked l m xs result
  won : ∀ handle, result = .ok (some handle) ↔ ∃ t, Wins l t xs ∧ handle = l.handle t
  failed : ∀ f, result = .error f ↔ ∃ x ∈ xs, x.failure? = some f
  unwatched : result.isOk = true → lent.loan.isWatching = false
  returned : d'.pools = d.pools.modify lent.pool fun p =>
    (p.checkIn lent.loan.conn result.isOk).giveBack

/-- Where no call is left, the connection comes back and the errand is over. -/
theorem OnCourse.ended {lent : Lent} {flight : Option Flight} {talk talk' : Talk}
    (h : OnCourse l (some m) (.talking lent flight talk) xs)
    (hstep : d.stepErrand (.talking lent flight talk) = some (d', .over talk')) :
    flight = none ∧ talk' = talk ∧ Ended l m d d' lent xs talk.acquired := by
  cases h with
  | hearing so call =>
    simp only [stepErrand] at hstep
    split at hstep <;> cases hstep
  | @speaking _ lent a xs so unmarked watch =>
    simp only [stepErrand] at hstep
    split at hstep
    · next hcall =>
      cases hstep
      obtain ⟨l', k, phase⟩ := a
      obtain ⟨result, rfl⟩ := call?_eq_none.mp hcall
      have talked : Talked l m xs result := talked_of_after so rfl
      have hreturned := endErrand_pools d lent (.attempt ⟨l', k, .over result⟩)
      refine ⟨rfl, rfl, talked, fun _ => talked.won_iff, fun _ => talked.failed_iff, ?_, ?_⟩
      · intro hok
        cases result with
        | ok r => exact watch rfl
        | error f => cases hok
      · cases result with
        | ok r =>
          have hsound : lent.loan.isSound = true := by
            simp [Loan.isSound, unmarked, watch rfl, Talk.isWatching]
          rw [hsound] at hreturned
          exact hreturned
        | error f => exact hreturned
    · cases hstep

/-- An attempt that has not failed to get a connection has a call to make as long as it is not over.
-/
theorem OnCourse.leads {lent : Lent} {flight : Option Flight} {talk : Talk} {request : Call}
    (h : OnCourse l (some m) (.talking lent flight talk) xs) (hcall : talk.call? = some request) :
    Leads l m xs request := by
  cases h with
  | speaking so => exact leads_of_after so hcall
  | hearing so => exact leads_of_after so hcall

theorem OnCourse.borrows {b : Borrowing} {aim : Aim} (h : OnCourse l began (.borrowing b aim) xs) :
    began = none ∧ xs = [] := by
  cases h
  exact ⟨rfl, rfl⟩

theorem OnCourse.talks {lent : Lent} {flight : Option Flight} {talk : Talk}
    (h : OnCourse l began (.talking lent flight talk) xs) : ∃ m, began = some m := by
  cases h <;> exact ⟨_, rfl⟩

theorem OnCourse.length_le (h : OnCourse l began e xs) : xs.length ≤ 16 := by
  cases h with
  | borrowing | refused => exact Nat.zero_le _
  | speaking so | hearing so | done so => exact length_le_of_after so

section
variable {l : PlacedLock} {d₀ : Deployment}

theorem Attempts.owners (h : Attempts l d₀ d e began xs) : d₀.nextOwner ≤ d.nextOwner := by
  induction h with
  | start => exact (spans_onward.startAttempt d₀ l).owners
  | step _ hstep ih => exact Nat.le_trans ih (spans_onward.stepErrand hstep).owners
  | beside _ draws ih => exact Nat.le_trans ih draws

theorem Attempts.drawn (h : Attempts l d₀ d e began xs) :
    Drawn d₀.nextOwner d.nextOwner (began.toList ++ xs.map (·.heard)) := by
  induction h with
  | start => exact ⟨[], .nil, nofun, rfl⟩
  | @step d d' e e' began xs so hstep ih =>
    cases hentry : e.entry? d with
    | some m =>
      obtain ⟨rfl, rfl, hturn, b, aim, rfl⟩ := entry?_eq_some hentry hstep
      obtain ⟨rfl, rfl⟩ := so.onCourse.borrows
      rw [hturn]
      exact ih.concat so.owners rfl
    | none =>
      rw [Option.or_none]
      cases hturn : e.turn? d with
      | none => simpa using ih.mono (spans_onward.stepErrand hstep).owners
      | some x =>
        obtain ⟨rfl, hheard⟩ := turn?_eq_some hturn hstep
        change Drawn _ (d.nextOwner + 1) _
        simpa using ih.concat so.owners (congrArg Moment.owner hheard)
  | beside _ draws ih => exact ih.mono draws

/-- An attempt makes the calls of a course, cut short by the first of them that fails. Each token
that it writes has an owner drawn for that call. It brings the lock just where its last calls have
won it, and fails just where one of them has; its connection then comes back without a watch, or is
let go. -/
theorem attempt_keeps_course (h : Attempts l d₀ d e began xs) :
    Drawn d₀.nextOwner d.nextOwner (began.toList ++ xs.map (·.heard)) ∧ xs.length ≤ 16 ∧
    (∀ b aim, e = .borrowing b aim → began = none ∧ xs = []) ∧
    (∀ lent flight talk, e = .talking lent flight talk → ∃ m, began = some m ∧
      (∀ request, talk.call? = some request → Leads l.lock m xs request) ∧
      (d.stepErrand e = none → ∃ f, flight = some f ∧ d.now < f.due)) ∧
    ∀ d' talk, d.stepErrand e = some (d', .over talk) →
      (∃ b aim f, e = .borrowing b aim ∧ b.result? = some (.error f) ∧ xs = [] ∧
        talk.acquired = .error f) ∨
      ∃ m lent, began = some m ∧ e = .talking lent none talk ∧
        Ended l.lock m d d' lent xs talk.acquired := by
  have hso := h.onCourse
  refine ⟨h.drawn, hso.length_le, ?_, ?_, ?_⟩
  · rintro b aim rfl
    exact hso.borrows
  · rintro lent flight talk rfl
    obtain ⟨m, rfl⟩ := hso.talks
    exact ⟨m, rfl, fun request hcall => hso.leads hcall, waits_for_answer⟩
  · intro d' talk hstep
    match e with
    | .over _ => cases hstep
    | .talking lent flight talk' =>
      obtain ⟨m, rfl⟩ := hso.talks
      obtain ⟨rfl, rfl, hended⟩ := hso.ended hstep
      exact .inr ⟨m, lent, rfl, rfl, hended⟩
    | .borrowing b aim =>
      cases hso
      simp only [stepErrand] at hstep
      split at hstep
      · cases hstep
      · next f hf =>
        cases hstep
        exact .inl ⟨b, _, f, rfl, hf, rfl, rfl⟩
      · obtain ⟨_, _, hstep⟩ := Option.bind_eq_some_iff.mp hstep
        cases hstep

/-- What an errand comes to in some steps, with nothing happening beside it. -/
def trail : Nat → Deployment × Errand × Option Moment × List Turn →
    Deployment × Errand × Option Moment × List Turn
  | 0, s => s
  | n + 1, (d, e, began, xs) =>
    match d.stepErrand e with
    | none => (d, e, began, xs)
    | some (d', e') => trail n (d', e', began.or (e.entry? d), xs ++ (e.turn? d).toList)

theorem Attempts.trail {began' : Option Moment} {xs' : List Turn}
    (h : Attempts l d₀ d e began xs) {n : Nat}
    (ht : trail n (d, e, began, xs) = (d', e', began', xs')) :
    Attempts l d₀ d' e' began' xs' := by
  induction n generalizing d e began xs with
  | zero =>
    cases ht
    exact h
  | succ n ih =>
    simp only [Deployment.trail] at ht
    split at ht
    · cases ht
      exact h
    · next hstep => exact ih (h.step hstep) ht

end

/-- A router of one shard, whose store follows a script. -/
def scripted (lines : List Script.Line) : Deployment where
  stores := .script { lines }
  pools := [.new ⟨"h", 1⟩ {} .memory]
  routers := [{
    names := ["a"]
    ring := ⟨#[⟨0, 0⟩]⟩
    options := {}
    backend := .memory
    topology := ⟨[⟨"h", 1⟩]⟩
    pools := [0] }]

/-- The lock vanishes once; then something is read that is no token. -/
def vanishing : Deployment := scripted
  [.flag true, .flag false, .flag true, .nothing, .flag true, .flag false, .flag true,
    .value (.bytes [1, 2]), .effects [.previous (some (.bytes [1, 2])), .count 1]]

/-- An attempt starts again, replaces what it has read, and its connection comes back. -/
theorem attempt_keeps_course_takeover : ∃ (d d' : Deployment) (e : Errand) (m : Moment)
    (xs : List Turn) (lent : Lent) (talk : Talk),
    Attempts ⟨⟨"L", 30, 10⟩, 0⟩ vanishing d e (some m) xs ∧
    d.stepErrand e = some (d', .over talk) ∧
    xs.length = 8 ∧ Ended ⟨"L", 30, 10⟩ m d d' lent xs talk.acquired ∧
    talk.acquired.toOption = some (some (handle ⟨"L", 30, 10⟩ ⟨draw 7, 1700000030000⟩)) ∧
    d'.pools.map (·.idle.length) = [1] := by
  obtain ⟨s, hs, hfacts⟩ : ∃ s, trail 19 ((vanishing.startAttempt ⟨⟨"L", 30, 10⟩, 0⟩).1,
      (vanishing.startAttempt ⟨⟨"L", 30, 10⟩, 0⟩).2, none, []) = s ∧
      (s.1.stepErrand s.2.1).bind (fun next => next.2.talk?.map fun talk =>
        (s.2.2.2.length, talk.acquired.toOption, next.1.pools.map (·.idle.length))) =
      some (8, some (some (handle ⟨"L", 30, 10⟩ ⟨draw 7, 1700000030000⟩)), [1]) :=
    ⟨_, rfl, by decide +kernel⟩
  obtain ⟨d, e, began, xs⟩ := s
  obtain ⟨⟨d', e'⟩, hstep, hfacts⟩ := Option.bind_eq_some_iff.mp hfacts
  obtain ⟨talk, htalk, hfacts⟩ := Option.map_eq_some_iff.mp hfacts
  simp only [Prod.mk.injEq] at hfacts
  obtain ⟨hlength, hacquired, hidle⟩ := hfacts
  have so : Attempts ⟨⟨"L", 30, 10⟩, 0⟩ vanishing d e began xs := Attempts.start.trail hs
  obtain rfl := Errand.eq_over htalk
  obtain ⟨-, -, -, -, hended⟩ := attempt_keeps_course so
  rcases hended d' talk hstep with ⟨b, aim, f, -, -, hnil, -⟩ | ⟨m, lent, rfl, -, hended⟩
  · rw [hnil] at hlength
    cases hlength
  · exact ⟨d, d', e, m, xs, lent, talk, so, hstep, hlength, hended, hacquired, hidle⟩

end Deployment
end Holdfast
