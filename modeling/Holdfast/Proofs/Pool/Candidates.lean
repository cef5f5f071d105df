import Holdfast.Proofs.Exchange
import Holdfast.Proofs.Pool.Errand

namespace Holdfast

open Store

/-- What a checkout says to stores, and what it hears. -/
inductive Borrowing.Note
  | asked (conn : Link)
  | heard (o : Outcome)
  | dialled
  | connected (r : Except Failure Link)

namespace Borrowing.Note

def isEviction : Note → Bool
  | heard (.error _) => true
  | heard (.ok _) | asked _ | dialled | connected _ => false

def isDial : Note → Bool
  | dialled => true
  | asked _ | heard _ | connected _ => false

end Borrowing.Note

def Pool.leaving (p : Pool κ) (rest : List κ) : Pool κ :=
  { p with free := p.free - 1, idle := rest }

namespace Deployment

open Borrowing

/-- What is noted of a step of a checkout. -/
def noted (d : Deployment) (b : Borrowing) : List Note :=
  match b.checkout, b.flight with
  | .testing conn, none => [.asked conn]
  | .testing _, some flight => [.heard (d.outcome flight)]
  | .opening, none => [.dialled]
  | .opening, some flight => [.connected (d.connected flight).2]
  | .queued .., _ | .over _, _ => []

/-- A checkout from a pool, with what is noted of it. Beside it anything may happen but to the
pool. -/
inductive Borrows (id : Nat) (d₀ : Deployment) : Deployment → Borrowing → List Note → Prop
  | start : Borrows id d₀ (d₀.borrow id).1 (d₀.borrow id).2 []
  | step {d d' : Deployment} {b b' : Borrowing} {notes : List Note}
      (so : Borrows id d₀ d b notes) (step : d.stepBorrowing b = some (d', b')) :
      Borrows id d₀ d' b' (notes ++ d.noted b)
  | aside {d d' : Deployment} {b : Borrowing} {notes : List Note}
      (so : Borrows id d₀ d b notes) (aside : d'.pools[id]? = d.pools[id]?) :
      Borrows id d₀ d' b notes

/-- The moment at which the answer that a checkout waits for has come. -/
def answered (d : Deployment) (b : Borrowing) : Deployment :=
  { d with now := max d.now ((b.flight.map Flight.due).getD 0) }

/-- Leaves a checkout to itself for some steps. -/
def pursue : Nat → Deployment × Borrowing × List Note → Deployment × Borrowing × List Note
  | 0, s => s
  | fuel + 1, (d, b, notes) =>
    match (d.answered b).stepBorrowing b with
    | some (d', b') => pursue fuel (d', b', notes ++ (d.answered b).noted b)
    | none => (d, b, notes)

theorem Borrows.pursue {id fuel : Nat} {d₀ d d' : Deployment} {b b' : Borrowing}
    {notes notes' : List Note} (h : Borrows id d₀ d b notes)
    (hr : pursue fuel (d, b, notes) = (d', b', notes')) : Borrows id d₀ d' b' notes' := by
  induction fuel generalizing d b notes with
  | zero => cases hr; exact h
  | succ fuel ih =>
    unfold Deployment.pursue at hr
    split at hr
    · next hstep =>
      have haside : Borrows id d₀ (d.answered b) b notes := h.aside rfl
      exact ih (haside.step hstep) hr
    · cases hr; exact h

theorem hasLanded_answered (d : Deployment) (id : Nat) (c : Checkout Link) (flight : Flight) :
    (d.answered ⟨id, c, some flight⟩).hasLanded flight = true :=
  decide_eq_true (Nat.le_max_right _ _)

theorem send_ping_link (d : Deployment) (l : Link) : (d.send l .ping).2.1 = l := by
  unfold send
  split
  · next c cluster _ =>
    simp only [Memory.Cluster.call]
    split
    · rfl
    · next s _ => cases hcut : c.isCut s <;> simp [Memory.Connection.call, hcut]
  · rfl
  · rfl
  · simp only [askEtcd, Etcd.Connection.call, Etcd.Connection.same, Exchange.run_bind]
    rfl
  · rfl

end Deployment

namespace Borrowing

/-- What a step of a checkout is, with what is noted of it. -/
inductive Moves (d : Deployment) (id : Nat) (p : Pool Link) :
    Borrowing → Deployment → Borrowing → List Note → Prop
  | woken {ticket deadline : Nat} {flight : Option Flight} {next : Pool Link × Checkout Link}
      (woken : Checkout.wake? p d.now ticket deadline = some next) :
      Moves d id p ⟨id, .queued ticket deadline, flight⟩ (d.setPool id next.1) ⟨id, next.2, none⟩ []
  | asked {conn : Link} :
      Moves d id p ⟨id, .testing conn, none⟩ (d.send conn .ping).1
        ⟨id, .testing conn, some (d.send conn .ping).2.2⟩ [.asked conn]
  | heard {conn : Link} {flight : Flight} :
      Moves d id p ⟨id, .testing conn, some flight⟩
        (d.setPool id (Checkout.tested p conn (d.outcome flight)).1)
        ⟨id, (Checkout.tested p conn (d.outcome flight)).2, none⟩ [.heard (d.outcome flight)]
  | dialled :
      Moves d id p ⟨id, .opening, none⟩ (d.dial p.backend p.endpoint).1
        ⟨id, .opening, some (d.dial p.backend p.endpoint).2⟩ [.dialled]
  | connected {flight : Flight} :
      Moves d id p ⟨id, .opening, some flight⟩
        ((d.connected flight).1.setPool id (Checkout.opened p (d.connected flight).2).1)
        ⟨id, (Checkout.opened p (d.connected flight).2).2, none⟩ [.connected (d.connected flight).2]

theorem moves_of_step {d d' : Deployment} {b b' : Borrowing} {p : Pool Link}
    (hp : d.pools[b.pool]? = some p) (h : d.stepBorrowing b = some (d', b')) :
    Moves d b.pool p b d' b' (d.noted b) := by
  obtain ⟨id, checkout, flight⟩ := b
  unfold Deployment.stepBorrowing at h
  simp only [hp, Option.bind_eq_bind, Option.bind_some] at h
  match checkout, flight, h with
  | .over _, _, h => cases h
  | .queued ticket deadline, _, h =>
    obtain ⟨next, hnext, h⟩ := Option.bind_eq_some_iff.mp h
    cases h
    exact .woken hnext
  | .testing conn, none, h =>
    cases h
    rw [d.send_ping_link conn]
    exact .asked
  | .testing conn, some flight, h =>
    simp only [Option.ite_none_right_eq_some] at h
    cases h.2
    exact .heard
  | .opening, none, h =>
    cases h
    exact .dialled
  | .opening, some flight, h =>
    simp only [Option.ite_none_right_eq_some] at h
    cases h.2
    exact .connected

/-- What is noted of connections that did not answer, each with its failure. -/
def evictions (tried : List (Link × Failure)) : List Note :=
  tried.flatMap fun (conn, f) => [.asked conn, .heard (.error f)]

theorem evictions_cons (t : Link × Failure) (tried : List (Link × Failure)) :
    evictions (t :: tried) = .asked t.1 :: .heard (.error t.2) :: evictions tried := rfl

@[simp] theorem evictions_concat (tried : List (Link × Failure)) (conn : Link) (f : Failure) :
    evictions (tried ++ [(conn, f)]) = evictions tried ++ [.asked conn, .heard (.error f)] := by
  simp [evictions]

@[simp] theorem length_evictions (tried : List (Link × Failure)) :
    (evictions tried).length = 2 * tried.length := by
  induction tried with
  | nil => rfl
  | cons t tried ih => rw [evictions_cons, List.length_cons, List.length_cons, ih]; rfl

@[simp] theorem countP_isEviction (tried : List (Link × Failure)) :
    (evictions tried).countP Note.isEviction = tried.length := by
  induction tried with
  | nil => rfl
  | cons t tried ih =>
    rw [evictions_cons, List.countP_cons_of_neg Bool.false_ne_true, List.countP_cons_of_pos rfl, ih]
    rfl

@[simp] theorem countP_isDial (tried : List (Link × Failure)) :
    (evictions tried).countP Note.isDial = 0 := by
  induction tried with
  | nil => rfl
  | cons t tried ih =>
    rw [evictions_cons, List.countP_cons_of_neg Bool.false_ne_true,
      List.countP_cons_of_neg Bool.false_ne_true, ih]

/-- What a checkout from a pool with a free permit comes to, what it makes of the pool, and what is
noted of it until then. -/
inductive Chosen (p : Pool Link) :
    Except Failure (Loan Link) → Pool Link → List Note → Prop
  | untested {conn : Link} {rest : List Link} (idle : p.idle = conn :: rest)
      (tests : p.testOnBorrow = false) : Chosen p (.ok { conn }) (p.leaving rest) []
  /-- The first one that answers is lent, and those behind it stay where they are. -/
  | answered {tried : List (Link × Failure)} {conn : Link} {rest : List Link} {r : Reply}
      (idle : p.idle = tried.map Prod.fst ++ conn :: rest) (tests : p.testOnBorrow = true) :
      Chosen p (.ok { conn }) (p.leaving rest)
        (evictions tried ++ [.asked conn, .heard (.ok r)])
  | opened {tried : List (Link × Failure)} {conn : Link} (idle : p.idle = tried.map Prod.fst)
      (tests : p.testOnBorrow = true ∨ p.idle = []) :
      Chosen p (.ok { conn }) (p.leaving []) (evictions tried ++ [.dialled, .connected (.ok conn)])
  | refused {tried : List (Link × Failure)} {f : Failure} (idle : p.idle = tried.map Prod.fst)
      (tests : p.testOnBorrow = true ∨ p.idle = []) :
      Chosen p (.error f) (p.leaving []).giveBack
        (evictions tried ++ [.dialled, .connected (.error f)])

/-- Where a checkout stands, its pool, and what was noted of it. -/
inductive Stands (id : Nat) (p : Pool Link) : Borrowing → Pool Link → List Note → Prop
  | testing {tried : List (Link × Failure)} {conn : Link} {rest : List Link}
      (idle : p.idle = tried.map Prod.fst ++ conn :: rest) (tests : p.testOnBorrow = true) :
      Stands id p ⟨id, .testing conn, none⟩ (p.leaving rest) (evictions tried)
  | waiting {tried : List (Link × Failure)} {conn : Link} {rest : List Link} {flight : Flight}
      (idle : p.idle = tried.map Prod.fst ++ conn :: rest) (tests : p.testOnBorrow = true) :
      Stands id p ⟨id, .testing conn, some flight⟩ (p.leaving rest)
        (evictions tried ++ [.asked conn])
  | opening {tried : List (Link × Failure)} (idle : p.idle = tried.map Prod.fst)
      (tests : p.testOnBorrow = true ∨ p.idle = []) :
      Stands id p ⟨id, .opening, none⟩ (p.leaving []) (evictions tried)
  | dialling {tried : List (Link × Failure)} {flight : Flight} (idle : p.idle = tried.map Prod.fst)
      (tests : p.testOnBorrow = true ∨ p.idle = []) :
      Stands id p ⟨id, .opening, some flight⟩ (p.leaving []) (evictions tried ++ [.dialled])
  | chosen {r : Except Failure (Loan Link)} {q : Pool Link} {notes : List Note}
      (so : Chosen p r q notes) : Stands id p ⟨id, .over r, none⟩ q notes

section
variable {id : Nat} {p q : Pool Link} {b b' : Borrowing} {notes : List Note}

/-- A caller whose tries have all failed so far takes what comes next. -/
theorem stands_choose {tried : List (Link × Failure)} {rest : List Link}
    (idle : p.idle = tried.map Prod.fst ++ rest) (tests : p.testOnBorrow = true ∨ tried = []) :
    Stands id p ⟨id, (Checkout.choose (p.leaving rest)).2, none⟩
      (Checkout.choose (p.leaving rest)).1 (evictions tried) := by
  obtain ⟨hnone, hchoose⟩ | ⟨conn, left, hsome, hchoose⟩ :=
    Checkout.choose_cases (p.leaving rest)
  · obtain rfl : rest = [] := hnone
    rw [hchoose]
    have hall : p.idle = tried.map Prod.fst := idle.trans (List.append_nil _)
    exact .opening hall (tests.imp_right fun h => by rw [hall, h]; rfl)
  · obtain rfl : rest = conn :: left := hsome
    have hnext : Checkout.choose (p.leaving (conn :: left)) =
        (p.leaving left, if p.testOnBorrow then .testing conn else Checkout.lend conn) := hchoose
    rw [hnext]
    cases htests : p.testOnBorrow with
    | true => exact .testing idle htests
    | false =>
      obtain rfl : tried = [] := tests.resolve_left (by simp [htests])
      exact .chosen (.untested idle htests)

theorem Stands.step {d d' : Deployment} (so : Stands id p b q notes)
    (hq : d.pools[id]? = some q) (h : d.stepBorrowing b = some (d', b')) :
    ∃ q', d'.pools[id]? = some q' ∧ Stands id p b' q' (notes ++ d.noted b) := by
  have hset : ∀ {d₁ : Deployment} (q' : Pool Link), d₁.pools = d.pools →
      (d₁.setPool id q').pools[id]? = some q' := by
    intro d₁ q' hpools
    obtain ⟨hid, -⟩ := List.getElem?_eq_some_iff.mp hq
    exact List.getElem?_set_self (hpools ▸ hid)
  have hb : b.pool = id := by cases so <;> rfl
  have hmoves := moves_of_step (hb ▸ hq) h
  rw [hb] at hmoves
  generalize d.noted b = new at hmoves
  cases so with
  | chosen so => cases hmoves
  | @testing tried conn rest idle tests =>
    cases hmoves with
    | asked => exact ⟨_, by rw [d.send_pools, hq], .waiting idle tests⟩
  | @waiting tried conn rest flight idle tests =>
    cases hmoves with
    | heard =>
      refine ⟨_, hset _ rfl, ?_⟩
      rw [List.append_assoc, List.singleton_append]
      cases d.outcome flight with
      | ok r => exact .chosen (.answered idle tests)
      | error f =>
        rw [← evictions_concat]
        exact stands_choose (by simpa using idle) (.inl tests)
  | @opening tried idle tests =>
    cases hmoves with
    | dialled => exact ⟨_, by rw [d.dial_pools, hq], .dialling idle tests⟩
  | @dialling tried flight idle tests =>
    cases hmoves with
    | connected =>
      refine ⟨_, hset _ (d.connected_pools flight), ?_⟩
      rw [List.append_assoc, List.singleton_append]
      cases (d.connected flight).2 with
      | ok conn => exact .chosen (.opened idle tests)
      | error f => exact .chosen (.refused idle tests)

theorem Chosen.length_le {r : Except Failure (Loan Link)} (so : Chosen p r q notes) :
    notes.length ≤ 2 * (p.idle.length + 1) := by
  cases so with
  | untested => exact Nat.zero_le _
  | answered idle | opened idle | refused idle =>
    simp only [idle, List.length_append, length_evictions, List.length_map, List.length_cons,
      List.length_nil]
    omega

theorem Stands.length_le (so : Stands id p b q notes) :
    notes.length ≤ 2 * (p.idle.length + 1) := by
  cases so with
  | chosen so => exact so.length_le
  | testing idle | waiting idle | opening idle | dialling idle =>
    simp only [idle, List.length_append, length_evictions, List.length_map, List.length_cons,
      List.length_nil]
    omega

/-- A new connection is opened just where all idle ones have failed, and only once. -/
theorem Chosen.dials {r : Except Failure (Loan Link)} (so : Chosen p r q notes) :
    notes.countP Note.isDial =
      if notes.countP Note.isEviction = p.idle.length then 1 else 0 := by
  cases so with
  | untested idle => simp [idle]
  | answered idle => simp [idle, Note.isDial, Note.isEviction]
  | opened idle | refused idle => simp [idle, List.countP_cons, Note.isDial, Note.isEviction]

theorem Stands.goes_on {d : Deployment} (so : Stands id p b q notes)
    (hq : d.pools[id]? = some q) (hover : ∀ r, b.checkout ≠ .over r) :
    ((d.answered b).stepBorrowing b).isSome = true ∧ ((d.answered b).noted b).length = 1 ∧
      notes.length < 2 * (p.idle.length + 1) := by
  have hq' : (d.answered b).pools[id]? = some q := hq
  cases so with
  | chosen so => exact absurd rfl (hover _)
  | testing idle | opening idle =>
    refine ⟨by simp [Deployment.stepBorrowing, hq'], rfl, ?_⟩
    simp only [length_evictions, idle, List.length_append, List.length_map]
    omega
  | waiting idle | dialling idle =>
    refine ⟨by simp [Deployment.stepBorrowing, Deployment.hasLanded_answered, hq'], rfl, ?_⟩
    simp only [length_evictions, idle, List.length_append, List.length_map, List.length_cons,
      List.length_nil]
    omega

/-- A checkout that is left to itself takes every step, until it is over. -/
theorem Stands.ends {d : Deployment} {fuel : Nat} (so : Stands id p b q notes)
    (hq : d.pools[id]? = some q) (hfuel : 2 * (p.idle.length + 1) ≤ notes.length + fuel) :
    ∃ r, (Deployment.pursue fuel (d, b, notes)).2.1.checkout = .over r := by
  induction fuel generalizing d b q notes with
  | zero =>
    by_contra hover
    have hshort := (so.goes_on hq fun r hr => hover ⟨r, hr⟩).2.2
    omega
  | succ fuel ih =>
    unfold Deployment.pursue
    by_cases hover : ∃ r, b.checkout = .over r
    · obtain ⟨r, hr⟩ := hover
      have hnone : (d.answered b).stepBorrowing b = none := by
        simp only [Deployment.stepBorrowing, hr]
        cases (d.answered b).pools[b.pool]? <;> rfl
      exact ⟨r, by rw [hnone]; exact hr⟩
    · obtain ⟨hsome, hone, -⟩ := so.goes_on hq fun r hr => hover ⟨r, hr⟩
      obtain ⟨⟨d', b'⟩, hstep⟩ := Option.isSome_iff_exists.mp hsome
      obtain ⟨q', hq', so'⟩ := so.step (d := d.answered b) hq hstep
      rw [hstep]
      refine ih so' hq' ?_
      rw [List.length_append, hone]
      omega

theorem borrow_choose {d : Deployment} (hp : d.pools[id]? = some p) (hopen : p.isClosed = false)
    (hfree : 0 < p.free) :
    d.borrow id = d.settleBorrowing id (Checkout.choose (p.leaving p.idle)) := by
  obtain ⟨-, hstart⟩ | ⟨hnone, -⟩ := Checkout.start_open hopen d.now
  · simp only [Deployment.borrow, hp, hstart]
    rfl
  · exact absurd hnone (Nat.ne_of_gt hfree)

theorem stands_of_borrows {d₀ d : Deployment} (hp : d₀.pools[id]? = some p)
    (hopen : p.isClosed = false) (hfree : 0 < p.free) (h : d₀.Borrows id d b notes) :
    ∃ q, d.pools[id]? = some q ∧ Stands id p b q notes := by
  induction h with
  | start =>
    rw [borrow_choose hp hopen hfree]
    obtain ⟨hid, -⟩ := List.getElem?_eq_some_iff.mp hp
    exact ⟨_, List.getElem?_set_self hid, stands_choose (List.nil_append _).symm (.inr rfl)⟩
  | step _ step ih =>
    obtain ⟨q, hq, so⟩ := ih
    exact so.step hq step
  | aside _ aside ih =>
    obtain ⟨q, hq, so⟩ := ih
    exact ⟨q, aside.trans hq, so⟩

end

/-- A caller with a permit gets the first idle connection that answers, or a new one where none
does. The checkout ends with that, whatever the stores answer; where no connection is tested, it is
over at once. -/
theorem borrows_choose {d₀ : Deployment} {id : Nat} {p : Pool Link}
    (hp : d₀.pools[id]? = some p) (hopen : p.isClosed = false) (hfree : 0 < p.free) :
    (∀ {d : Deployment} {b : Borrowing} {notes : List Note}, d₀.Borrows id d b notes →
      notes.length ≤ 2 * (p.idle.length + 1) ∧
        (∃ r, (Deployment.pursue (2 * (p.idle.length + 1)) (d, b, notes)).2.1.checkout = .over r) ∧
        ∀ r, b.checkout = .over r →
          ∃ q, d.pools[id]? = some q ∧ Chosen p r q notes ∧
            notes.countP Note.isDial =
              if notes.countP Note.isEviction = p.idle.length then 1 else 0) ∧
    ∀ {conn : Link} {rest : List Link}, p.idle = conn :: rest → p.testOnBorrow = false →
      d₀.borrow id = (d₀.setPool id (p.leaving rest), ⟨id, .over (.ok { conn }), none⟩) := by
  constructor
  · intro d b notes h
    obtain ⟨q, hq, so⟩ := stands_of_borrows hp hopen hfree h
    refine ⟨so.length_le, so.ends hq (Nat.le_add_left ..), fun r hover => ?_⟩
    cases so with
    | chosen so =>
      cases hover
      exact ⟨q, hq, so, so.dials⟩
    | testing | waiting | opening | dialling => cases hover
  · intro conn rest hidle htests
    rw [borrow_choose hp hopen hfree]
    simp [Deployment.settleBorrowing, Checkout.choose, Pool.takeIdle, Pool.leaving, hidle, htests,
      Checkout.lend]

/-- A pool with three idle connections. -/
def threeIdle : Pool Link where
  endpoint := ⟨"store", 1⟩
  maxIdle := 3
  patience := 10
  testOnBorrow := true
  free := 2
  idle := [.scripted 3, .scripted 2, .scripted 1]

/-- The first connection that is asked is gone; the second one answers after a while and is lent. -/
theorem borrows_choose_second :
    let d₀ : Deployment := {
      stores := .script { lines := [.failure (.protocol "gone"), .later 5 (.flag true)] }
      pools := [threeIdle] }
    ∃ d b notes q, d₀.Borrows 0 d b notes ∧ d.pools[0]? = some q ∧ q.idle = [.scripted 1] ∧
      b.checkout = .over (.ok { conn := .scripted 2 }) ∧
      Chosen threeIdle (.ok { conn := .scripted 2 }) q notes := by
  intro d₀
  obtain ⟨s, hs, hidle, hover⟩ : ∃ s,
      Deployment.pursue 8 ((d₀.borrow 0).1, (d₀.borrow 0).2, []) = s ∧
        s.1.pools[0]?.map Pool.idle = some [.scripted 1] ∧
        s.2.1.checkout = .over (.ok { conn := .scripted 2 }) := ⟨_, rfl, rfl, rfl⟩
  obtain ⟨d, b, notes⟩ := s
  have so : d₀.Borrows 0 d b notes := Deployment.Borrows.start.pursue hs
  obtain ⟨-, -, hends⟩ := (borrows_choose (p := threeIdle) rfl rfl (by decide)).1 so
  obtain ⟨q, hq, hchosen, -⟩ := hends _ hover
  rw [hq] at hidle
  exact ⟨d, b, notes, q, so, hq, Option.some.inj hidle, hover, hchosen⟩

end Borrowing
end Holdfast
