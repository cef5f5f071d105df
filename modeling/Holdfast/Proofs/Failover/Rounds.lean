import Holdfast.Proofs.Works

namespace Holdfast

open Failover Store

namespace Failover

/-- A question to a peer about a shard, with its answer. -/
structure Query where
  peer : Endpoint
  name : String
  answer : Except Failure (Option Endpoint)

def Query.master? (q : Query) : Option Endpoint := q.answer.toOption.join

/-- A round of questions about one shard, which goes by its place among the names. While it lasts it
ends with the latest that has happened in it. -/
structure Round where
  shard : Nat
  began : Nat
  queries : List Query
  ended : Nat

namespace Round

/-- The master that a round has found by its last question. -/
def master? (R : Round) : Option Endpoint := R.queries.getLast?.bind Query.master?

/-- The peers were asked in order about the shard, and all but the last one for nothing. -/
structure Asks (peers : List Endpoint) (names : List String) (R : Round) : Prop where
  order : R.queries.map Query.peer <+: peers
  name : ∀ q ∈ R.queries, names[R.shard]? = some q.name
  missed : ∀ q ∈ R.queries.dropLast, q.master? = none

/-- All peers were asked for nothing. -/
def Fails (peers : List Endpoint) (R : Round) : Prop :=
  R.queries.map Query.peer = peers ∧ R.master? = none

/-- The next shard has its turn at once where a round has found a master; where it has failed, the
same one has, after a pause. -/
def Follows (peers : List Endpoint) (backoff : Nat) (later earlier : Round) : Prop :=
  (earlier.master?.isSome = true ∧ later.shard = earlier.shard + 1 ∧ later.began = earlier.ended) ∨
    (earlier.Fails peers ∧ later.shard = earlier.shard ∧ later.began = earlier.ended + backoff)

def heard (R : Round) (q : Query) (now : Nat) : Round :=
  { R with queries := R.queries ++ [q], ended := now }

end Round

/-- What may happen beside a search. A pause is not overslept; while the search is asking, peers may
take their time. -/
structure Search.Aside (s : Search) (d d' : Deployment) : Prop where
  now : d.now ≤ d'.now
  pause : ∀ due, s.phase = .pausing due → d.now < d'.now → d'.now ≤ due

/-- The rounds of a search, with one that it begins now. -/
def Search.opened (s : Search) (now : Nat) (rounds : List Round) : List Round :=
  match s.phase with
  | .asking _ => ⟨s.found.length, now, [], now⟩ :: rounds
  | .pausing _ | .over _ => rounds

end Failover

namespace Deployment

/-- What a step of a search adds to its rounds, the latest first. The next one begins once a master
is found or a pause is over. -/
def recorded (d : Deployment) (b : Backend) (s s' : Search) (rounds : List Round) : List Round :=
  match s.phase, s.question? with
  | .asking _, some (peer, name) =>
    let q : Query := ⟨peer, name, (d.ask b peer name).2⟩
    let rounds := rounds.modifyHead fun R => R.heard q d.now
    match q.master? with
    | some _ => s'.opened d.now rounds
    | none => rounds
  | .asking _, none => rounds.modifyHead fun R => { R with ended := d.now }
  | .pausing _, _ => s'.opened d.now rounds
  | .over _, _ => rounds

end Deployment

namespace Failover

open Deployment

/-- What a step of a search is, with what is recorded of it. -/
inductive Search.Moves (d : Deployment) (b : Backend) (s : Search) (rounds : List Round) :
    Deployment → Search → List Round → Prop
  | missed {peer : Endpoint} {ahead : List Endpoint} {name : String} {later : List String}
      (phase : s.phase = .asking (peer :: ahead)) (names : s.names = name :: later)
      (answer : (d.ask b peer name).2.toOption.join = none) :
      Moves d b s rounds (d.ask b peer name).1 { s with phase := .asking ahead }
        (rounds.modifyHead fun R => R.heard ⟨peer, name, (d.ask b peer name).2⟩ d.now)
  | found {peer : Endpoint} {ahead : List Endpoint} {name : String} {later : List String}
      {master : Endpoint} (phase : s.phase = .asking (peer :: ahead))
      (names : s.names = name :: later)
      (answer : (d.ask b peer name).2.toOption.join = some master) :
      Moves d b s rounds (d.ask b peer name).1
        (round { s with names := later, found := s.found ++ [master] })
        ((round { s with names := later, found := s.found ++ [master] }).opened d.now
          (rounds.modifyHead fun R => R.heard ⟨peer, name, (d.ask b peer name).2⟩ d.now))
  | failed {ahead : List Endpoint} (phase : s.phase = .asking ahead) (quiet : s.question? = none) :
      Moves d b s rounds d (s.failed d.now) (rounds.modifyHead fun R => { R with ended := d.now })
  | resumed {due : Nat} (phase : s.phase = .pausing due) (due : due ≤ d.now) :
      Moves d b s rounds d s.round (s.round.opened d.now rounds)

theorem Search.answered_none {s : Search} {answer : Except Failure (Option Endpoint)}
    {peer : Endpoint} {ahead : List Endpoint} (h : answer.toOption.join = none)
    (phase : s.phase = .asking (peer :: ahead)) :
    s.answered answer = { s with phase := .asking ahead } := by
  match answer with
  | .error f => simp [answered, phase]
  | .ok none => simp [answered, phase]

theorem Search.answered_some {s : Search} {answer : Except Failure (Option Endpoint)}
    {master : Endpoint} (h : answer.toOption.join = some master) :
    s.answered answer = round { s with names := s.names.tail, found := s.found ++ [master] } := by
  match answer with
  | .ok (some master) =>
    cases h
    rfl

theorem Search.moves_of_step {d d' : Deployment} {b : Backend} {s s' : Search}
    (h : d.stepSearch b s = some (d', s')) (rounds : List Round) :
    Moves d b s rounds d' s' (d.recorded b s s' rounds) := by
  obtain ⟨peers, backoff, retries, names, found, attempts, phase⟩ := s
  match phase, h with
  | .over _, h => cases h
  | .pausing due, h =>
    simp only [stepSearch, Option.ite_none_right_eq_some] at h
    obtain ⟨hdue, h⟩ := h
    cases h
    exact .resumed rfl hdue
  | .asking [], h =>
    cases h
    exact .failed rfl rfl
  | .asking (peer :: ahead), h =>
    cases names with
    | nil =>
      cases h
      exact .failed rfl rfl
    | cons name later =>
      simp only [stepSearch, question?, Option.some.injEq, Prod.mk.injEq] at h
      obtain ⟨rfl, rfl⟩ := h
      simp only [recorded, question?, Query.master?]
      cases hanswer : (d.ask b peer name).2.toOption.join with
      | none =>
        rw [answered_none hanswer rfl]
        exact .missed rfl rfl hanswer
      | some master =>
        rw [answered_some hanswer]
        exact .found rfl rfl hanswer

/-- Nothing was found by the peers who were asked about a shard. -/
def Silent (name : String) (asked : List Endpoint) (queries : List Query) : Prop :=
  queries.map Query.peer = asked ∧ ∀ q ∈ queries, q.name = name ∧ q.master? = none

/-- Rounds that are over, the latest first: the masters that they have found, how many of them have
failed, and when the next one begins. -/
inductive Course (peers : List Endpoint) (names : List String) (backoff start : Nat) :
    List Round → List Endpoint → Nat → Nat → Prop
  | start : Course peers names backoff start [] [] 0 start
  | found {rounds : List Round} {masters missed : List Endpoint} {failures next ended : Nat}
      {name : String} {queries : List Query} {q : Query} {master : Endpoint} {rest : List Endpoint}
      (so : Course peers names backoff start rounds masters failures next)
      (about : names[masters.length]? = some name) (silent : Silent name missed queries)
      (last : q.name = name ∧ q.master? = some master) (whole : missed ++ q.peer :: rest = peers) :
      Course peers names backoff start (⟨masters.length, next, queries ++ [q], ended⟩ :: rounds)
        (masters ++ [master]) failures ended
  | failed {rounds : List Round} {masters : List Endpoint} {failures next ended : Nat}
      {name : String} {queries : List Query}
      (so : Course peers names backoff start rounds masters failures next)
      (about : names[masters.length]? = some name) (silent : Silent name peers queries) :
      Course peers names backoff start (⟨masters.length, next, queries, ended⟩ :: rounds) masters
        (failures + 1) (ended + backoff)

/-- What a search that is not over keeps by itself. -/
structure Ledger (peers : List Endpoint) (names : List String) (retries backoff : Nat) (s : Search)
    (masters : List Endpoint) (failures attempts : Nat) : Prop where
  peers : s.peers = peers
  backoff : s.backoff = backoff
  names : s.names = names.drop masters.length
  found : s.found = masters
  retries : s.retries + failures = retries
  attempts : s.attempts = attempts

/-- Where a search stands whose rounds are these. -/
inductive Stands (peers : List Endpoint) (names : List String) (retries backoff start now : Nat)
    (s : Search) : List Round → Prop
  | asking {rounds : List Round} {masters ahead asked : List Endpoint} {failures next ended : Nat}
      {name : String} {queries : List Query}
      (so : Course peers names backoff start rounds masters failures next)
      (ledger : Ledger peers names retries backoff s masters failures (rounds.length + 1))
      (phase : s.phase = .asking ahead) (about : names[masters.length]? = some name)
      (silent : Silent name asked queries) (whole : asked ++ ahead = peers) :
      Stands peers names retries backoff start now s
        (⟨masters.length, next, queries, ended⟩ :: rounds)
  | pausing {rounds : List Round} {masters : List Endpoint} {failures due : Nat}
      (so : Course peers names backoff start rounds masters failures due)
      (ledger : Ledger peers names retries backoff s masters failures rounds.length)
      (phase : s.phase = .pausing due) (left : masters.length < names.length) (early : now ≤ due) :
      Stands peers names retries backoff start now s rounds
  | found {rounds : List Round} {masters : List Endpoint} {failures next : Nat}
      (so : Course peers names backoff start rounds masters failures next)
      (phase : s.phase = .over (.ok ⟨masters⟩)) (all : masters.length = names.length)
      (few : failures ≤ retries) :
      Stands peers names retries backoff start now s rounds
  | exhausted {rounds : List Round} {masters : List Endpoint} {next ended : Nat} {name : String}
      {queries : List Query} (so : Course peers names backoff start rounds masters retries next)
      (about : names[masters.length]? = some name) (silent : Silent name peers queries)
      (phase : s.phase = .over (.error (.undiscovered name peers (rounds.length + 1)))) :
      Stands peers names retries backoff start now s
        (⟨masters.length, next, queries, ended⟩ :: rounds)

section
variable {peers : List Endpoint} {names : List String} {retries backoff start : Nat}
  {rounds : List Round} {masters : List Endpoint} {failures next : Nat}

theorem Course.masters_le (so : Course peers names backoff start rounds masters failures next) :
    masters.length ≤ names.length := by
  induction so with
  | start => exact Nat.zero_le _
  | found _ about _ _ _ ih =>
    rw [List.length_append]
    exact (List.getElem?_eq_some_iff.mp about).1
  | failed _ _ _ ih => exact ih

/-- The first name that is left is that of the shard whose master is to be found next. -/
theorem Ledger.about {s : Search} {attempts : Nat} {name : String} {later : List String}
    (ledger : Ledger peers names retries backoff s masters failures attempts)
    (h : s.names = name :: later) : names[masters.length]? = some name := by
  rw [← List.head?_drop, ← ledger.names, h]
  rfl

theorem Ledger.first {s : Search} {attempts : Nat} {name : String}
    (ledger : Ledger peers names retries backoff s masters failures attempts)
    (about : names[masters.length]? = some name) : ∃ later, s.names = name :: later :=
  List.head?_eq_some_iff.mp (by rw [ledger.names, List.head?_drop, about])

theorem Course.round (so : Course peers names backoff start rounds masters failures next)
    {s : Search} (ledger : Ledger peers names retries backoff s masters failures rounds.length) :
    Stands peers names retries backoff start next s.round (s.round.opened next rounds) := by
  unfold Search.round
  cases hnames : s.names with
  | nil =>
    have hall : names.drop masters.length = [] := ledger.names.symm.trans hnames
    refine .found so (by rw [ledger.found]) ?_ ?_
    · exact Nat.le_antisymm so.masters_le (List.drop_eq_nil_iff.mp hall)
    · exact Nat.le.intro ((Nat.add_comm _ _).trans ledger.retries)
  | cons name later =>
    have hleft : name :: later = names.drop masters.length := hnames.symm.trans ledger.names
    simp only [Search.opened, ledger.found]
    exact .asking so ⟨ledger.peers, ledger.backoff, hleft, rfl, ledger.retries,
      congrArg (· + 1) ledger.attempts⟩ (congrArg _ ledger.peers) (ledger.about hnames)
      ⟨rfl, nofun⟩ rfl

theorem Silent.concat {name : String} {asked : List Endpoint} {queries : List Query} {q : Query}
    (h : Silent name asked queries) (hq : q.name = name ∧ q.master? = none) :
    Silent name (asked ++ [q.peer]) (queries ++ [q]) := by
  refine ⟨by rw [List.map_append, h.1, List.map_singleton], fun p hp => ?_⟩
  rcases List.mem_append.mp hp with hp | hp
  · exact h.2 p hp
  · rwa [List.mem_singleton.mp hp]

theorem Course.fail (so : Course peers names backoff start rounds masters failures next)
    {s : Search} {name : String} {queries : List Query} (now : Nat)
    (ledger : Ledger peers names retries backoff s masters failures (rounds.length + 1))
    (about : names[masters.length]? = some name) (silent : Silent name peers queries) :
    Stands peers names retries backoff start now (s.failed now)
      (⟨masters.length, next, queries, now⟩ :: rounds) := by
  have hbudget := ledger.retries
  unfold Search.failed
  cases hretries : s.retries with
  | zero =>
    obtain ⟨later, hnames⟩ := ledger.first about
    obtain rfl : failures = retries := by omega
    refine .exhausted so about silent ?_
    rw [hnames, ledger.peers, ledger.attempts]
    rfl
  | succ n =>
    have hfailed : Course peers names backoff start
        (⟨masters.length, next, queries, now⟩ :: rounds) masters (failures + 1) (now + backoff) :=
      so.failed about silent
    refine .pausing hfailed ⟨ledger.peers, ledger.backoff, ledger.names, ledger.found, ?_,
      ledger.attempts⟩ ?_ (List.getElem?_eq_some_iff.mp about).1 (Nat.le_add_right _ _)
    · dsimp only
      omega
    · rw [ledger.backoff]

namespace Stands

variable {d d' : Deployment} {b : Backend} {s s' : Search}

/-- A search keeps its ledger, whatever the peers answer. -/
theorem step (so : Stands peers names retries backoff start d.now s rounds)
    (h : d.stepSearch b s = some (d', s')) :
    Stands peers names retries backoff start d'.now s' (d.recorded b s s' rounds) := by
  have hnow := (stepSearch_works h).now
  have hmoves := Search.moves_of_step h rounds
  generalize d.recorded b s s' rounds = recorded at hmoves
  rw [hnow]
  cases so with
  | found so phase | exhausted so about silent phase =>
    cases hmoves <;> simp_all
  | pausing so ledger phase left early =>
    cases hmoves with
    | resumed phase' due =>
      obtain rfl := Search.Phase.pausing.inj (phase.symm.trans phase')
      obtain rfl := Nat.le_antisymm early due
      exact so.round ledger
    | _ => simp_all
  | @asking rounds masters ahead asked failures next _ name queries so ledger phase about silent
      whole =>
    cases hmoves with
    | resumed phase' => simp_all
    | @missed peer ahead' name' later phase' names' answer =>
      obtain rfl := Search.Phase.asking.inj (phase.symm.trans phase')
      obtain rfl := Option.some.inj (about.symm.trans (ledger.about names'))
      refine .asking so ⟨ledger.peers, ledger.backoff, ledger.names, ledger.found, ledger.retries,
        ledger.attempts⟩ rfl about (silent.concat ⟨rfl, answer⟩) ?_
      rw [← whole, List.append_assoc, List.singleton_append]
    | @found peer ahead' name' later master phase' names' answer =>
      obtain rfl := Search.Phase.asking.inj (phase.symm.trans phase')
      obtain rfl := Option.some.inj (about.symm.trans (ledger.about names'))
      have hfound : Course peers names backoff start (⟨masters.length, next,
          queries ++ [⟨peer, name, (d.ask b peer name).2⟩], d.now⟩ :: rounds)
          (masters ++ [master]) failures d.now := so.found about silent ⟨rfl, answer⟩ whole
      refine hfound.round ⟨ledger.peers, ledger.backoff, ?_, congrArg (· ++ [master]) ledger.found,
        ledger.retries, ledger.attempts⟩
      rw [List.length_append, List.length_singleton, ← List.tail_drop, ← ledger.names, names',
        List.tail_cons]
    | failed phase' quiet =>
      obtain rfl := Search.Phase.asking.inj (phase.symm.trans phase')
      obtain ⟨later, hnames⟩ := ledger.first about
      obtain rfl : ahead = [] := by
        cases ahead with
        | nil => rfl
        | cons peer ahead => simp [Search.question?, phase, hnames] at quiet
      rw [List.append_nil] at whole
      exact so.fail d.now ledger about (whole ▸ silent)

theorem aside (so : Stands peers names retries backoff start d.now s rounds) (h : s.Aside d d') :
    Stands peers names retries backoff start d'.now s rounds := by
  cases so with
  | asking so ledger phase about silent whole => exact .asking so ledger phase about silent whole
  | pausing so ledger phase left early =>
    refine .pausing so ledger phase left ?_
    rcases Nat.eq_or_lt_of_le h.now with hsame | hlt
    · rwa [← hsame]
    · exact h.pause _ phase hlt
  | found so phase all few => exact .found so phase all few
  | exhausted so about silent phase => exact .exhausted so about silent phase

end Stands
end

end Failover
end Holdfast
