import Holdfast.Proofs.Table
import Holdfast.Proofs.Watching.Touch

namespace Holdfast.Memory

open Store

/-- What happens to keys and to the watches on them. A connection goes by its number. -/
inductive Happening
  | watched (id : Nat) (key : Bytes) (present : Bool)
  /-- The watches of a connection end. -/
  | cleared (id : Nat)
  | touched (key : Bytes)
  /-- The time to live of the key ran out. -/
  | lapsed (key : Bytes)
deriving DecidableEq

/-- Whether a key was there at the first watch of a connection since its watches last ended, and
what has happened from that watch on. -/
def since? (id : Nat) (key : Bytes) : List Happening → Option (Bool × List Happening)
  | [] => none
  | e :: es =>
    if e = .cleared id then none
    else
      match since? id key es with
      | some (present, later) => some (present, e :: later)
      | none =>
        match e with
        | .watched i k present => if i = id ∧ k = key then some (present, []) else none
        | _ => none

/-- A store with the connections to it, which go by number. -/
structure Board where
  endpoint : Endpoint
  server : Server
  now : Nat
  conns : List Connection := []

inductive Board.Move
  | connect
  | call (id : Nat) (request : Call)
  /-- A write and a read past all connections; what a slow read finds is a read of the second kind. -/
  | write (key value : Bytes)
  | read (key : Bytes)
  | age (ms : Nat)
  | reach (up : Bool)
deriving DecidableEq

inductive Board.Notice
  | none
  | connected (refusal : Option Failure)
  | answered (a : Answer)
  | found (value : Option Bytes)

def Board.act (w : Board) : Move → Board × Notice
  | .connect =>
    match w.server.connect w.endpoint with
    | .ok c => ({ w with conns := w.conns ++ [c] }, .connected none)
    | .error f => (w, .connected (some f))
  | .call id request =>
    match w.conns[id]? with
    | some c =>
      let (c, server, answer) := c.call w.server w.now request
      ({ w with server, conns := w.conns.set id c }, .answered answer)
    | none => (w, .none)
  | .write key value =>
    ({ w with server := { w.server with node := w.server.node.put key value } }, .none)
  | .read key => (w, .found (w.server.node.value? w.now key))
  | .age ms => ({ w with now := w.now + ms }, .none)
  | .reach up => ({ w with server := w.server.setUp up }, .none)

def Board.empty : Board := { endpoint := ⟨"store", 1⟩, server := {}, now := 0 }

/-- What a call means for the watches of its connection. -/
def noted (s : Server) (now id : Nat) : Call → Answer → List Happening
  | .watch key, .now (.ok .done) => [.watched id key (s.node.live? now key).isSome]
  | .unwatch, .now (.ok .done) => [.cleared id]
  | .exec _, .now (.ok _) => [.cleared id]
  | _, _ => []

/-- The keys whose time runs out between two moments. -/
def Node.lapses (n : Node) (now later : Nat) : List Bytes :=
  (n.entries.map Prod.fst).filter fun key =>
    (n.live? now key).isSome && (n.live? later key).isNone

theorem Node.mem_lapses {n : Node} {now later : Nat} {key : Bytes} :
    key ∈ n.lapses now later ↔ (n.live? now key).isSome = true ∧ n.live? later key = none := by
  simp only [lapses, List.mem_filter, Bool.and_eq_true, Option.isNone_iff_eq_none]
  refine ⟨And.right, fun h => ⟨?_, h⟩⟩
  obtain ⟨e, he⟩ := Option.isSome_iff_exists.mp h.1
  exact List.mem_map.mpr ⟨_, Table.mem_of_get? (Node.live?_eq_some.mp he).1, rfl⟩

/-- What happens by a move, the latest first. A move that cannot be made tells nothing: nobody gets in
while the store is out of reach, and nothing is called on a connection that is not there. -/
def Board.news? (w : Board) : Move → Option (List Happening)
  | .connect =>
    match w.server.connect w.endpoint with
    | .ok _ => some []
    | .error _ => none
  | .call id request => do
    let c ← w.conns[id]?
    let answer := (c.call w.server w.now request).2.2
    return noted w.server w.now id request answer ++
      (w.server.node.touches w.now (written request answer)).map .touched
  | .write key _ => some [.touched key]
  | .age ms => some ((w.server.node.lapses w.now (w.now + ms)).map .lapsed)
  | .read _ | .reach _ => some []

/-- A board with what has happened on it, the latest first. -/
structure Scene extends Board where
  history : List Happening := []

namespace Scene

open Board (Move)

def act (w : Scene) (m : Move) : Option Scene :=
  (w.toBoard.news? m).map fun news =>
    { toBoard := (w.toBoard.act m).1, history := news ++ w.history }

section
variable {w w' : Scene}

theorem connect_of_act (h : w.act .connect = some w') :
    ∃ c, w.server.connect w.endpoint = .ok c ∧ w' = { w with conns := w.conns ++ [c] } := by
  cases hc : w.server.connect w.endpoint with
  | ok c =>
    simp only [act, Board.news?, Board.act, hc, Option.map_some, Option.some.injEq] at h
    exact ⟨c, rfl, h.symm⟩
  | error f => simp [act, Board.news?, hc] at h

theorem act_connect {c : Connection} (h : w.server.connect w.endpoint = .ok c) :
    w.act .connect = some { w with conns := w.conns ++ [c] } := by
  simp [act, Board.news?, Board.act, h]

theorem call_of_act {id : Nat} {r : Call} (h : w.act (.call id r) = some w') :
    ∃ c, w.conns[id]? = some c ∧ w' = { w with
      server := (c.call w.server w.now r).2.1
      conns := w.conns.set id (c.call w.server w.now r).1
      history := (noted w.server w.now id r (c.call w.server w.now r).2.2 ++
        (w.server.node.touches w.now (written r (c.call w.server w.now r).2.2)).map .touched) ++
          w.history } := by
  cases hc : w.conns[id]? with
  | some c =>
    simp only [act, Board.news?, Board.act, hc, Option.bind_eq_bind, Option.bind_some,
      Option.pure_def, Option.map_some, Option.some.injEq] at h
    exact ⟨c, rfl, h.symm⟩
  | none => simp [act, Board.news?, hc] at h

/-- What has happened is not forgotten. -/
theorem mem_history_of_act {m : Move} (h : w.act m = some w') {e : Happening}
    (he : e ∈ w.history) : e ∈ w'.history := by
  obtain ⟨news, -, rfl⟩ := Option.map_eq_some_iff.mp h
  exact List.mem_append_right _ he

end

def run (w : Scene) : List Move → Option Scene
  | [] => some w
  | m :: ms => (w.act m).bind fun w => w.run ms

/-- A store with data of any kind, to which nobody has connected yet. -/
structure Start (w : Scene) : Prop where
  bounded : w.server.node.Bounded
  conns : w.conns = []
  history : w.history = []

def empty : Scene := { Board.empty with }

theorem start_empty : Start empty := ⟨Node.bounded_empty, rfl, rfl⟩

inductive Reachable (start : Scene) : Scene → Prop
  | refl : Reachable start start
  | step {w w' : Scene} (h : Reachable start w) (m : Move) (hm : w.act m = some w') :
      Reachable start w'

theorem run_reachable {s w w' : Scene} {ms : List Move} (hs : Reachable s w)
    (h : w.run ms = some w') : Reachable s w' := by
  induction ms generalizing w with
  | nil => cases h; exact hs
  | cons m ms ih =>
    obtain ⟨u, hm, hrun⟩ := Option.bind_eq_some_iff.mp h
    exact ih (.step hs m hm) hrun

end Scene

/-- Whether a happening is about the watches of a connection. -/
def Happening.concerns (id : Nat) : Happening → Bool
  | watched i _ _ | cleared i => i = id
  | touched _ | lapsed _ => false

section
variable {id : Nat} {key : Bytes}

/-- What is noted of a call is about its own connection. -/
theorem concerns_of_noted {s : Server} {now : Nat} {r : Call} {a : Answer} {e : Happening}
    (h : e ∈ noted s now id r a) (j : Nat) : e.concerns j = decide (id = j) := by
  unfold noted at h
  split at h
  · obtain rfl := List.mem_singleton.mp h; rfl
  · obtain rfl := List.mem_singleton.mp h; rfl
  · obtain rfl := List.mem_singleton.mp h; rfl
  · cases h

theorem concerns_touched (keys : List Bytes) (j : Nat) :
    ∀ e ∈ keys.map Happening.touched, e.concerns j = false :=
  List.forall_mem_map.mpr fun _ _ => rfl

/-- What happens by a call is no concern of any other connection. -/
theorem concerns_of_call {s : Server} {now j : Nat} {r : Call} {a : Answer} {keys : List Bytes}
    (hj : id ≠ j) : ∀ e ∈ noted s now id r a ++ keys.map .touched, e.concerns j = false := by
  rw [List.forall_mem_append]
  have hnoted : ∀ e ∈ noted s now id r a, e.concerns j = false :=
    fun e he => (concerns_of_noted he j).trans (decide_eq_false hj)
  exact ⟨hnoted, concerns_touched keys j⟩

theorem since?_quiet {new es : List Happening} (h : ∀ e ∈ new, e.concerns id = false) :
    since? id key (new ++ es) = (since? id key es).map fun (present, later) =>
      (present, new ++ later) := by
  induction new with
  | nil => simp
  | cons e new ih =>
    have he := h e List.mem_cons_self
    have hrest := ih fun e he => h e (List.mem_cons_of_mem _ he)
    have hclear : e ≠ .cleared id := by
      rintro rfl
      simp [Happening.concerns] at he
    have hwatch : ∀ k present, e ≠ .watched id k present := by
      rintro k present rfl
      simp [Happening.concerns] at he
    simp only [List.cons_append, since?, hclear, if_false, hrest]
    cases since? id key es with
    | some s => rfl
    | none =>
      cases e with
      | watched i k present =>
        have hi : ¬ (i = id ∧ k = key) := fun h => hwatch k present (by rw [h.1])
        simp [hi]
      | cleared | touched | lapsed => rfl

@[simp] theorem since?_cleared (es : List Happening) :
    since? id key (.cleared id :: es) = none := by
  simp [since?]

end

end Holdfast.Memory
