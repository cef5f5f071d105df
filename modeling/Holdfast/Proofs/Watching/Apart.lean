import Holdfast.Proofs.Watching.Linked
import Holdfast.Proofs.Watching.Scene

namespace Holdfast.Memory

open Store

namespace Board

def watchedBy (w : Board) (id : Nat) : List Bytes :=
  ((w.conns[id]?.map Connection.watched).getD []).map Prod.fst

/-- The keys that a move concerns; a transaction concerns the keys of its pending watches too. -/
def keys (w : Board) : Move → List Bytes
  | .call id request => request.keys (w.watchedBy id)
  | .write key _ | .read key => [key]
  | .connect | .age _ | .reach _ => []

/-- A move with the keys that it concerned when it was made, and what came of it. -/
structure Entry where
  move : Move
  keys : List Bytes
  notice : Notice

def run (w : Board) : List Move → Board × List Entry
  | [] => (w, [])
  | m :: ms =>
    let (w', notice) := w.act m
    let (last, entries) := w'.run ms
    (last, ⟨m, w.keys m, notice⟩ :: entries)

namespace Entry

/-- Whether a move concerned the key, or no key at all. -/
def isAbout (key : Bytes) (e : Entry) : Bool := e.keys.isEmpty || e.keys.contains key

/-- A transaction concerns one key at most. -/
def IsSimple (e : Entry) : Prop :=
  ∀ id writes, e.move = .call id (.exec writes) → ∀ k ∈ e.keys, ∀ k' ∈ e.keys, k = k'

def outcome (e : Entry) : Move × Notice := (e.move, e.notice)

end Entry

/-- The board with other data and other connections. -/
def beside (w : Board) (n : Node) (conns : List Connection) : Board :=
  { w with server := { w.server with node := n }, conns }

/-- Data and connections that have seen nothing of a board but what concerns the key. -/
structure Apart (key : Bytes) (w : Board) (n' : Node) (conns' : List Connection) : Prop where
  kin : Kin key w.server.node n'
  length : conns'.length = w.conns.length
  linked : ∀ {id : Nat} {c c'}, w.conns[id]? = some c → conns'[id]? = some c' →
    Linked key w.server.node n' c c'

namespace Apart

variable {key : Bytes} {w : Board} {n' : Node} {conns' : List Connection}

theorem begin (h : w.server.node.Bounded) (hc : w.conns = []) (key : Bytes) :
    Apart key w w.server.node [] := by
  refine ⟨.refl h key, by rw [hc], ?_⟩
  intro id c c' hid
  rw [hc] at hid
  cases hid

theorem connect (h : Apart key w n' conns') :
    ((w.beside n' conns').act .connect).2 = (w.act .connect).2 ∧
    ∃ m' cs', ((w.beside n' conns').act .connect).1 = (w.act .connect).1.beside m' cs' ∧
      Apart key (w.act .connect).1 m' cs' := by
  have hsame : (w.beside n' conns').server.connect (w.beside n' conns').endpoint =
      w.server.connect w.endpoint := rfl
  cases hc : w.server.connect w.endpoint with
  | error f =>
    simp only [Board.act, hsame, hc]
    exact ⟨trivial, n', conns', rfl, h⟩
  | ok c =>
    simp only [Board.act, hsame, hc]
    refine ⟨trivial, n', conns' ++ [c], rfl, h.kin, by simp [h.length], ?_⟩
    intro id d d' hd hd'
    by_cases hid : id < w.conns.length
    · rw [List.getElem?_append_left hid] at hd
      rw [List.getElem?_append_left (h.length ▸ hid)] at hd'
      exact h.linked hd hd'
    · have hid' := Nat.le_of_not_lt hid
      rw [List.getElem?_append_right hid'] at hd
      rw [List.getElem?_append_right (h.length ▸ hid')] at hd'
      obtain rfl := List.mem_singleton.mp (List.mem_of_getElem? hd)
      obtain rfl := List.mem_singleton.mp (List.mem_of_getElem? hd')
      exact .fresh (Server.connect_watched hc)

theorem counterpart (h : Apart key w n' conns') {id : Nat} {c : Connection}
    (hc : w.conns[id]? = some c) : ∃ c', conns'[id]? = some c' := by
  have hid : id < conns'.length := h.length ▸ (List.getElem?_eq_some_iff.mp hc).1
  exact ⟨_, List.getElem?_eq_getElem hid⟩

theorem set (h : Apart key w n' conns') {m m' : Node} (hkeeps : Keeps key w.server.node n' m m')
    {id : Nat} {c c' : Connection} (hlinked : Linked key m m' c c') :
    Apart key { w with server := { w.server with node := m }, conns := w.conns.set id c } m'
      (conns'.set id c') := by
  refine ⟨hkeeps.kin, by simp [h.length], ?_⟩
  intro j d d' hd hd'
  dsimp only at hd
  by_cases hj : j = id
  · subst hj
    have hid := (List.getElem?_eq_some_iff.mp hd).1
    have hid' := (List.getElem?_eq_some_iff.mp hd').1
    rw [List.length_set] at hid hid'
    rw [List.getElem?_set_self hid] at hd
    rw [List.getElem?_set_self hid'] at hd'
    cases hd
    cases hd'
    exact hlinked
  · rw [List.getElem?_set_ne (Ne.symm hj)] at hd hd'
    exact (h.linked hd hd').keeps hkeeps

/-- A call that is about the key, or about none, is answered alike on both boards. -/
theorem call (h : Apart key w n' conns') {id : Nat} {r : Call} {m : Move} (hm : m = .call id r)
    (habout : (⟨m, w.keys m, (w.act m).2⟩ : Entry).isAbout key = true)
    (hone : (⟨m, w.keys m, (w.act m).2⟩ : Entry).IsSimple) :
    ((w.beside n' conns').act m).2 = (w.act m).2 ∧
    ∃ m' cs', ((w.beside n' conns').act m).1 = (w.act m).1.beside m' cs' ∧
      Apart key (w.act m).1 m' cs' := by
  subst hm
  cases hc : w.conns[id]? with
  | none =>
    have hc' : conns'[id]? = none := by
      rw [List.getElem?_eq_none_iff] at hc ⊢
      rwa [h.length]
    simp only [Board.act, hc, beside, hc']
    exact ⟨trivial, n', conns', rfl, h⟩
  | some c =>
    obtain ⟨c', hc'⟩ := h.counterpart hc
    have hkeys : w.keys (.call id r) = r.keys (c.watched.map Prod.fst) := by
      simp [keys, watchedBy, hc]
    rw [hkeys] at habout hone
    obtain ⟨hanswer, hkeeps, hlinked⟩ := (h.linked hc hc').call h.kin w.now
      (by simpa [Entry.isAbout] using habout) fun writes hr => hone id writes (by rw [hr])
    have hserver := (c.call_stays w.server w.now r).1
    have hserver' := (c'.call_stays { w.server with node := n' } w.now r).1
    simp only [Board.act, hc, beside, hc']
    refine ⟨by rw [hanswer], (c'.call { w.server with node := n' } w.now r).2.1.node,
      conns'.set id (c'.call { w.server with node := n' } w.now r).1, ?_, ?_⟩
    · rw [hserver, hserver']
    · rw [hserver]
      exact h.set hkeeps hlinked

theorem act (h : Apart key w n' conns') {m : Move}
    (habout : (⟨m, w.keys m, (w.act m).2⟩ : Entry).isAbout key = true)
    (hone : (⟨m, w.keys m, (w.act m).2⟩ : Entry).IsSimple) :
    ((w.beside n' conns').act m).2 = (w.act m).2 ∧
    ∃ m' cs', ((w.beside n' conns').act m).1 = (w.act m).1.beside m' cs' ∧
      Apart key (w.act m).1 m' cs' := by
  cases m with
  | connect => exact h.connect
  | call id r => exact h.call rfl habout hone
  | write k value =>
    obtain rfl : key = k := by simpa [Entry.isAbout, keys] using habout
    have hkeeps := Keeps.put h.kin value
    exact ⟨rfl, n'.put key value, conns', rfl, hkeeps.kin, h.length,
      fun hc hc' => (h.linked hc hc').keeps hkeeps⟩
  | read k =>
    obtain rfl : key = k := by simpa [Entry.isAbout, keys] using habout
    exact ⟨by simp only [Board.act, beside, h.kin.value?_eq], n', conns', rfl, h⟩
  | age ms => exact ⟨rfl, n', conns', rfl, h.kin, h.length, h.linked⟩
  | reach up => exact ⟨rfl, n', conns', rfl, h.kin, h.length, h.linked⟩

/-- A move that is about other keys only is nothing to the other board. -/
theorem act_aside (h : Apart key w n' conns') {m : Move}
    (hnot : (⟨m, w.keys m, (w.act m).2⟩ : Entry).isAbout key = false) :
    (w.act m).1.beside n' conns' = w.beside n' conns' ∧ Apart key (w.act m).1 n' conns' := by
  obtain ⟨hne, hkey⟩ : w.keys m ≠ [] ∧ key ∉ w.keys m := by simpa [Entry.isAbout] using hnot
  cases m with
  | connect | age | reach => exact absurd rfl hne
  | read => exact ⟨rfl, h⟩
  | write k value =>
    have hk : key ≠ k := fun he => hkey (he ▸ List.mem_singleton_self k)
    have hbounded := Node.spans_bounded.put w.server.node k value h.kin.bounded
    have hkeeps : Keeps key w.server.node n' (w.server.node.put k value) n' :=
      .aside h.kin hbounded (Nat.le_succ _) (Table.get?_set_ne _ _ hk)
    exact ⟨rfl, hkeeps.kin, h.length, fun hc hc' => (h.linked hc hc').keeps hkeeps⟩
  | call id r =>
    cases hc : w.conns[id]? with
    | none =>
      simp only [Board.act, hc]
      exact ⟨trivial, h⟩
    | some c =>
      obtain ⟨c', hc'⟩ := h.counterpart hc
      have hkeys : w.keys (.call id r) = r.keys (c.watched.map Prod.fst) := by
        simp [keys, watchedBy, hc]
      rw [hkeys] at hne hkey
      obtain ⟨hkeeps, hlinked⟩ := (h.linked hc hc').call_aside h.kin w.now hne hkey
      have hserver := (c.call_stays w.server w.now r).1
      have hself : conns'.set id c' = conns' := by
        obtain ⟨hid, rfl⟩ := List.getElem?_eq_some_iff.mp hc'
        exact List.set_getElem_self hid
      have hboth : Apart key _ n' (conns'.set id c') := h.set hkeeps hlinked
      rw [hself] at hboth
      simp only [Board.act, hc]
      rw [hserver]
      exact ⟨rfl, hboth⟩

end Apart

/-- The moves of a run that are about the key, or about none. -/
def about (w : Board) (key : Bytes) (ms : List Move) : List Entry :=
  (w.run ms).2.filter (Entry.isAbout key)

theorem about_cons (w : Board) (key : Bytes) (m : Move) (ms : List Move) :
    w.about key (m :: ms) =
      if (⟨m, w.keys m, (w.act m).2⟩ : Entry).isAbout key then
        ⟨m, w.keys m, (w.act m).2⟩ :: (w.act m).1.about key ms
      else (w.act m).1.about key ms := by
  simp only [about, run, List.filter_cons]

/-- The moves that are about the key come to the same without all others. -/
theorem Apart.run {key : Bytes} {w : Board} {n' : Node} {conns' : List Connection}
    (h : Apart key w n' conns') {ms : List Move} (hs : ∀ e ∈ (w.run ms).2, e.IsSimple) :
    ((w.beside n' conns').run ((w.about key ms).map Entry.move)).2.map Entry.outcome =
      (w.about key ms).map Entry.outcome ∧
    ∃ m' cs', ((w.beside n' conns').run ((w.about key ms).map Entry.move)).1 =
        (w.run ms).1.beside m' cs' ∧ Apart key (w.run ms).1 m' cs' := by
  induction ms generalizing w n' conns' with
  | nil => exact ⟨rfl, n', conns', rfl, h⟩
  | cons m ms ih =>
    have hfirst := hs ⟨m, w.keys m, (w.act m).2⟩ List.mem_cons_self
    have hrest : ∀ e ∈ ((w.act m).1.run ms).2, e.IsSimple :=
      fun e he => hs e (List.mem_cons_of_mem _ he)
    rw [about_cons]
    cases habout : (⟨m, w.keys m, (w.act m).2⟩ : Entry).isAbout key with
    | false =>
      obtain ⟨hboard, hnext⟩ := h.act_aside habout
      have hlater := ih hnext hrest
      rw [hboard] at hlater
      exact hlater
    | true =>
      obtain ⟨hnotice, m', cs', hboard, hnext⟩ := h.act habout hfirst
      obtain ⟨houtcomes, last⟩ := ih hnext hrest
      rw [← hboard] at houtcomes last
      simp only [if_true, List.map_cons, Board.run]
      refine ⟨?_, last⟩
      rw [houtcomes]
      simp only [Entry.outcome, hnotice]

/-- Keys do not interfere. The moves that are about a key come to the same in the history that has no
others, and leave the same under the key. -/
theorem keys_apart {w : Board} (hb : w.server.node.Bounded) (hc : w.conns = []) (key : Bytes)
    {ms : List Move} (hs : ∀ e ∈ (w.run ms).2, e.IsSimple) :
    (w.run ((w.about key ms).map Entry.move)).2.map Entry.outcome =
      (w.about key ms).map Entry.outcome ∧
    (w.run ((w.about key ms).map Entry.move)).1.now = (w.run ms).1.now ∧
    (w.run ((w.about key ms).map Entry.move)).1.server.node.value? (w.run ms).1.now key =
      (w.run ms).1.server.node.value? (w.run ms).1.now key ∧
    (w.run ((w.about key ms).map Entry.move)).1.server.node.timeToLive? (w.run ms).1.now key =
      (w.run ms).1.server.node.timeToLive? (w.run ms).1.now key := by
  have hself : w.beside w.server.node [] = w := by
    rw [beside, ← hc]
  obtain ⟨houtcomes, m', cs', hboard, hlast⟩ := (Apart.begin hb hc key).run hs
  rw [hself] at houtcomes hboard
  rw [hboard]
  exact ⟨houtcomes, rfl, (hlast.kin.value?_eq _).symm, (hlast.kin.timeToLive?_eq _).symm⟩

/-- Two connections, two keys: one watches the first while the other writes the second, and the
other way round; both transactions run, one on each key. -/
def crossing : List Move :=
  [.connect, .connect, .write [2] [9], .call 0 (.watch [1]), .call 1 (.watch [2]),
    .call 1 (.exec [.put [2] [8], .expire [2] 5]), .call 0 (.setIfAbsent [2] [7]),
    .call 0 (.exec [.put [1] [6], .expire [1] 60]), .age 1000, .call 1 (.get [1]), .read [2]]

theorem keys_apart_crossing :
    (empty.about [1] crossing).map Entry.move = [.connect, .connect, .call 0 (.watch [1]),
      .call 0 (.exec [.put [1] [6], .expire [1] 60]), .age 1000, .call 1 (.get [1])] ∧
    (empty.run crossing).1.server.node.version? 1000 [1] = some 5 ∧
    (empty.run ((empty.about [1] crossing).map Entry.move)).1.server.node.version? 1000 [1] =
      some 2 ∧
    (empty.run ((empty.about [1] crossing).map Entry.move)).2.map Entry.outcome =
      (empty.about [1] crossing).map Entry.outcome ∧
    (empty.run ((empty.about [1] crossing).map Entry.move)).1.now = (empty.run crossing).1.now ∧
    (empty.run ((empty.about [1] crossing).map Entry.move)).1.server.node.value?
        (empty.run crossing).1.now [1] =
      (empty.run crossing).1.server.node.value? (empty.run crossing).1.now [1] ∧
    (empty.run ((empty.about [1] crossing).map Entry.move)).1.server.node.timeToLive?
        (empty.run crossing).1.now [1] =
      (empty.run crossing).1.server.node.timeToLive? (empty.run crossing).1.now [1] := by
  have hkeys : (empty.run crossing).2.all (fun e =>
      decide (∀ k ∈ e.keys, ∀ k' ∈ e.keys, k = k')) = true := by decide +kernel
  have hs : ∀ e ∈ (empty.run crossing).2, e.IsSimple := by
    intro e he id writes _
    exact of_decide_eq_true (List.all_eq_true.mp hkeys e he)
  exact ⟨by decide +kernel, by decide +kernel, by decide +kernel,
    keys_apart Node.bounded_empty rfl [1] hs⟩

end Board
end Holdfast.Memory
