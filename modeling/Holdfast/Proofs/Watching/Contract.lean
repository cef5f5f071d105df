import Holdfast.Proofs.Watching.Agreement

namespace Holdfast.Memory

open Store

/-- What a call does to the watches of its connection is what is noted of it. -/
theorem Connection.call_watches (c : Connection) (s : Server) (now id : Nat) (r : Call) :
    ((c.call s now r).1.watched = c.watched ∧ noted s now id r (c.call s now r).2.2 = []) ∨
    (∃ key, r = .watch key ∧
      c.call s now r = (c.watch key (s.node.version? now key), s, .now (.ok .done))) ∨
    ((c.call s now r).1.watched = [] ∧
      noted s now id r (c.call s now r).2.2 = [.cleared id]) := by
  cases hcut : c.isCut s with
  | true =>
    rw [call_cut hcut]
    left
    cases r <;> exact ⟨rfl, rfl⟩
  | false =>
    cases r with
    | watch key => right; left; exact ⟨key, rfl, by simp [call, hcut]⟩
    | unwatch => right; right; simp [call, hcut, noted]
    | exec ws =>
      right; right
      cases hu : c.isUntouched s.node now <;> simp [call, hcut, exec, hu, noted]
    | get key =>
      left
      cases hd : s.readDelay <;> simp [call, hcut, hd, noted]
    | setIfAbsent | expire | ping => left; simp [call, hcut, noted]

namespace Scene

open Board (Move)

/-- What holds between two moves. -/
structure Sound (w : Scene) : Prop where
  bounded : w.server.node.Bounded
  agrees : ∀ {id c}, w.conns[id]? = some c → Agrees w.server.node w.now w.history id c
  unborn : ∀ {id key}, w.conns.length ≤ id → since? id key w.history = none

theorem Start.sound {w : Scene} (h : Start w) : w.Sound := by
  refine ⟨h.bounded, ?_, ?_⟩
  · intro id c hc
    rw [h.conns] at hc
    cases hc
  · intro id key _
    rw [h.history]
    rfl

namespace Sound

variable {w w' : Scene}

/-- What happens to the keys only is no concern of the watches. -/
theorem pass (h : w.Sound) {new : List Happening} (hb : w'.server.node.Bounded)
    (t : Tells w.server.node w.now w'.server.node w'.now new) (hconns : w'.conns = w.conns)
    (hhistory : w'.history = new ++ w.history)
    (hq : ∀ e ∈ new, ∀ id, e.concerns id = false) : w'.Sound := by
  refine ⟨hb, ?_, ?_⟩
  · intro id c hc
    rw [hconns] at hc
    rw [hhistory]
    exact (h.agrees hc).grow t (fun e he => hq e he id) rfl
  · intro id key hle
    rw [hconns] at hle
    rw [hhistory, since?_quiet (fun e he => hq e he id), h.unborn hle]
    rfl

theorem connect (h : w.Sound) {c : Connection} (hc : c.watched = []) :
    ({ w with conns := w.conns ++ [c] } : Scene).Sound := by
  refine ⟨h.bounded, ?_, ?_⟩
  · intro id d hd
    by_cases hid : id < w.conns.length
    · rw [List.getElem?_append_left hid] at hd
      exact h.agrees hd
    · rw [List.getElem?_append_right (Nat.le_of_not_lt hid)] at hd
      obtain rfl := List.mem_singleton.mp (List.mem_of_getElem? hd)
      exact .idle hc fun key => h.unborn (Nat.le_of_not_lt hid)
  · intro id key hle
    rw [List.length_append] at hle
    exact h.unborn (Nat.le_trans (Nat.le_add_right ..) hle)

theorem call (h : w.Sound) {id : Nat} {c : Connection} (hc : w.conns[id]? = some c) (r : Call) :
    ({ w with
      server := (c.call w.server w.now r).2.1
      conns := w.conns.set id (c.call w.server w.now r).1
      history := (noted w.server w.now id r (c.call w.server w.now r).2.2 ++
        (w.server.node.touches w.now (written r (c.call w.server w.now r).2.2)).map .touched) ++
          w.history } : Scene).Sound := by
  have htells := Tells.call c w.server w.now id r
  have hid : id < w.conns.length := (List.getElem?_eq_some_iff.mp hc).1
  refine ⟨Connection.call_bounded h.bounded c w.now r, ?_, ?_⟩
  · intro j d hd
    by_cases hj : j = id
    · subst hj
      rw [List.getElem?_set_self hid] at hd
      cases hd
      rcases c.call_watches w.server w.now j r with ⟨hsame, hnone⟩ | ⟨key, rfl, heq⟩ | ⟨hnone, hends⟩
      · rw [hnone] at htells ⊢
        exact (h.agrees hc).grow htells (concerns_touched _ j) hsame
      · rw [heq]
        exact (h.agrees hc).watch h.bounded key
      · rw [hends]
        exact .idle hnone fun key => since?_cleared _
    · rw [List.getElem?_set_ne (Ne.symm hj)] at hd
      exact (h.agrees hd).grow htells (concerns_of_call (Ne.symm hj)) rfl
  · intro j key hle
    rw [List.length_set] at hle
    have hj : j ≠ id := by omega
    rw [since?_quiet (concerns_of_call (Ne.symm hj)), h.unborn hle]
    rfl

theorem act (h : w.Sound) (m : Move) (hm : w.act m = some w') : w'.Sound := by
  cases m with
  | connect =>
    obtain ⟨c, hc, rfl⟩ := connect_of_act hm
    exact h.connect (Server.connect_watched hc)
  | call id r =>
    obtain ⟨c, hc, rfl⟩ := call_of_act hm
    exact h.call hc r
  | write key value =>
    cases hm
    have htells : Tells w.server.node w.now (w.server.node.put key value) w.now [.touched key] :=
      .writes (Nat.le_succ _) (show _ = (w.server.node.applyAll w.now [.put key value]).1.entries
        from rfl) (by simp [Node.touches, Node.touch?]) (by simp)
    have hbounded := Node.spans_bounded.put w.server.node key value h.bounded
    exact h.pass hbounded htells rfl rfl (by simp [Happening.concerns])
  | read key =>
    cases hm
    exact h
  | age ms =>
    cases hm
    refine h.pass h.bounded (.age w.server.node w.now ms) rfl rfl ?_
    intro e he id
    obtain ⟨key, -, rfl⟩ := List.mem_map.mp he
    rfl
  | reach up =>
    cases hm
    have htells : Tells w.server.node w.now (w.server.setUp up).node w.now [] :=
      .idle (by simp) (by simp)
    exact h.pass h.bounded htells rfl rfl (by simp)

end Sound

theorem Reachable.sound {s w : Scene} (hs : Start s) (h : Reachable s w) : w.Sound := by
  induction h with
  | refl => exact hs.sound
  | step _ m hm ih => exact ih.act m hm

/-- Since a connection began to watch some key, the key was touched or its time ran out, and it was
there at first or is there now. -/
def Broken (w : Scene) (id : Nat) : Prop :=
  ∃ key present later, since? id key w.history = some (present, later) ∧
    (.touched key ∈ later ∨ .lapsed key ∈ later) ∧
    (present = true ∨ (w.server.node.live? w.now key).isSome = true)

/-- A transaction on a connection that is not cut does nothing if its watches are broken, and else
all that it is asked. What was touched but was absent at first and is absent again breaks no watch. -/
theorem exec_aborts_iff_broken {s w : Scene} (hs : Start s) (hw : Reachable s w) {id : Nat}
    {c : Connection} (hc : w.conns[id]? = some c) (hcut : c.isCut w.server = false)
    (writes : List Write) :
    (w.Broken id → c.call w.server w.now (.exec writes) =
      ({ c with watched := [] }, w.server, .now (.ok (.effects none)))) ∧
    (¬ w.Broken id → ∃ n es, w.server.node.applyAll w.now writes = (n, es) ∧
      c.call w.server w.now (.exec writes) =
        ({ c with watched := [] }, { w.server with node := n }, .now (.ok (.effects (some es))))) := by
  have hagrees := ((hw.sound hs).agrees hc).isUntouched_iff
  refine ⟨?_, ?_⟩
  · intro hbroken
    have hu : c.isUntouched w.server.node w.now = false := by
      rw [← Bool.not_eq_true, hagrees]
      exact fun hnot => hnot hbroken
    simp [Connection.call, hcut, Connection.exec, hu]
  · intro hwhole
    have hu : c.isUntouched w.server.node w.now = true := hagrees.mpr hwhole
    refine ⟨_, _, rfl, ?_⟩
    simp [Connection.call, hcut, Connection.exec, hu]

/-- One connection watches a key that is absent, and another creates it. -/
def creation : List Move :=
  [.connect, .connect, .call 0 (.watch [1]), .call 1 (.setIfAbsent [1] [2])]

theorem exec_aborts_iff_broken_creation : ∃ w c, empty.run creation = some w ∧
    w.conns[0]? = some c ∧ c.call w.server w.now (.exec [.delete [1]]) =
      ({ c with watched := [] }, w.server, .now (.ok (.effects none))) := by
  have h : (empty.run creation).any (fun w => w.conns[0]?.any (fun c =>
      c.isCut w.server = false ∧ since? 0 [1] w.history = some (false, [.touched [1]]) ∧
      (w.server.node.live? w.now [1]).isSome = true)) = true := by decide +kernel
  obtain ⟨w, hw, hconn⟩ := (Option.any_eq_true _ _).mp h
  obtain ⟨c, hc, hp⟩ := (Option.any_eq_true _ _).mp hconn
  obtain ⟨hcut, hs, hlive⟩ := of_decide_eq_true hp
  have hbroken : w.Broken 0 := ⟨[1], false, _, hs, .inl List.mem_cons_self, .inr hlive⟩
  exact ⟨w, c, hw, hc,
    (exec_aborts_iff_broken start_empty (run_reachable .refl hw) hc hcut _).1 hbroken⟩

/-- No time passes and the store is not cut off. -/
def isCalm : Move → Bool
  | .age _ | .reach _ => false
  | _ => true

/-- A key that is created and deleted again has been touched, and yet the transaction of one who
watches since before runs. -/
theorem exec_misses_touch : ¬ ∀ (ms : List Move) (w : Scene) (id : Nat) (c : Connection)
    (writes : List Write), ms.all isCalm → empty.run ms = some w →
      w.conns[id]? = some c → c.isCut w.server = false →
        ((∃ key present later, since? id key w.history = some (present, later) ∧
            .touched key ∈ later) →
          (c.call w.server w.now (.exec writes)).2.2 = .now (.ok (.effects none))) := by
  intro h
  have hrun : (empty.run (creation ++ [.call 1 (.exec [.delete [1]])])).any (fun w =>
      w.conns[0]?.any (fun c => c.isCut w.server = false ∧
        since? 0 [1] w.history =
          some (false, [.cleared 1, .touched [1], .touched [1]]) ∧
        c.isUntouched w.server.node w.now = true)) = true := by decide +kernel
  obtain ⟨w, hw, hconn⟩ := (Option.any_eq_true _ _).mp hrun
  obtain ⟨c, hc, hp⟩ := (Option.any_eq_true _ _).mp hconn
  obtain ⟨hcut, hs, hu⟩ := of_decide_eq_true hp
  have haborts := h _ w 0 c [] rfl hw hc hcut ⟨[1], false, _, hs, by simp⟩
  simp [Connection.call, hcut, Connection.exec, hu] at haborts

end Scene
end Holdfast.Memory
