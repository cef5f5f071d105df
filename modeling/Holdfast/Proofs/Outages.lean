import Holdfast.Proofs.Watching.Scene

namespace Holdfast.Memory

open Store

/-- A call fails just where an outage has cut its connection. -/
theorem Connection.call_fails_iff (c : Connection) (s : Server) (now : Nat) (r : Call) :
    (∃ f, (c.call s now r).2.2 = .now (.error f)) ↔ c.isCut s = true := by
  cases hcut : c.isCut s with
  | true => exact iff_of_true ⟨_, by rw [call_cut hcut]⟩ rfl
  | false =>
    refine iff_of_false ?_ Bool.false_ne_true
    rintro ⟨f, hf⟩
    cases r with
    | get key => cases hd : s.readDelay <;> simp [call, hcut, hd] at hf
    | setIfAbsent | expire | watch | unwatch | exec | ping => simp [call, hcut] at hf

namespace Scene

open Board (Move)

/-- A move that cannot be made changes nothing: nobody gets in while the store is out of reach, and
nothing is called on a connection that is not there. -/
def go (w : Scene) (m : Move) : Scene := (w.act m).getD w

def after (w : Scene) (ms : List Move) : Scene := ms.foldl go w

namespace Move

/-- Whether the store is in reach from a move on, where the move decides it. -/
def decides? : Move → Option Bool
  | .reach up => some up
  | .connect | .call .. | .write .. | .read _ | .age _ => none

def isOutage : Move → Bool
  | .reach up => !up
  | .connect | .call .. | .write .. | .read _ | .age _ => false

end Move

/-- Whether a store is in reach after some moves. The latest outage or recovery decides it. -/
def isUpAfter (first : Bool) (ms : List Move) : Bool :=
  (ms.filterMap Move.decides?).getLast?.getD first

theorem isUpAfter_append (first : Bool) (ms later : List Move) :
    isUpAfter first (ms ++ later) = isUpAfter (isUpAfter first ms) later := by
  simp only [isUpAfter, List.filterMap_append, List.getLast?_append]
  cases (later.filterMap Move.decides?).getLast? <;> rfl

/-- A store that was in reach goes out of reach by an outage only. -/
theorem outage_of_isUpAfter {ms : List Move} (h : isUpAfter true ms = false) :
    .reach false ∈ ms := by
  unfold isUpAfter at h
  cases hlast : (ms.filterMap Move.decides?).getLast? with
  | none => simp [hlast] at h
  | some up =>
    obtain rfl : up = false := by simpa [hlast] using h
    obtain ⟨m, hm, hdecides⟩ := List.mem_filterMap.mp (List.mem_of_getLast? hlast)
    cases m with
    | reach up => cases hdecides; exact hm
    | connect | call | write | read | age => cases hdecides

theorem countP_isOutage {ms : List Move} : ms.countP Move.isOutage = 0 ↔ .reach false ∉ ms := by
  rw [List.countP_eq_zero]
  refine ⟨fun h hm => h _ hm rfl, fun h m hm houtage => ?_⟩
  cases m with
  | reach up => cases up <;> simp_all [Move.isOutage]
  | connect | call | write | read | age => cases houtage

/-- What moves leave of a scene: its store goes down and up, and counts the outages; the connections
that are there stay. -/
structure Passes (w : Scene) (ms : List Move) (w' : Scene) : Prop where
  endpoint : w'.endpoint = w.endpoint
  isUp : w'.server.isUp = isUpAfter w.server.isUp ms
  outages : w'.server.outages = w.server.outages + ms.countP Move.isOutage
  conns : ∀ {id : Nat} {c : Connection}, w.conns[id]? = some c →
    ∃ c' : Connection, w'.conns[id]? = some c' ∧ c'.endpoint = c.endpoint ∧
      c'.openedAfter = c.openedAfter

theorem Passes.refl (w : Scene) : Passes w [] w where
  endpoint := rfl
  isUp := rfl
  outages := rfl
  conns h := ⟨_, h, rfl, rfl⟩

theorem Passes.trans {w w' w'' : Scene} {ms later : List Move} (h : Passes w ms w')
    (h' : Passes w' later w'') : Passes w (ms ++ later) w'' where
  endpoint := h'.endpoint.trans h.endpoint
  isUp := by rw [h'.isUp, h.isUp, isUpAfter_append]
  outages := by rw [h'.outages, h.outages, List.countP_append, Nat.add_assoc]
  conns hc := by
    obtain ⟨c', hc', hend, hopened⟩ := h.conns hc
    obtain ⟨c'', hc'', hend', hopened'⟩ := h'.conns hc'
    exact ⟨c'', hc'', hend'.trans hend, hopened'.trans hopened⟩

/-- A call on a connection is no outage, and the connection stays the one it was. -/
theorem passes_call (w : Scene) (id : Nat) (r : Call) :
    Passes w [.call id r] (w.go (.call id r)) := by
  cases hc : w.conns[id]? with
  | none =>
    rw [show w.go (.call id r) = w by simp [go, act, Board.news?, hc]]
    exact { Passes.refl w with isUp := rfl, outages := rfl }
  | some c =>
    have hserver := (c.call_stays w.server w.now r).1
    have hup : (c.call w.server w.now r).2.1.isUp = w.server.isUp := by rw [hserver]
    have houtages : (c.call w.server w.now r).2.1.outages = w.server.outages := by rw [hserver]
    simp only [go, act, Board.news?, Board.act, hc, Option.bind_eq_bind, Option.bind_some,
      Option.pure_def, Option.map_some, Option.getD_some]
    refine ⟨rfl, hup, houtages, fun {i d} hd => ?_⟩
    rcases eq_or_ne id i with rfl | hne
    · obtain rfl := Option.some_inj.mp (hc.symm.trans hd)
      obtain ⟨hlt, -⟩ := List.getElem?_eq_some_iff.mp hc
      exact ⟨_, List.getElem?_set_self hlt, (c.call_stays ..).2⟩
    · exact ⟨d, (List.getElem?_set_ne hne).trans hd, rfl, rfl⟩

theorem passes_go (w : Scene) (m : Move) : Passes w [m] (w.go m) := by
  cases m with
  | connect =>
    cases hc : w.server.connect w.endpoint with
    | ok c =>
      rw [show w.go .connect = { w with conns := w.conns ++ [c] } by simp [go, act_connect hc]]
      refine ⟨rfl, rfl, rfl, fun h => ⟨_, ?_, rfl, rfl⟩⟩
      rwa [List.getElem?_append_left (List.getElem?_eq_some_iff.mp h).1]
    | error f =>
      rw [show w.go .connect = w by simp [go, act, Board.news?, hc]]
      exact { Passes.refl w with isUp := rfl, outages := rfl }
  | call id r => exact passes_call w id r
  | write | read | age => exact ⟨rfl, rfl, rfl, fun h => ⟨_, h, rfl, rfl⟩⟩
  | reach up => cases up <;> exact ⟨rfl, rfl, rfl, fun h => ⟨_, h, rfl, rfl⟩⟩

theorem passes_after (w : Scene) (ms : List Move) : Passes w ms (w.after ms) := by
  induction ms generalizing w with
  | nil => exact .refl w
  | cons m ms ih => exact (passes_go w m).trans (ih (w.go m))

/-- A connection is in reach just as long as no outage has happened since it was opened. Recoveries
bring in who connects after them, and nobody else. -/
theorem outages_cut_older (start : Scene) (earlier later : List Move) {opened last : Scene}
    (hopened : start.after earlier = opened) (hlast : opened.after (.connect :: later) = last) :
    (opened.server.connect opened.endpoint =
      if isUpAfter start.server.isUp earlier then .ok ⟨opened.endpoint, opened.server.outages, []⟩
      else .error (.unreachable opened.endpoint)) ∧
    (isUpAfter start.server.isUp earlier = true →
      ∃ c : Connection, last.conns[opened.conns.length]? = some c ∧ ∀ r,
        ((∃ f, (c.call last.server last.now r).2.2 = .now (.error f)) ↔ .reach false ∈ later) ∧
        (.reach false ∈ later → c.call last.server last.now r =
          (c, last.server, .now (.error (.unreachable last.endpoint))))) := by
  have hup : opened.server.isUp = isUpAfter start.server.isUp earlier := by
    rw [← hopened]
    exact (passes_after start earlier).isUp
  refine ⟨by rw [← hup]; rfl, fun hin => ?_⟩
  have hin' : opened.server.isUp = true := hup.trans hin
  have hconnect : opened.go .connect =
      { opened with conns := opened.conns ++ [⟨opened.endpoint, opened.server.outages, []⟩] } := by
    have hin : opened.server.connect opened.endpoint =
        .ok ⟨opened.endpoint, opened.server.outages, []⟩ := by simp [Server.connect, hin']
    rw [go, act_connect hin, Option.getD_some]
  have hpasses : Passes (opened.go .connect) later last := by
    rw [← hlast]
    exact passes_after _ later
  rw [hconnect] at hpasses
  obtain ⟨c, hc, hend, hafter⟩ := hpasses.conns List.getElem?_concat_length
  -- the count tells every outage since, and the flag only one that has not ended
  have hcut : c.isCut last.server = true ↔ .reach false ∈ later := by
    have hcount : last.server.outages = opened.server.outages + later.countP Move.isOutage :=
      hpasses.outages
    have hreach : last.server.isUp = isUpAfter true later := by rw [hpasses.isUp, hin']
    constructor
    · intro h
      by_contra hnone
      have hzero := countP_isOutage.mpr hnone
      have hdown : last.server.isUp = false := by
        simpa [Connection.isCut, hafter, hcount, hzero] using h
      exact hnone (outage_of_isUpAfter (hreach.symm.trans hdown))
    · intro h
      have hsome : later.countP Move.isOutage ≠ 0 := fun hzero => countP_isOutage.mp hzero h
      simp [Connection.isCut, hafter, hcount, hsome]
  refine ⟨c, hc, fun r => ⟨(Connection.call_fails_iff ..).trans hcut, fun h => ?_⟩⟩
  rw [Connection.call_cut (hcut.mpr h), hend, hpasses.endpoint]

/-- After an outage and a recovery the older of two connections fails, and the newer answers. -/
theorem outages_cut_older_recovered :
    let last := empty.after [.connect, .reach false, .reach true, .connect]
    (∃ c : Connection, last.conns[0]? = some c ∧
      ∃ f, (c.call last.server last.now .ping).2.2 = .now (.error f)) ∧
    ∃ c : Connection, last.conns[1]? = some c ∧
      ¬ ∃ f, (c.call last.server last.now .ping).2.2 = .now (.error f) := by
  obtain ⟨c, hc, hfails⟩ :=
    (outages_cut_older empty [] [.reach false, .reach true, .connect] rfl rfl).2 rfl
  obtain ⟨c', hc', hanswers⟩ :=
    (outages_cut_older empty [.connect, .reach false, .reach true] [] rfl rfl).2 rfl
  exact ⟨⟨c, hc, (hfails .ping).1.mpr (by simp)⟩,
    ⟨c', hc', fun h => absurd ((hanswers .ping).1.mp h) (by simp)⟩⟩

end Scene
end Holdfast.Memory
