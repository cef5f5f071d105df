import Holdfast.Proofs.Etcd.Heed

namespace Holdfast.Etcd

open Store

/-- A memory store and an etcd server side by side, each with as many connections. -/
structure Twins where
  memory : Memory.Scene
  server : Server
  conns : List Connection := []

/-- A call on a connection of each, with both as they were found and what they answered. -/
structure Encounter where
  found : Twins
  id : Nat
  request : Call
  memory : Memory.Answer
  etcd : Outcome

namespace Encounter

def IsAlike (e : Encounter) : Prop := e.memory = .now e.etcd

/-- Whether the watches of the connection are broken, all of them and the last one. -/
def Agrees (e : Encounter) : Prop :=
  ∀ writes, e.request = .exec writes →
    (e.found.memory.Broken e.id ↔ e.found.memory.LatestBroken e.id)

/-- No watch of the connection is under way where it begins one. -/
def IsSingle (e : Encounter) : Prop :=
  ∀ key, e.request = .watch key → Memory.latest? e.id e.found.memory.history = none

end Encounter

namespace Twins

/-- Two empty stores. -/
def start (endpoint : Endpoint) (now : Nat) : Twins := ⟨{ endpoint, server := {}, now }, {}, []⟩

inductive Turn
  | connect
  | call (id : Nat) (request : Call)
  | age (ms : Nat)

def Turn.isOrderly : Turn → Bool
  | call _ request => request.isOrderly
  | connect | age _ => true

def act (b : Behaviour) (t : Twins) : Turn → Option (Twins × List Encounter)
  | .connect => do
    let memory ← t.memory.act .connect
    return ({ t with memory, conns := t.conns ++ [{}] }, [])
  | .call id request => do
    let m ← t.memory.conns[id]?
    let c ← t.conns[id]?
    let memory ← t.memory.act (.call id request)
    let answer := (m.call t.memory.server t.memory.now request).2.2
    let (server, _, after, outcome) := (c.call request).run (serve b) t.server
    return (⟨memory, server, t.conns.set id after⟩, [⟨t, id, request, answer, outcome⟩])
  | .age ms => do
    let memory ← t.memory.act (.age ms)
    return ({ t with memory }, [])

/-- Turns one after the other, with all the calls that were made. -/
def run (b : Behaviour) (t : Twins) : List Turn → Option (Twins × List Encounter)
  | [] => some (t, [])
  | turn :: turns => do
    let (t, first) ← t.act b turn
    let (t, rest) ← t.run b turns
    return (t, first ++ rest)

variable {b : Behaviour} {t t' : Twins} {turn : Turn} {turns : List Turn} {es : List Encounter}

theorem act_connect (h : t.act b .connect = some (t', es)) :
    ∃ memory, t.memory.act .connect = some memory ∧
      t' = { t with memory, conns := t.conns ++ [{}] } ∧ es = [] := by
  simp only [act, Option.bind_eq_bind, Option.bind_eq_some_iff, Option.pure_def,
    Option.some.injEq, Prod.mk.injEq] at h
  obtain ⟨memory, hmemory, rfl, rfl⟩ := h
  exact ⟨memory, hmemory, rfl, rfl⟩

theorem act_age {ms : Nat} (h : t.act b (.age ms) = some (t', es)) :
    ∃ memory, t.memory.act (.age ms) = some memory ∧ t' = { t with memory } ∧ es = [] := by
  simp only [act, Option.bind_eq_bind, Option.bind_eq_some_iff, Option.pure_def,
    Option.some.injEq, Prod.mk.injEq] at h
  obtain ⟨memory, hmemory, rfl, rfl⟩ := h
  exact ⟨memory, hmemory, rfl, rfl⟩

theorem act_call {id : Nat} {r : Call} (h : t.act b (.call id r) = some (t', es)) :
    ∃ m c memory, t.memory.conns[id]? = some m ∧ t.conns[id]? = some c ∧
      t.memory.act (.call id r) = some memory ∧
      t' = ⟨memory, ((c.call r).run (serve b) t.server).1,
        t.conns.set id ((c.call r).run (serve b) t.server).2.2.1⟩ ∧
      es = [⟨t, id, r, (m.call t.memory.server t.memory.now r).2.2,
        ((c.call r).run (serve b) t.server).2.2.2⟩] := by
  simp only [act, Option.bind_eq_bind, Option.bind_eq_some_iff, Option.pure_def,
    Option.some.injEq, Prod.mk.injEq] at h
  obtain ⟨m, hm, c, hc, memory, hmemory, rfl, rfl⟩ := h
  exact ⟨m, c, memory, hm, hc, hmemory, rfl, rfl⟩

theorem run_cons (h : t.run b (turn :: turns) = some (t', es)) : ∃ u first rest,
    t.act b turn = some (u, first) ∧ u.run b turns = some (t', rest) ∧ es = first ++ rest := by
  simp only [run, Option.bind_eq_bind, Option.bind_eq_some_iff, Option.pure_def,
    Option.some.injEq, Prod.mk.injEq] at h
  obtain ⟨⟨u, first⟩, hact, ⟨v, rest⟩, hrest, rfl, rfl⟩ := h
  exact ⟨u, first, rest, hact, hrest, rfl⟩

/-- What holds between two turns as long as all answers are alike. -/
structure Alike (t : Twins) : Prop where
  scene : t.memory.Sound
  uncut : ∀ c ∈ t.memory.conns, c.isCut t.memory.server = false
  up : t.memory.server.isUp = true
  prompt : t.memory.server.readDelay = none
  data : t.server.data.Sound
  values : t.memory.server.node.value? t.memory.now = t.server.data.value?
  length : t.conns.length = t.memory.conns.length
  minds : ∀ {id c}, t.conns[id]? = some c → Minds t.server.data t.memory.history id c
  unborn : ∀ {id}, t.conns.length ≤ id → Memory.latest? id t.memory.history = none

theorem Alike.start (endpoint : Endpoint) (now : Nat) : (start endpoint now).Alike := by
  refine ⟨Memory.Scene.Start.sound ⟨Memory.Node.bounded_empty, rfl, rfl⟩, ?_, rfl, rfl,
    Data.sound_empty, rfl, rfl, ?_, fun _ => rfl⟩
  · intro c hc
    cases hc
  · intro id c hc
    cases hc

namespace Alike

theorem broken_iff (h : t.Alike) {id : Nat} {m : Memory.Connection}
    (hm : t.memory.conns[id]? = some m) :
    m.isUntouched t.memory.server.node t.memory.now = true ↔ ¬ t.memory.Broken id :=
  (h.scene.agrees hm).isUntouched_iff

theorem latestBroken_iff (h : t.Alike) {id : Nat} {c : Connection} (hc : t.conns[id]? = some c) :
    isWhole c.watched t.server.data = true ↔ ¬ t.memory.LatestBroken id := by
  have hlive : ∀ key, (t.server.data.value? key).isSome =
      (t.memory.server.node.live? t.memory.now key).isSome := by
    intro key
    rw [← h.values, Memory.Node.isSome_value?]
  rw [(h.minds hc).isWhole_iff h.data]
  simp only [hlive, Memory.Scene.LatestBroken]

theorem connect (h : t.Alike) (hact : t.act b .connect = some (t', es)) : t'.Alike ∧ es = [] := by
  have hup : t.memory.server.connect t.memory.endpoint =
      .ok ⟨t.memory.endpoint, t.memory.server.outages, []⟩ := by
    simp [Memory.Server.connect, h.up]
  obtain ⟨memory, hmemory, rfl, rfl⟩ := act_connect hact
  obtain rfl := Option.some_inj.mp ((Memory.Scene.act_connect hup).symm.trans hmemory)
  refine ⟨⟨h.scene.connect rfl, ?_, h.up, h.prompt, h.data, h.values, ?_, ?_, ?_⟩, rfl⟩
  · intro c hc
    rcases List.mem_append.mp hc with hc | hc
    · exact h.uncut c hc
    · obtain rfl := List.mem_singleton.mp hc
      simp [Memory.Connection.isCut, h.up]
  · simp [h.length]
  · intro id c hc
    by_cases hid : id < t.conns.length
    · rw [List.getElem?_append_left hid] at hc
      exact h.minds hc
    · rw [List.getElem?_append_right (Nat.le_of_not_lt hid)] at hc
      obtain rfl := List.mem_singleton.mp (List.mem_of_getElem? hc)
      exact .idle rfl (h.unborn (Nat.le_of_not_lt hid))
  · intro id hle
    rw [List.length_append] at hle
    exact h.unborn (Nat.le_trans (Nat.le_add_right ..) hle)

theorem age (h : t.Alike) {ms : Nat} (hact : t.act b (.age ms) = some (t', es))
    (hl : ∀ key, .lapsed key ∉ t'.memory.history) : t'.Alike ∧ es = [] := by
  obtain ⟨memory, hmemory, rfl, rfl⟩ := act_age hact
  have hsound := h.scene.act (.age ms) hmemory
  cases hmemory
  have hnone : t.memory.server.node.lapses t.memory.now (t.memory.now + ms) = [] := by
    rw [List.eq_nil_iff_forall_not_mem]
    intro key hkey
    exact hl key (List.mem_append_left _ (List.mem_map_of_mem hkey))
  have hvalues : t.memory.server.node.value? (t.memory.now + ms) =
      t.memory.server.node.value? t.memory.now := by
    funext key
    rcases Memory.Node.value?_wait t.memory.server.node (Nat.le_add_right t.memory.now ms) key
      with hsame | hgone
    · exact hsame
    · have hlive : t.memory.server.node.live? t.memory.now key = none := by
        cases he : t.memory.server.node.live? t.memory.now key with
        | none => rfl
        | some e =>
          have hlapse : key ∈ t.memory.server.node.lapses t.memory.now (t.memory.now + ms) :=
            Memory.Node.mem_lapses.mpr ⟨by simp [he], Memory.Node.value?_eq_none.mp hgone⟩
          rw [hnone] at hlapse
          cases hlapse
      rw [hgone, Memory.Node.value?_eq_none.mpr hlive]
  refine ⟨⟨hsound, h.uncut, h.up, h.prompt, h.data, hvalues.trans h.values, h.length, ?_, ?_⟩, rfl⟩
  · intro id c hc
    simpa [hnone] using h.minds hc
  · intro id hle
    simpa [hnone] using h.unborn hle

/-- After a call that both have answered alike, and that the server has carried out. -/
theorem answered (h : t.Alike) {id : Nat} {r : Call} (ho : r.isOrderly = true)
    {m : Memory.Connection} {c : Connection} {memory : Memory.Scene} {server : Server}
    (hm : t.memory.conns[id]? = some m) (hc : t.conns[id]? = some c)
    (hmemory : t.memory.act (.call id r) = some memory)
    (halike : (m.call t.memory.server t.memory.now r).2.2 = .now (.ok
      (Contents.reply t.server.data.value? (isWhole c.watched t.server.data) r)))
    (hwrote : Wrote t.server.data server.data
      (Memory.written r (m.call t.memory.server t.memory.now r).2.2)) :
    Alike ⟨memory, server, t.conns.set id (c.after t.server.data r)⟩ := by
  have hcut : m.isCut t.memory.server = false := h.uncut m (List.mem_of_getElem? hm)
  have hsound := h.scene.act (.call id r) hmemory
  obtain ⟨m', hm', rfl⟩ := Memory.Scene.call_of_act hmemory
  obtain rfl := Option.some_inj.mp (hm.symm.trans hm')
  obtain ⟨hserver, -, hopened⟩ := m.call_stays t.memory.server t.memory.now r
  obtain ⟨-, hvalues, htouches⟩ :=
    m.call_contents hcut h.prompt t.memory.now (Call.lasts_of_isOrderly ho)
  rw [h.values] at htouches hvalues
  have hlen : id < t.conns.length := (List.getElem?_eq_some_iff.mp hc).1
  refine ⟨hsound, ?_, ?_, ?_, hwrote.sound, ?_, ?_, ?_, ?_⟩
  · intro c' hc'
    rw [hserver]
    rcases List.mem_or_eq_of_mem_set hc' with hold | rfl
    · exact h.uncut c' hold
    · simpa [Memory.Connection.isCut, hopened] using hcut
  · rw [hserver]
    exact h.up
  · rw [hserver]
    exact h.prompt
  · exact hvalues.trans hwrote.values.symm
  · simp [h.length]
  · intro j c' hc'
    dsimp only
    rw [htouches]
    by_cases hj : j = id
    · subst hj
      rw [List.getElem?_set_self hlen] at hc'
      cases hc'
      exact (h.minds hc).call_own h.data h.values halike hwrote
    · rw [List.getElem?_set_ne (Ne.symm hj)] at hc'
      exact (h.minds hc').call_other (Ne.symm hj) hwrote
  · intro j hle
    rw [List.length_set] at hle
    have hidle : Minds t.server.data t.memory.history j {} := .idle rfl (h.unborn hle)
    dsimp only
    rw [htouches]
    exact (hidle.call_other (by omega) hwrote).unwatched rfl

theorem call (hb : Steady b) (h : t.Alike) {id : Nat} {r : Call} (ho : r.isOrderly = true)
    (hact : t.act b (.call id r) = some (t', es)) :
    ∃ e, es = [e] ∧ (e.IsAlike ↔ e.Agrees) ∧ (e.IsAlike → t'.Alike) := by
  obtain ⟨m, c, memory, hm, hc, hmemory, rfl, rfl⟩ := act_call hact
  have hcut : m.isCut t.memory.server = false := h.uncut m (List.mem_of_getElem? hm)
  obtain ⟨hanswer, -, -⟩ :=
    m.call_contents hcut h.prompt t.memory.now (Call.lasts_of_isOrderly ho)
  obtain ⟨s', ms, hrun, hwrote⟩ := call_steady hb h.data c ho rfl
  rw [hrun]
  refine ⟨_, rfl, ?_, ?_⟩
  · have hverdict :
        m.isUntouched t.memory.server.node t.memory.now = isWhole c.watched t.server.data ↔
          (t.memory.Broken id ↔ t.memory.LatestBroken id) := by
      rw [← not_iff_not (a := t.memory.Broken id), ← h.broken_iff hm, ← h.latestBroken_iff hc,
        Bool.eq_iff_iff]
    simp only [Encounter.IsAlike, Encounter.Agrees, hanswer, h.values, Memory.Answer.now.injEq,
      Except.ok.injEq, Contents.reply_eq_iff, hverdict]
  · intro halike
    have halike : (m.call t.memory.server t.memory.now r).2.2 = .now (.ok
        (Contents.reply t.server.data.value? (isWhole c.watched t.server.data) r)) := halike
    rw [← halike] at hwrote
    exact h.answered ho hm hc hmemory halike hwrote

end Alike

/-- What happened is not forgotten. -/
theorem mem_history_act (hact : t.act b turn = some (t', es)) {e : Memory.Happening}
    (he : e ∈ t.memory.history) : e ∈ t'.memory.history := by
  cases turn with
  | connect =>
    obtain ⟨memory, hmemory, rfl, -⟩ := act_connect hact
    exact Memory.Scene.mem_history_of_act hmemory he
  | call id r =>
    obtain ⟨m, c, memory, -, -, hmemory, rfl, -⟩ := act_call hact
    exact Memory.Scene.mem_history_of_act hmemory he
  | age ms =>
    obtain ⟨memory, hmemory, rfl, -⟩ := act_age hact
    exact Memory.Scene.mem_history_of_act hmemory he

theorem mem_history_run (hrun : t.run b turns = some (t', es)) {e : Memory.Happening}
    (he : e ∈ t.memory.history) : e ∈ t'.memory.history := by
  induction turns generalizing t es with
  | nil =>
    cases hrun
    exact he
  | cons turn turns ih =>
    obtain ⟨u, first, rest, hact, hrest, rfl⟩ := run_cons hrun
    exact ih hrest (mem_history_act hact he)

/-- What a turn comes to after which nothing has lapsed. -/
theorem Alike.act (hb : Steady b) (h : t.Alike) (ho : turn.isOrderly = true)
    (hact : t.act b turn = some (t', es)) (hl : ∀ key, .lapsed key ∉ t'.memory.history) :
    ((∀ e ∈ es, e.IsAlike) ↔ ∀ e ∈ es, e.Agrees) ∧ ((∀ e ∈ es, e.IsAlike) → t'.Alike) := by
  cases turn with
  | connect =>
    obtain ⟨halike, rfl⟩ := h.connect hact
    exact ⟨by simp, fun _ => halike⟩
  | age ms =>
    obtain ⟨halike, rfl⟩ := h.age hact hl
    exact ⟨by simp, fun _ => halike⟩
  | call id r =>
    obtain ⟨e, rfl, hiff, halike⟩ := h.call hb ho hact
    simpa [hiff] using halike

/-- The answers of a run are alike up to its first transaction whose verdicts differ. -/
theorem Alike.run (hb : Steady b) (h : t.Alike) (ho : ∀ turn ∈ turns, turn.isOrderly = true)
    (hrun : t.run b turns = some (t', es)) (hl : ∀ key, .lapsed key ∉ t'.memory.history) :
    ((∀ e ∈ es, e.IsAlike) ↔ ∀ e ∈ es, e.Agrees) ∧ ((∀ e ∈ es, e.IsAlike) → t'.Alike) := by
  induction turns generalizing t es with
  | nil =>
    cases hrun
    exact ⟨by simp, fun _ => h⟩
  | cons turn turns ih =>
    obtain ⟨u, first, rest, hact, hrest, rfl⟩ := run_cons hrun
    obtain ⟨hfirst, hu⟩ := h.act hb (ho turn List.mem_cons_self) hact
      fun key hkey => hl key (mem_history_run hrest hkey)
    have hrest' : (∀ e ∈ first, e.IsAlike) →
        ((∀ e ∈ rest, e.IsAlike) ↔ ∀ e ∈ rest, e.Agrees) ∧
          ((∀ e ∈ rest, e.IsAlike) → t'.Alike) := by
      intro halike
      exact ih (hu halike) (fun turn ht => ho turn (List.mem_cons_of_mem _ ht)) hrest
    simp only [List.forall_mem_append]
    refine ⟨⟨?_, ?_⟩, ?_⟩
    · rintro ⟨h₁, h₂⟩
      exact ⟨hfirst.mp h₁, (hrest' h₁).1.mp h₂⟩
    · rintro ⟨h₁, h₂⟩
      have halike := hfirst.mpr h₁
      exact ⟨halike, (hrest' halike).1.mpr h₂⟩
    · rintro ⟨h₁, h₂⟩
      exact (hrest' h₁).2 h₂

/-- Where no connection has two watches under way, its last watch is the only one. -/
theorem single_act (h : ∀ id, Memory.Single id t.memory.history)
    (hact : t.act b turn = some (t', es)) (hs : ∀ e ∈ es, e.IsSingle) :
    (∀ e ∈ es, e.Agrees) ∧ ∀ id, Memory.Single id t'.memory.history := by
  cases turn with
  | connect =>
    obtain ⟨memory, hmemory, rfl, rfl⟩ := act_connect hact
    exact ⟨by simp, fun id => Memory.Scene.single_of_act (h id) hmemory (by simp)⟩
  | age ms =>
    obtain ⟨memory, hmemory, rfl, rfl⟩ := act_age hact
    exact ⟨by simp, fun id => Memory.Scene.single_of_act (h id) hmemory (by simp)⟩
  | call id r =>
    obtain ⟨m, c, memory, hm, -, hmemory, rfl, rfl⟩ := act_call hact
    have hsingle := hs _ List.mem_cons_self
    refine ⟨?_, fun j => Memory.Scene.single_of_act (h j) hmemory ?_⟩
    · intro e he writes _
      obtain rfl := List.mem_singleton.mp he
      exact Memory.Scene.broken_iff_of_single (h id)
    · rintro key ⟨⟩
      exact hsingle key rfl

theorem single_run (h : ∀ id, Memory.Single id t.memory.history)
    (hrun : t.run b turns = some (t', es)) (hs : ∀ e ∈ es, e.IsSingle) : ∀ e ∈ es, e.Agrees := by
  induction turns generalizing t es with
  | nil =>
    cases hrun
    simp
  | cons turn turns ih =>
    obtain ⟨u, first, rest, hact, hrest, rfl⟩ := run_cons hrun
    rw [List.forall_mem_append] at hs ⊢
    obtain ⟨hfirst, hu⟩ := single_act h hact hs.1
    exact ⟨hfirst, ih hu hrest hs.2⟩

/-- The answers of an etcd server and of a memory store to the same calls are alike just in case a
transaction never finds only the last of its connection's watches broken, or only one before it; then
the values are the same as well. So it is wherever no connection has two watches under way. -/
theorem answers_alike_iff {b : Behaviour} (hb : Steady b) (endpoint : Endpoint) (now : Nat)
    {turns : List Turn} (ho : ∀ turn ∈ turns, turn.isOrderly = true) {t : Twins}
    {es : List Encounter} (hrun : (start endpoint now).run b turns = some (t, es))
    (hl : ∀ key, .lapsed key ∉ t.memory.history) :
    ((∀ e ∈ es, e.IsAlike) ↔ ∀ e ∈ es, e.Agrees) ∧
    ((∀ e ∈ es, e.IsAlike) →
      t.memory.server.node.value? t.memory.now = t.server.data.value?) ∧
    ((∀ e ∈ es, e.IsSingle) → ∀ e ∈ es, e.IsAlike) := by
  obtain ⟨hiff, halike⟩ := (Alike.start endpoint now).run hb ho hrun hl
  refine ⟨hiff, fun h => (halike h).values, fun hs => hiff.mpr ?_⟩
  exact single_run (fun id => .nil) hrun hs

/-- Nobody else has any business with the server. -/
def secluded : Behaviour := fun s _ => (s.data, .answered)

theorem steady_secluded : Steady secluded :=
  ⟨fun _ _ => rfl, fun _ _ => ⟨Nat.le_refl _, Int.le_refl _, rfl, rfl⟩⟩

/-- One connection watches a key that another creates; its transaction is aborted, and the next one
takes the key over. -/
def takeover : List Turn :=
  [.connect, .connect, .call 0 (.watch [1]), .call 1 (.setIfAbsent [1] [7]),
    .call 1 (.expire [1] 60), .call 0 (.exec [.put [1] [8], .expire [1] 60]), .call 0 (.watch [1]),
    .age 500, .call 0 (.exec [.put [1] [8], .expire [1] 60]), .call 1 (.get [1])]

theorem answers_alike_iff_takeover : ∃ t es,
    (start ⟨"store", 1⟩ 0).run secluded takeover = some (t, es) ∧
    es.map (fun e => e.etcd.toOption) = [some .done, some (.flag true), some (.flag true),
      some (.effects none), some .done,
      some (.effects (some [.previous (some [7]), .count 1])), some (.value (some [8]))] ∧
    ((∀ e ∈ es, e.IsAlike) ↔ ∀ e ∈ es, e.Agrees) ∧
    ((∀ e ∈ es, e.IsAlike) →
      t.memory.server.node.value? t.memory.now = t.server.data.value?) ∧
    ((∀ e ∈ es, e.IsSingle) → ∀ e ∈ es, e.IsAlike) := by
  have h : ((start ⟨"store", 1⟩ 0).run secluded takeover).any (fun p =>
      p.1.memory.history = [.cleared 0, .touched [1], .touched [1], .watched 0 [1] true,
        .cleared 0, .touched [1], .touched [1], .watched 0 [1] false] ∧
      p.2.map (fun e => e.etcd.toOption) = [some .done, some (.flag true), some (.flag true),
        some (.effects none), some .done,
        some (.effects (some [.previous (some [7]), .count 1])), some (.value (some [8]))]) =
        true := by decide +kernel
  obtain ⟨⟨t, es⟩, hrun, hp⟩ := (Option.any_eq_true _ _).mp h
  obtain ⟨hhistory, hanswers⟩ := of_decide_eq_true hp
  dsimp only at hhistory
  have hl : ∀ key, .lapsed key ∉ t.memory.history := by simp [hhistory]
  exact ⟨t, es, hrun, hanswers,
    answers_alike_iff steady_secluded ⟨"store", 1⟩ 0 (by decide) hrun hl⟩

/-- One connection watches two keys, and another creates the first of them. -/
def secondWatch : List Turn :=
  [.connect, .connect, .call 0 (.watch [1]), .call 0 (.watch [2]), .call 1 (.setIfAbsent [1] [7]),
    .call 0 (.exec [.put [2] [8]])]

/-- The etcd server is not told of the watch before the last, so it carries out a transaction that the
memory store aborts. -/
theorem first_watch_forgotten : ¬ ∀ (b : Behaviour) (endpoint : Endpoint) (now : Nat)
    (turns : List Turn) (t : Twins) (es : List Encounter), Steady b →
      (∀ turn ∈ turns, turn.isOrderly = true) → (start endpoint now).run b turns = some (t, es) →
      (∀ key, .lapsed key ∉ t.memory.history) →
        (∀ e ∈ es, e.IsAlike) ∧
          t.memory.server.node.value? t.memory.now = t.server.data.value? := by
  intro hclaim
  have h : ((start ⟨"store", 1⟩ 0).run secluded secondWatch).any (fun p =>
      p.1.memory.history = [.cleared 0, .touched [1], .watched 0 [2] false, .watched 0 [1] false] ∧
      p.1.memory.server.node.value? p.1.memory.now [2] = none ∧
      p.1.server.data.value? [2] = some [8]) = true := by decide +kernel
  obtain ⟨⟨t, es⟩, hrun, hp⟩ := (Option.any_eq_true _ _).mp h
  obtain ⟨hhistory, hmemory, hetcd⟩ := of_decide_eq_true hp
  dsimp only at hhistory hmemory hetcd
  obtain ⟨-, hvalues⟩ := hclaim secluded ⟨"store", 1⟩ 0 secondWatch t es steady_secluded (by decide)
    hrun (by simp [hhistory])
  rw [hvalues, hetcd] at hmemory
  cases hmemory

end Twins
end Holdfast.Etcd
