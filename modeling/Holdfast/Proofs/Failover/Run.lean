import Holdfast.Proofs.Failover.Step

namespace Holdfast

open Failover Store

/-- The same monitor later on: its listeners stand elsewhere, and it may be cancelled by now. -/
structure Monitor.Later (m m' : Monitor) : Prop where
  router : m'.router = m.router
  backend : m'.backend = m.backend
  backoff : m'.backoff = m.backoff
  peers : m'.listeners.map (·.peer) = m.listeners.map (·.peer)
  isCancelled : m.isCancelled = true → m'.isCancelled = true

theorem Monitor.Later.refl (m : Monitor) : m.Later m := ⟨rfl, rfl, rfl, rfl, id⟩

theorem Monitor.Later.trans {m₁ m₂ m₃ : Monitor} (h : m₁.Later m₂) (h' : m₂.Later m₃) :
    m₁.Later m₃ :=
  ⟨h'.router.trans h.router, h'.backend.trans h.backend, h'.backoff.trans h.backoff,
    h'.peers.trans h.peers, fun hc => h'.isCancelled (h.isCancelled hc)⟩

theorem Monitor.later_set {m : Monitor} {index : Nat} {l : Listener Stream}
    (hl : m.listeners[index]? = some l) (phase : Listener.Phase Stream) :
    m.Later { m with listeners := m.listeners.set index { l with phase := phase } } := by
  refine ⟨rfl, rfl, rfl, ?_, id⟩
  obtain ⟨hlt, rfl⟩ := List.getElem?_eq_some_iff.mp hl
  apply List.ext_getElem?
  intro i
  simp only [List.getElem?_map, List.getElem?_set]
  split
  · next he => subst he; simp [hlt]
  · rfl

namespace Failover

/-- The payloads that were applied, in order. -/
def applied (notes : List Note) : List String := notes.filterMap (·.deed.payload?)

/-- What was noted of one listener. -/
def notesOf (index : Nat) (notes : List Note) : List Note := notes.filter (·.index = index)

@[simp] theorem applied_append (as bs : List Note) :
    applied (as ++ bs) = applied as ++ applied bs := by simp [applied]

@[simp] theorem notesOf_append (index : Nat) (as bs : List Note) :
    notesOf index (as ++ bs) = notesOf index as ++ notesOf index bs := by simp [notesOf]

theorem notesOf_singleton (index : Nat) (note : Note) :
    notesOf index [note] = if note.index = index then [note] else [] := by
  by_cases h : note.index = index <;> simp [notesOf, h]

end Failover

namespace Deployment

/-- What the listeners of a monitor do one after the other, in whatever order, with the notes of it.
What else may happen meanwhile is left open. -/
inductive Listens (meanwhile : Deployment → Deployment → Prop) (id : Nat) (d : Deployment) :
    Deployment → List Note → Prop
  | here : Listens meanwhile id d d []
  | move {d' d'' : Deployment} {notes : List Note} {index : Nat} {heeds : Bool} {note : Note} :
    Listens meanwhile id d d' notes → d'.moveListener id index heeds = some (note, d'') →
    Listens meanwhile id d d'' (notes ++ [note])
  | meanwhile {d' d'' : Deployment} {notes : List Note} : Listens meanwhile id d d' notes →
    meanwhile d' d'' → Listens meanwhile id d d'' notes

/-- A router with the pools of its deployment. -/
def site? (d : Deployment) (n : Nat) : Option (Router.Site Link) :=
  d.routers[n]?.map fun r => ⟨d.pools, r⟩

/-- What the rest of a deployment may do while listeners follow their peers: let time pass, and use
the pools of the router as they are. What it may do to the peers is left open. -/
structure Aside (same : Directory → Directory → Prop) (id n : Nat) (d d' : Deployment) : Prop where
  now : d.now ≤ d'.now
  directory : same d.directory d'.directory
  monitor : d'.monitors[id]? = d.monitors[id]?
  router : d'.routers[n]? = d.routers[n]?
  pools : ∀ {r}, d.routers[n]? = some r → Router.Elsewhere r d.pools d'.pools

/-- What leaves a monitor alone, unless it cancels it. -/
def Keeps (id : Nat) (meanwhile : Deployment → Deployment → Prop) : Prop :=
  ∀ {d d' : Deployment} {m : Monitor}, meanwhile d d' → d.monitors[id]? = some m →
    ∃ isCancelled, d'.monitors[id]? = some { m with isCancelled := m.isCancelled || isCancelled }

theorem keeps_aside (same : Directory → Directory → Prop) (id n : Nat) :
    Keeps id (Aside same id n) := by
  intro d d' m h hm
  refine ⟨false, ?_⟩
  rw [h.monitor, hm, Bool.or_false]

/-- What may happen around the listeners of a monitor: anything, their peers included, that leaves
them alone, unless it cancels them. -/
structure Around (id : Nat) (d d' : Deployment) : Prop where
  now : d.now ≤ d'.now
  monitor : ∃ isCancelled, d'.monitors[id]? = d.monitors[id]?.map fun m =>
    { m with isCancelled := m.isCancelled || isCancelled }

theorem keeps_around (id : Nat) : Keeps id (Around id) := by
  intro d d' m h hm
  obtain ⟨isCancelled, hm'⟩ := h.monitor
  exact ⟨isCancelled, by rw [hm', hm, Option.map_some]⟩

theorem Around.of_same {id : Nat} {d d' : Deployment} (hnow : d.now ≤ d'.now)
    (hmonitor : d'.monitors[id]? = d.monitors[id]?) : Around id d d' :=
  ⟨hnow, false, by simp [hmonitor]⟩

variable {meanwhile : Deployment → Deployment → Prop} {id : Nat} {d d' d'' : Deployment}
  {m : Monitor} {notes : List Note}

theorem Listens.trans {notes' : List Note} (h : Listens meanwhile id d d' notes)
    (h' : Listens meanwhile id d' d'' notes') : Listens meanwhile id d d'' (notes ++ notes') := by
  induction h' with
  | here => simpa using h
  | move _ hmove ih =>
    rw [← List.append_assoc]
    exact ih.move hmove
  | meanwhile _ hmean ih => exact ih.meanwhile hmean

/-- The monitor that watches over some peers from now on. -/
theorem watch_monitor (d : Deployment) (b : Backend) (router : Nat) (peers : List Endpoint)
    (backoff : Nat) : (d.watch b router peers backoff).1.monitors[d.monitors.length]? =
      some { router, backend := b, backoff, listeners := peers.map fun peer => { peer } } :=
  List.getElem?_concat_length

/-- The moves that a schedule of listeners comes to, or none if one of them waits when it is its
turn. -/
def moves (id : Nat) : List Nat → Deployment → Option (List Note × Deployment)
  | [], d => some ([], d)
  | index :: schedule, d => do
    let (note, d) ← d.moveListener id index true
    let (notes, d) ← moves id schedule d
    return (note :: notes, d)

theorem Listens.of_moves {schedule : List Nat} (h : moves id schedule d = some (notes, d')) :
    Listens meanwhile id d d' notes := by
  induction schedule generalizing d notes with
  | nil =>
    cases h
    exact .here
  | cons index schedule ih =>
    obtain ⟨⟨note, d₁⟩, hmove, h⟩ := Option.bind_eq_some_iff.mp h
    obtain ⟨⟨notes', d₂⟩, hmoves, h⟩ := Option.bind_eq_some_iff.mp h
    cases h
    have hfirst : Listens meanwhile id d d₁ ([] ++ [note]) := Listens.here.move hmove
    exact hfirst.trans (ih hmoves)

theorem Listens.monitor (h : Listens meanwhile id d d' notes) (hkeeps : Keeps id meanwhile)
    (hm : d.monitors[id]? = some m) : ∃ m', d'.monitors[id]? = some m' ∧ m.Later m' := by
  induction h with
  | here => exact ⟨m, hm, .refl m⟩
  | move _ hmove ih =>
    obtain ⟨m', hm', hlater⟩ := ih
    obtain ⟨m₁, l, d₁, phase, hm₁, hl, -, -, -, rfl⟩ := moveListener_steps hmove
    rw [hm'] at hm₁
    cases hm₁
    refine ⟨_, ?_, hlater.trans (Monitor.later_set hl phase)⟩
    exact List.getElem?_set_self (List.getElem?_eq_some_iff.mp hm').1
  | meanwhile _ hmean ih =>
    obtain ⟨m', hm', hlater⟩ := ih
    obtain ⟨isCancelled, hm''⟩ := hkeeps hmean hm'
    refine ⟨_, hm'', hlater.trans ⟨rfl, rfl, rfl, rfl, ?_⟩⟩
    intro hcancelled
    simp [hcancelled]

/-- Only a cancelled monitor has listeners that have terminated. -/
theorem Listens.terminated (h : Listens meanwhile id d d' notes) (hkeeps : Keeps id meanwhile)
    (hm : d.monitors[id]? = some m)
    (hbegin : ∀ l ∈ m.listeners, l.phase = .terminated → m.isCancelled = true) {m' : Monitor}
    (hm' : d'.monitors[id]? = some m') :
    ∀ l ∈ m'.listeners, l.phase = .terminated → m'.isCancelled = true := by
  induction h generalizing m' with
  | here =>
    rw [hm] at hm'
    cases hm'
    exact hbegin
  | move hrun hmove ih =>
    obtain ⟨m₁, l₁, d₁, phase, hm₁, -, -, -, hsteps, -, rfl⟩ := moveListener_monitor hmove hm'
    have hstopped := ih hm₁
    intro l hl hphase
    rcases List.mem_or_eq_of_mem_set hl with hold | rfl
    · exact hstopped l hold hphase
    · dsimp only at hphase
      subst hphase
      exact hsteps.terminated.2.1
  | meanwhile hrun hmean ih =>
    obtain ⟨m₁, hm₁, -⟩ := hrun.monitor hkeeps hm
    obtain ⟨isCancelled, hm₂⟩ := hkeeps hmean hm₁
    rw [hm₂] at hm'
    cases hm'
    intro l hl hphase
    simp [ih hm₁ l hl hphase]

/-- Nobody cancels the listeners while they are left alone. -/
theorem Listens.isCancelled {same : Directory → Directory → Prop} {n : Nat}
    (h : Listens (Aside same id n) id d d' notes)
    (hm : d.monitors[id]? = some m) {m' : Monitor} (hm' : d'.monitors[id]? = some m') :
    m'.isCancelled = m.isCancelled := by
  induction h generalizing m' with
  | here =>
    rw [hm] at hm'
    cases hm'
    rfl
  | move hrun hmove ih =>
    obtain ⟨m₁, l₁, d₁, phase, hm₁, -, -, -, -, -, rfl⟩ := moveListener_monitor hmove hm'
    have hkept := ih hm₁
    exact hkept
  | meanwhile hrun hmean ih =>
    rw [hmean.monitor] at hm'
    exact ih hm'

theorem Listens.index_lt (h : Listens meanwhile id d d' notes) (hkeeps : Keeps id meanwhile)
    (hm : d.monitors[id]? = some m) : ∀ note ∈ notes, note.index < m.listeners.length := by
  induction h with
  | here => simp
  | move hrun hmove ih =>
    obtain ⟨m', hm', hlater⟩ := hrun.monitor hkeeps hm
    obtain ⟨m₁, l, d₁, phase, hm₁, hl, hindex, -, -, -⟩ := moveListener_steps hmove
    rw [hm'] at hm₁
    cases hm₁
    have hlen : m'.listeners.length = m.listeners.length := by
      simpa using congrArg List.length hlater.peers
    intro note hnote
    rcases List.mem_append.mp hnote with hold | hnew
    · exact ih note hold
    · have hlt := (List.getElem?_eq_some_iff.mp hl).1
      rw [List.mem_singleton.mp hnew, hindex]
      omega
  | meanwhile _ _ ih => exact ih

theorem site?_applySwitch {n : Nat} {s : Router.Site Link} (hs : d.site? n = some s)
    (payload : String) : (d.applySwitch n payload).site? n = some (s.hear payload) := by
  obtain ⟨r, hr, rfl⟩ := Option.map_eq_some_iff.mp hs
  have hlt : n < d.routers.length := (List.getElem?_eq_some_iff.mp hr).1
  unfold applySwitch site?
  rw [hr]
  simp [hlt, Router.Site.hear]

/-- What a step does to the router of the monitor. -/
theorem Steps.site {l : Listener Stream} {deed : Deed} {phase : Listener.Phase Stream}
    (h : Steps d m l deed d' phase) {s : Router.Site Link} (hs : d.site? m.router = some s) :
    d'.site? m.router = some (s.hearAll deed.payload?.toList) := by
  rw [h.deployment]
  cases deed.payload? with
  | none => exact hs
  | some payload => exact site?_applySwitch hs payload

theorem site?_moveListener {index : Nat} {heeds : Bool} {note : Note}
    (hmove : d.moveListener id index heeds = some (note, d')) (hm : d.monitors[id]? = some m)
    {s : Router.Site Link} (hs : d.site? m.router = some s) :
    d'.site? m.router = some (s.hearAll (applied [note])) := by
  obtain ⟨m₁, l, d₁, phase, hm₁, -, -, -, hsteps, rfl⟩ := moveListener_steps hmove
  rw [hm] at hm₁
  cases hm₁
  have happlied : applied [note] = note.deed.payload?.toList := by
    cases h : note.deed.payload? <;> simp [applied, h]
  rw [happlied]
  exact hsteps.site hs

/-- What becomes of the router that the listeners of a monitor share: it hears, one after the other,
the payloads that any of them applies. -/
theorem Listens.site {same : Directory → Directory → Prop} {n : Nat}
    (h : Listens (Aside same id n) id d d' notes)
    (hm : d.monitors[id]? = some m) (hn : m.router = n) {s₀ s : Router.Site Link} {isOpen : Bool}
    (hs : d.site? n = some s) (hlife : Router.Lives s₀ s isOpen) (hd : s.router.names.Nodup)
    (hsize : s.router.topology.size = s.router.names.length) :
    ∃ s' isOpen', d'.site? n = some s' ∧ Router.Lives s₀ s' isOpen' ∧
      s'.router.names = s.router.names ∧ s'.router.topology =
        s.router.topology.following s.router.names (announced s.router.names (applied notes)) := by
  induction h with
  | here => exact ⟨s, isOpen, hs, hlife, rfl, (Topology.following_nil hsize).symm⟩
  | @move d₁ d₂ notes index heeds note hrun hmove ih =>
    obtain ⟨s₁, isOpen₁, hs₁, hlife₁, hnames, htopology⟩ := ih
    obtain ⟨m₁, hm₁, hlater⟩ := hrun.monitor (keeps_aside same id n) hm
    have hn₁ : m₁.router = n := hlater.router.trans hn
    have hs₂ := site?_moveListener hmove hm₁ (s := s₁) (by rwa [hn₁])
    obtain ⟨isOpen₂, hlife₂⟩ := hlife₁.hearAll (applied [note])
    have hsize₁ : s₁.router.topology.size = s₁.router.names.length := by
      rw [htopology, hnames, Topology.size_following _ _ hsize]
    refine ⟨_, isOpen₂, by rwa [hn₁] at hs₂, hlife₂, ?_, ?_⟩
    · rw [Router.Site.names_hearAll, hnames]
    · rw [Router.Site.topology_hearAll (by rwa [hnames]) hsize₁, htopology, hnames,
        Topology.following_append hsize, ← announced_append, ← applied_append]
  | meanwhile _ hmean ih =>
    obtain ⟨s₁, isOpen₁, hs₁, hlife₁, hnames, htopology⟩ := ih
    obtain ⟨r, hr, rfl⟩ := Option.map_eq_some_iff.mp hs₁
    refine ⟨_, isOpen₁, ?_, hlife₁.elsewhere (hmean.pools hr), hnames, htopology⟩
    rw [site?, hmean.router, hr]
    rfl

end Deployment
end Holdfast
