import Holdfast.Proofs.Failover.Drive
import Holdfast.Proofs.Failover.Run
import Holdfast.Proofs.Failover.Story

namespace Holdfast

open Failover Store

namespace Failover

/-- The state in which some notes leave a listener that was in another one. -/
def stateAfter (state : ListenerState) (notes : List Note) : ListenerState :=
  notes.foldl (fun state note => note.deed.state?.getD state) state

theorem stateAfter_append (state : ListenerState) (as bs : List Note) :
    stateAfter state (as ++ bs) = stateAfter (stateAfter state as) bs := List.foldl_append

/-- A listener is let pass by a wait: when, and what had been noted since the wait began. -/
structure Pass where
  time : Nat
  before : List Note

end Failover

namespace Deployment

/-- A wait for the listeners of a monitor, one after the other, while they go on and anything happens
around them. -/
inductive Attends (id : Nat) (d : Deployment) : Deployment → List Note → List Pass → Prop
  | here : Attends id d d [] []
  | move {d' d'' : Deployment} {notes : List Note} {passes : List Pass} {index : Nat} {heeds : Bool}
    {note : Note} : Attends id d d' notes passes →
    d'.moveListener id index heeds = some (note, d'') → Attends id d d'' (notes ++ [note]) passes
  | around {d' d'' : Deployment} {notes : List Note} {passes : List Pass} :
    Attends id d d' notes passes → Around id d' d'' → Attends id d d'' notes passes
  | pass {d' d'' : Deployment} {notes : List Note} {passes : List Pass} {j : Job} :
    Attends id d d' notes passes → d'.stepJob (.attend id passes.length) = some (d'', j) →
    Attends id d d'' notes (passes ++ [⟨d'.now, notes⟩])

variable {id n backoff ms : Nat} {b : Backend} {peers : List Endpoint} {d₀ d d' d'' : Deployment}
  {m m' : Monitor} {l : Listener Stream} {notes₀ notes : List Note} {passes : List Pass}

theorem Steps.state {deed : Deed} {phase : Listener.Phase Stream} (h : Steps d m l deed d' phase) :
    ({ l with phase := phase } : Listener Stream).state = deed.state?.getD l.state := by
  cases h with
  | ask hphase _ | apply hphase _ =>
    simp only [Deed.state?, Option.getD_none]
    rw [Listener.state, Listener.state, hphase]
  | start | stop | accept | refuse | lose | resume => rfl

theorem Listens.state {meanwhile : Deployment → Deployment → Prop} {notes : List Note}
    (h : Listens meanwhile id d d' notes) (hkeeps : Keeps id meanwhile)
    (hm : d.monitors[id]? = some m) (hm' : d'.monitors[id]? = some m') {i : Nat}
    {l l' : Listener Stream} (hl : m.listeners[i]? = some l) (hl' : m'.listeners[i]? = some l') :
    l'.state = stateAfter l.state (notesOf i notes) := by
  induction h generalizing m' l' with
  | here =>
    cases hm.symm.trans hm'
    cases hl.symm.trans hl'
    rfl
  | @move _ _ _ index _ note hrun hmove ih =>
    obtain ⟨m₁, l₁, d₁, phase, hm₁, hl₁, hindex, -, hsteps, -, rfl⟩ := moveListener_monitor hmove hm'
    rw [notesOf_append, notesOf_singleton, stateAfter_append]
    by_cases hi : index = i
    · subst hi
      dsimp only at hl'
      rw [List.getElem?_set_self (List.getElem?_eq_some_iff.mp hl₁).1] at hl'
      cases hl'
      rw [if_pos hindex, ← ih hm₁ hl₁]
      exact hsteps.state
    · dsimp only at hl'
      rw [List.getElem?_set_ne hi] at hl'
      rw [if_neg (hindex ▸ hi)]
      exact ih hm₁ hl'
  | meanwhile hrun hmean ih =>
    obtain ⟨m₁, hm₁, -⟩ := hrun.monitor hkeeps hm
    obtain ⟨isCancelled, hm₂⟩ := hkeeps hmean hm₁
    cases hm₂.symm.trans hm'
    exact ih hm₁ hl'

/-- A pass of a wait: the listener whose turn it is listens, or never will. -/
theorem stepJob_attend {k : Nat} {j : Job} (h : d.stepJob (.attend id k) = some (d', j)) :
    d' = d ∧ j = .attend id (k + 1) ∧ ∃ m l, d.monitors[id]? = some m ∧ m.listeners[k]? = some l ∧
      (l.state = .listening ∨ l.state = .terminated) := by
  simp only [stepJob] at h
  split at h
  · next m hm =>
    split at h
    · next hgoes =>
      cases h
      obtain ⟨hlt, hattended⟩ := Bool.and_eq_true_iff.mp hgoes
      have hlt' : k < m.listeners.length := of_decide_eq_true hlt
      have hl : m.listeners[k]? = some m.listeners[k] := List.getElem?_eq_getElem hlt'
      refine ⟨rfl, rfl, m, _, hm, hl, ?_⟩
      simpa [Monitor.isAttended, hl] using hattended
    · cases h
  · cases h

namespace Attends

theorem listens (h : Attends id d d' notes passes) : Listens (Around id) id d d' notes := by
  induction h with
  | here => exact .here
  | move _ hmove ih => exact ih.move hmove
  | around _ haround ih => exact ih.meanwhile haround
  | pass _ hpass ih =>
    obtain ⟨rfl, -⟩ := stepJob_attend hpass
    exact ih

theorem before_prefix (h : Attends id d d' notes passes) :
    ∀ pass ∈ passes, pass.before <+: notes := by
  induction h with
  | here => simp
  | move _ _ ih => exact fun pass hpass => (ih pass hpass).trans (List.prefix_append _ _)
  | around _ _ ih => exact ih
  | pass _ _ ih =>
    intro pass hpass
    rcases List.mem_append.mp hpass with hold | hnew
    · exact ih pass hold
    · cases List.mem_singleton.mp hnew
      exact List.prefix_rfl

theorem times (h : Attends id d d' notes passes) : d.now ≤ d'.now ∧
    (passes.map (·.time)).Pairwise (· ≤ ·) ∧
    ∀ pass ∈ passes, d.now ≤ pass.time ∧ pass.time ≤ d'.now := by
  induction h with
  | here => simp
  | move _ hmove ih =>
    obtain ⟨m, l, d₁, phase, -, -, -, -, hsteps, rfl⟩ := moveListener_steps hmove
    rwa [hsteps.now]
  | around _ haround ih =>
    obtain ⟨hle, hsorted, htimes⟩ := ih
    refine ⟨hle.trans haround.now, hsorted, ?_⟩
    exact fun pass hpass => ⟨(htimes pass hpass).1, (htimes pass hpass).2.trans haround.now⟩
  | pass _ hpass ih =>
    obtain ⟨rfl, -⟩ := stepJob_attend hpass
    obtain ⟨hle, hsorted, htimes⟩ := ih
    refine ⟨hle, ?_, ?_⟩
    · simpa [List.pairwise_append, hsorted] using fun pass hpass => (htimes pass hpass).2
    · intro pass hpass
      rcases List.mem_append.mp hpass with hold | hnew
      · exact htimes pass hold
      · rw [List.mem_singleton.mp hnew]
        exact ⟨hle, Nat.le_refl _⟩

theorem monitor (h : Attends id d d' notes passes) (hm : d.monitors[id]? = some m) :
    ∃ m', d'.monitors[id]? = some m' ∧ m'.listeners.length = m.listeners.length := by
  obtain ⟨m', hm', hlater⟩ := h.listens.monitor (keeps_around id) hm
  exact ⟨m', hm', by simpa using congrArg List.length hlater.peers⟩

theorem length_le (h : Attends id d d' notes passes) (hm : d.monitors[id]? = some m) :
    passes.length ≤ m.listeners.length := by
  induction h with
  | here => exact Nat.zero_le _
  | move _ _ ih | around _ _ ih => exact ih
  | pass hrun hpass _ =>
    obtain ⟨m', hm', hlength⟩ := hrun.monitor hm
    obtain ⟨-, -, m₁, l, hm₁, hl, -⟩ := stepJob_attend hpass
    cases hm'.symm.trans hm₁
    have hlt := (List.getElem?_eq_some_iff.mp hl).1
    rw [List.length_append, List.length_singleton]
    omega

/-- Whoever has been let pass was listening then, unless the monitor is cancelled by now. -/
theorem passed (h : Attends id d d' notes passes) (hm : d.monitors[id]? = some m)
    (hbegin : ∀ l ∈ m.listeners, l.phase = .terminated → m.isCancelled = true)
    (hm' : d'.monitors[id]? = some m') (hup : m'.isCancelled = false) {i : Nat} {pass : Pass}
    (hpass : passes[i]? = some pass) (hl : m.listeners[i]? = some l) :
    stateAfter l.state (notesOf i pass.before) = .listening := by
  induction h generalizing m' with
  | here => cases hpass
  | move _ hmove ih =>
    obtain ⟨m₁, _, _, _, hm₁, -, -, -, -, -, rfl⟩ := moveListener_monitor hmove hm'
    exact ih hm₁ hup hpass
  | around hrun haround ih =>
    obtain ⟨m₁, hm₁, -⟩ := hrun.monitor hm
    obtain ⟨isCancelled, hm₂⟩ := keeps_around id haround hm₁
    cases hm₂.symm.trans hm'
    exact ih hm₁ (Bool.or_eq_false_iff.mp hup).1 hpass
  | @pass _ _ notes passes _ hrun hstep ih =>
    obtain ⟨rfl, -, m₁, l₁, hm₁, hl₁, hstate⟩ := stepJob_attend hstep
    cases hm₁.symm.trans hm'
    by_cases hi : i < passes.length
    · rw [List.getElem?_append_left hi] at hpass
      exact ih hm₁ hup hpass
    · have hlt := (List.getElem?_eq_some_iff.mp hpass).1
      obtain rfl : i = passes.length := by
        rw [List.length_append, List.length_singleton] at hlt
        omega
      rw [List.getElem?_concat_length] at hpass
      cases hpass
      rw [← hrun.listens.state (keeps_around id) hm hm₁ hl hl₁]
      refine hstate.resolve_right fun hterminated => ?_
      have hphase : l₁.phase = .terminated := by
        cases h : l₁.phase <;> simp [Listener.state, h] at hterminated
        rfl
      have hcancelled := hrun.listens.terminated (keeps_around id) hm hbegin hm₁ l₁
        (List.mem_of_getElem? hl₁) hphase
      rw [hup] at hcancelled
      cases hcancelled

/-- What was noted of a listener since it was let pass tells its state. -/
theorem state_since (h : Attends id d d' notes passes) (hm : d.monitors[id]? = some m)
    (hbegin : ∀ l ∈ m.listeners, l.phase = .terminated → m.isCancelled = true)
    (hm' : d'.monitors[id]? = some m') (hup : m'.isCancelled = false) {i : Nat} {pass : Pass}
    {l' : Listener Stream} (hpass : passes[i]? = some pass) (hl' : m'.listeners[i]? = some l') :
    l'.state = stateAfter .listening (notesOf i (notes.drop pass.before.length)) := by
  have hi : i < m.listeners.length :=
    Nat.lt_of_lt_of_le (List.getElem?_eq_some_iff.mp hpass).1 (h.length_le hm)
  have hl : m.listeners[i]? = some m.listeners[i] := List.getElem?_eq_getElem hi
  have hnow := h.listens.state (keeps_around id) hm hm' hl hl'
  have hthen := h.passed hm hbegin hm' hup hpass hl
  obtain ⟨since, rfl⟩ := h.before_prefix pass (List.mem_of_getElem? hpass)
  rw [hnow, notesOf_append, stateAfter_append, hthen, List.drop_left]

/-- Once all of its listeners have been let pass, a monitor listens as a whole just if each has kept
its subscription since or has one again. -/
theorem listening_iff (h : Attends id d d' notes passes) (hm : d.monitors[id]? = some m)
    (hbegin : ∀ l ∈ m.listeners, l.phase = .terminated → m.isCancelled = true)
    (hm' : d'.monitors[id]? = some m') (hup : m'.isCancelled = false)
    (hall : passes.length = m'.listeners.length) : (∀ l ∈ m'.listeners, l.state = .listening) ↔
      ∀ {i pass}, passes[i]? = some pass →
        stateAfter .listening (notesOf i (notes.drop pass.before.length)) = .listening := by
  constructor
  · intro hlisten i pass hpass
    have hi : i < m'.listeners.length := hall ▸ (List.getElem?_eq_some_iff.mp hpass).1
    have hl' : m'.listeners[i]? = some m'.listeners[i] := List.getElem?_eq_getElem hi
    rw [← h.state_since hm hbegin hm' hup hpass hl']
    exact hlisten _ (List.getElem_mem hi)
  · intro hkept l hl
    obtain ⟨i, hl'⟩ := List.getElem?_of_mem hl
    have hi : i < passes.length := hall ▸ (List.getElem?_eq_some_iff.mp hl').1
    have hpass : passes[i]? = some passes[i] := List.getElem?_eq_getElem hi
    rw [h.state_since hm hbegin hm' hup hpass hl']
    exact hkept hpass

end Attends

def Attending (id : Nat) (d₀ d : Deployment) (j : Job) : Prop :=
  ∃ notes passes, Attends id d₀ d notes passes ∧ j = .attend id passes.length

theorem driven_attending (id : Nat) (d₀ : Deployment) : Driven (Attending id d₀) where
  step := by
    rintro d d' j j' ⟨notes, passes, h, rfl⟩ hstep
    obtain ⟨-, rfl, -⟩ := stepJob_attend hstep
    exact ⟨notes, _, h.pass hstep, by rw [List.length_append, List.length_singleton]⟩
  works := by
    rintro d d' j ⟨notes, passes, h, hj⟩ hworks
    refine ⟨notes, passes, h.around (.of_same (Nat.le_of_eq hworks.now.symm) ?_), hj⟩
    rw [hworks.monitors]
  moves := by
    rintro d d' j other index note ⟨notes, passes, h, hj⟩ hmove
    by_cases hid : other = id
    · subst hid
      exact ⟨_, passes, h.move hmove, hj⟩
    · obtain ⟨m, l, d₁, phase, -, -, -, -, hsteps, rfl⟩ := moveListener_steps hmove
      refine ⟨notes, passes, h.around (.of_same (Nat.le_of_eq hsteps.now.symm) ?_), hj⟩
      exact List.getElem?_set_ne hid

/-- A wait that is performed until it is over. -/
theorem awaitListening_attends (h : d.awaitListening (some id) ms = (d', true)) :
    ∃ notes passes, Attends id d d' notes passes ∧
      d'.isOver (.attend id passes.length) = true := by
  have hstart : Attending id d d (.attend id 0) := ⟨[], [], .here, rfl⟩
  have hrun := (driven_attending id d).runJob
    (fun ⟨notes, passes, h, hj⟩ hlt =>
      ⟨notes, passes, h.around (.of_same (Nat.le_of_lt hlt) rfl), hj⟩)
    horizon hstart (some (d.now + ms))
  rcases hout : d.runJob horizon (.attend id 0) (some (d.now + ms)) with ⟨d₁, j⟩
  rw [hout] at hrun
  simp only [awaitListening, performFor, hout] at h
  split at h
  · next hover =>
    cases h
    obtain ⟨notes, passes, hattends, rfl⟩ := hrun
    exact ⟨notes, passes, hattends, hover⟩
  · cases h

/-- The listeners of a monitor all listen after some wait just if each has kept its subscription since
it was let pass, or has one again. A wait that is performed lets each of them pass, one after the
other, when it listens, and does not look at it again. -/
theorem attended_iff_kept
    (hrun : Listens (Around d₀.monitors.length) d₀.monitors.length
      (d₀.watch b n peers backoff).1 d notes₀) :
    (∀ {ms d'}, d.awaitListening (some d₀.monitors.length) ms = (d', true) → ∃ notes passes,
      Attends d₀.monitors.length d d' notes passes ∧ passes.length = peers.length) ∧
    ∀ {d' notes passes m'}, Attends d₀.monitors.length d d' notes passes →
      d'.monitors[d₀.monitors.length]? = some m' → m'.isCancelled = false →
      (passes.map (·.time)).Pairwise (· ≤ ·) ∧
      (∀ {i pass}, passes[i]? = some pass → d.now ≤ pass.time ∧ pass.time ≤ d'.now ∧
        pass.before <+: notes ∧
        stateAfter .disconnected (notesOf i (notes₀ ++ pass.before)) = .listening) ∧
      (passes.length = peers.length → ((∀ l ∈ m'.listeners, l.state = .listening) ↔
        ∀ {i pass}, passes[i]? = some pass →
          stateAfter .listening (notesOf i (notes.drop pass.before.length)) = .listening)) := by
  have hwatch := watch_monitor d₀ b n peers backoff
  obtain ⟨m, hm, hlater⟩ := hrun.monitor (keeps_around _) hwatch
  have hlength : m.listeners.length = peers.length := by
    simpa using congrArg List.length hlater.peers
  have hbegin := hrun.terminated (keeps_around _) hwatch (by simp) hm
  refine ⟨?_, ?_⟩
  · intro ms d' hwait
    obtain ⟨notes, passes, hattends, hover⟩ := awaitListening_attends hwait
    obtain ⟨m', hm', hlength'⟩ := hattends.monitor hm
    have hle := hattends.length_le hm
    have hge : m'.listeners.length ≤ passes.length := by simpa [isOver, hm'] using hover
    exact ⟨notes, passes, hattends, by omega⟩
  · intro d' notes passes m' hattends hm' hup
    obtain ⟨-, hsorted, htimes⟩ := hattends.times
    obtain ⟨m'', hm'', hlength'⟩ := hattends.monitor hm
    cases hm''.symm.trans hm'
    refine ⟨hsorted, ?_, ?_⟩
    · intro i pass hpass
      have hmem := List.mem_of_getElem? hpass
      have hi : i < m.listeners.length :=
        Nat.lt_of_lt_of_le (List.getElem?_eq_some_iff.mp hpass).1 (hattends.length_le hm)
      have hl : m.listeners[i]? = some m.listeners[i] := List.getElem?_eq_getElem hi
      have hbefore := hrun.state (keeps_around _) hwatch hm (i := i) (l := ⟨peers[i], .starting⟩)
        (by simp [hlength ▸ hi]) hl
      have hthen := hattends.passed hm hbegin hm' hup hpass hl
      rw [hbefore, ← stateAfter_append, ← notesOf_append] at hthen
      exact ⟨(htimes pass hmem).1, (htimes pass hmem).2, hattends.before_prefix pass hmem, hthen⟩
    · intro hall
      exact hattends.listening_iff hm hbegin hm' hup (by omega)

/-- The first peer loses its subscriber after a while, the second one refuses at first. -/
def fickle : Deployment := { directory := .script { subscriptions :=
  [(⟨"p", 1⟩, [⟨.ok [⟨10, .lost⟩], 0⟩, ⟨.ok [], 0⟩]),
    (⟨"p", 2⟩, [⟨.error (.unreachable ⟨"p", 2⟩), 0⟩, ⟨.ok [], 0⟩])] } }

theorem fickle_start : Listens (Around fickle.monitors.length) fickle.monitors.length
    (fickle.watch .memory 0 [⟨"p", 1⟩, ⟨"p", 2⟩] 20).1
    (fickle.watch .memory 0 [⟨"p", 1⟩, ⟨"p", 2⟩] 20).1 [] := .here

/-- A wait that comes back while the first listener pauses. -/
theorem fickle_wait : ∃ d' m',
    (fickle.watch .memory 0 [⟨"p", 1⟩, ⟨"p", 2⟩] 20).1.awaitListening (some 0) 100 = (d', true) ∧
    d'.monitors[0]? = some m' ∧ m'.isCancelled = false ∧
    ∃ l ∈ m'.listeners, l.state = .disconnected := by
  have hend : ((fickle.watch .memory 0 [⟨"p", 1⟩, ⟨"p", 2⟩] 20).1.awaitListening (some 0) 100).2 =
        true ∧
      ((fickle.watch .memory 0 [⟨"p", 1⟩, ⟨"p", 2⟩] 20).1.awaitListening (some 0)
        100).1.monitors[0]?.map (fun m => (m.isCancelled, m.states)) =
        some (false, [(⟨"p", 1⟩, .disconnected), (⟨"p", 2⟩, .listening)]) := by
    decide +kernel
  obtain ⟨hback, hmonitor⟩ := hend
  obtain ⟨m', hm', hsame⟩ := Option.map_eq_some_iff.mp hmonitor
  obtain ⟨hup, hstates⟩ := Prod.mk.inj hsame
  have hfirst : (⟨"p", 1⟩, .disconnected) ∈ m'.states := by
    rw [hstates]
    exact List.mem_cons_self
  obtain ⟨l, hl, he⟩ := List.mem_map.mp hfirst
  exact ⟨_, m', Prod.ext rfl hback, hm', hup, l, hl, congrArg Prod.snd he⟩

/-- One of the listeners has lost its subscription since it was let pass. -/
theorem attended_iff_kept_lost : ∃ d' notes passes,
    (fickle.watch .memory 0 [⟨"p", 1⟩, ⟨"p", 2⟩] 20).1.awaitListening (some 0) 100 = (d', true) ∧
    Attends 0 (fickle.watch .memory 0 [⟨"p", 1⟩, ⟨"p", 2⟩] 20).1 d' notes passes ∧
    passes.length = 2 ∧ ∃ i pass, passes[i]? = some pass ∧
      stateAfter .listening (notesOf i (notes.drop pass.before.length)) ≠ .listening := by
  obtain ⟨d', m', hback, hm', hup, l, hl, hstate⟩ := fickle_wait
  obtain ⟨hwaits, hruns⟩ := attended_iff_kept fickle_start
  obtain ⟨notes, passes, hattends, hall⟩ := hwaits hback
  obtain ⟨-, -, hiff⟩ := hruns hattends hm' hup
  refine ⟨d', notes, passes, hback, hattends, hall, ?_⟩
  by_contra hnone
  have hkept : ∀ {i pass}, passes[i]? = some pass →
      stateAfter .listening (notesOf i (notes.drop pass.before.length)) = .listening := by
    intro i pass hpass
    by_contra hlost
    exact hnone ⟨i, pass, hpass, hlost⟩
  have hlisten := (hiff hall).mpr hkept l hl
  rw [hstate] at hlisten
  cases hlisten

/-- A wait may come back while some listener does not listen. -/
theorem waits_leave_unattended : ¬ ∀ {d₀ d d' : Deployment} {b : Backend} {n backoff ms : Nat}
    {peers : List Endpoint} {notes : List Note} {m : Monitor},
    Listens (Around d₀.monitors.length) d₀.monitors.length (d₀.watch b n peers backoff).1 d notes →
    d.awaitListening (some d₀.monitors.length) ms = (d', true) →
    d'.monitors[d₀.monitors.length]? = some m → m.isCancelled = false →
    ∀ l ∈ m.listeners, l.state = .listening := by
  intro hall
  obtain ⟨d', m', hback, hm', hup, l, hl, hstate⟩ := fickle_wait
  have hlisten := hall fickle_start hback hm' hup l hl
  rw [hstate] at hlisten
  cases hlisten

end Deployment
end Holdfast
