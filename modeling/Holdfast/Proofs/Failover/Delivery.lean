import Holdfast.Proofs.Failover.Stream

namespace Holdfast.Deployment

open Failover Store

/-- What was heard by listeners of scripted peers: each has applied the first part of what its peer
has in store and, unless it has terminated, awaits the rest. -/
structure Delivers (script : Failover.Script) (id : Nat) (d : Deployment) (notes : List Note) :
    Prop where
  directory : ∃ script', d.directory = .script script'
  listener : ∀ {m index l}, d.monitors[id]? = some m → m.listeners[index]? = some l →
    IsScripted l ∧ ∃ rest, applied (notesOf index notes) ++ rest = script.payloads l.peer ∧
      (l.phase ≠ .terminated → rest = d.awaited l)

variable {script : Failover.Script} {id : Nat} {d d' : Deployment} {notes : List Note}
  {m : Monitor}

theorem peer_ne (hpeers : (m.listeners.map (·.peer)).Nodup) {i j : Nat} (hij : i ≠ j)
    {l l' : Listener Stream} (hl : m.listeners[i]? = some l) (hl' : m.listeners[j]? = some l') :
    l'.peer ≠ l.peer := by
  intro he
  apply hij
  obtain ⟨hi, rfl⟩ := List.getElem?_eq_some_iff.mp hl
  obtain ⟨hj, rfl⟩ := List.getElem?_eq_some_iff.mp hl'
  have hi' : i < (m.listeners.map (·.peer)).length := by simpa using hi
  have hj' : j < (m.listeners.map (·.peer)).length := by simpa using hj
  have hsame : (m.listeners.map (·.peer))[i] = (m.listeners.map (·.peer))[j] := by
    simpa using he.symm
  exact hpeers.getElem_inj_iff.mp hsame

theorem awaited_congr {d d' : Deployment} {peer : Endpoint} (h : d'.inStore peer = d.inStore peer)
    {l : Listener Stream} (hpeer : l.peer = peer) : d'.awaited l = d.awaited l := by
  rw [awaited, awaited, hpeer, h]

theorem Delivers.move {index : Nat} {heeds : Bool} {note : Note} (h : Delivers script id d notes)
    (hm : d.monitors[id]? = some m) (hmemory : m.backend = .memory)
    (hpeers : (m.listeners.map (·.peer)).Nodup)
    (hmove : d.moveListener id index heeds = some (note, d')) :
    Delivers script id d' (notes ++ [note]) := by
  obtain ⟨script₁, hscript⟩ := h.directory
  have hdirectory : ∃ script', d'.directory = .script script' := by
    obtain ⟨m₁, l, d₁, phase, hm₁, -, -, -, hsteps, rfl⟩ := moveListener_steps hmove
    rw [hm] at hm₁
    cases hm₁
    obtain ⟨script', hscript', -⟩ := hsteps.directory_script hscript hmemory
    exact ⟨script', hscript'⟩
  refine ⟨hdirectory, ?_⟩
  intro m' j l' hm' hl'
  obtain ⟨m₁, l, d₁, phase, hm₁, hl, hindex, -, hsteps, rfl, rfl⟩ := moveListener_monitor hmove hm'
  rw [hm] at hm₁
  cases hm₁
  obtain ⟨script₂, hscript₂, -, hothers, -⟩ := hsteps.directory_script hscript hmemory
  obtain ⟨hscripted, rest, hheard, hrest⟩ := h.listener hm hl
  by_cases hj : j = index
  · subst hj
    dsimp only at hl'
    rw [List.getElem?_set_self (List.getElem?_eq_some_iff.mp hl).1] at hl'
    cases hl'
    have hnotes : applied (notesOf j (notes ++ [note])) =
        applied (notesOf j notes) ++ note.deed.payload?.toList := by
      rw [notesOf_append, notesOf_singleton, if_pos hindex, applied_append]
      cases hp : note.deed.payload? <;> simp [applied, hp]
    rw [hnotes]
    by_cases hends : phase = .terminated
    · subst hends
      have hnone : note.deed.payload? = none := by rw [hsteps.terminated.1]; rfl
      refine ⟨?_, rest, ?_, fun hne => absurd rfl hne⟩
      · intro reader hreader
        cases hreader
      · simpa [hnone] using hheard
    · obtain ⟨hscripted', hawaited⟩ := hsteps.awaited hscript hmemory hscripted hends
      refine ⟨hscripted', _, ?_, fun _ => rfl⟩
      rw [List.append_assoc, ← hheard, hrest hsteps.goes, ← hawaited]
      rfl
  · dsimp only at hl'
    rw [List.getElem?_set_ne (Ne.symm hj)] at hl'
    obtain ⟨hscripted', rest', hheard', hrest'⟩ := h.listener hm hl'
    have hnotes : notesOf j (notes ++ [note]) = notesOf j notes := by
      rw [notesOf_append, notesOf_singleton, if_neg (by omega), List.append_nil]
    refine ⟨hscripted', rest', by rw [hnotes, hheard'], ?_⟩
    intro hgoes
    rw [hrest' hgoes]
    apply (awaited_congr _ rfl).symm
    have hother := Script.payloads_congr (hothers _ (peer_ne hpeers (Ne.symm hj) hl hl'))
    simpa [inStore, hscript, hscript₂] using hother

/-- Whatever the order in which listeners on different peers go on, each hears what its own peer has
in store, in order and once. -/
theorem Listens.delivers {meanwhile : Deployment → Deployment → Prop}
    (h : Listens meanwhile id d d' notes) (hkeeps : Keeps id meanwhile)
    (hsame : ∀ {d d' : Deployment}, meanwhile d d' → d'.directory = d.directory)
    (hm : d.monitors[id]? = some m) (hmemory : m.backend = .memory)
    (hpeers : (m.listeners.map (·.peer)).Nodup) (hbegin : Delivers script id d []) :
    Delivers script id d' notes := by
  induction h with
  | here => exact hbegin
  | move hrun hmove ih =>
    obtain ⟨m', hm', hlater⟩ := hrun.monitor hkeeps hm
    exact ih.move hm' (hlater.backend.trans hmemory) (by rwa [hlater.peers]) hmove
  | meanwhile hrun hmean ih =>
    obtain ⟨m', hm', -⟩ := hrun.monitor hkeeps hm
    obtain ⟨isCancelled, hm''⟩ := hkeeps hmean hm'
    have hdir := hsame hmean
    refine ⟨by rw [hdir]; exact ih.directory, ?_⟩
    intro m₁ index l hm₁ hl
    rw [hm''] at hm₁
    cases hm₁
    obtain ⟨hscripted, rest, hheard, hrest⟩ := ih.listener hm' hl
    refine ⟨hscripted, rest, hheard, ?_⟩
    intro hgoes
    rw [hrest hgoes]
    exact (awaited_congr (inStore_congr hdir _) rfl).symm

/-- Listeners that have just been started await all that their peers have in store. -/
theorem delivers_watch (hscript : d.directory = .script script) (b : Backend) (router : Nat)
    (peers : List Endpoint) (backoff : Nat) :
    Delivers script d.monitors.length (d.watch b router peers backoff).1 [] := by
  refine ⟨⟨script, hscript⟩, ?_⟩
  intro m index l hm hl
  rw [watch_monitor] at hm
  cases hm
  rw [List.getElem?_map] at hl
  obtain ⟨peer, -, rfl⟩ := Option.map_eq_some_iff.mp hl
  refine ⟨fun _ => nofun, script.payloads peer, rfl, ?_⟩
  intro _
  simp [awaited, inStore, watch, hscript, Listener.stream?]

/-- While nobody cancels them, all listeners have heard a first part of what their peers had in store
and await the rest. -/
theorem heard_and_awaited (hscript : d.directory = .script script) {peers : List Endpoint}
    (hpeers : peers.Nodup) {n backoff : Nat}
    (hrun : Listens (Aside Eq d.monitors.length n) d.monitors.length
      (d.watch .memory n peers backoff).1 d' notes) :
    ∀ i < peers.length, ∃ peer ∈ peers, ∃ m l, d'.monitors[d.monitors.length]? = some m ∧
      l ∈ m.listeners ∧ applied (notesOf i notes) ++ d'.awaited l = script.payloads peer := by
  intro i hi
  have hm := watch_monitor d .memory n peers backoff
  obtain ⟨m', hm', hlater⟩ := hrun.monitor (keeps_aside _ _ n) hm
  have hpeers' : m'.listeners.map (·.peer) = peers := by
    rw [hlater.peers]
    simp [Function.comp_def]
  obtain ⟨l, hl, hpeer⟩ : ∃ l, m'.listeners[i]? = some l ∧ l.peer = peers[i] := by
    have hi' : (m'.listeners.map (·.peer))[i]? = some peers[i] := by
      rw [hpeers', List.getElem?_eq_getElem hi]
    rw [List.getElem?_map] at hi'
    exact Option.map_eq_some_iff.mp hi'
  have hl' : l ∈ m'.listeners := List.mem_of_getElem? hl
  have hgoes : l.phase ≠ .terminated := by
    intro hphase
    have hcancelled := hrun.terminated (keeps_aside _ _ n) hm (by simp) hm' l hl' hphase
    rw [hrun.isCancelled hm hm'] at hcancelled
    cases hcancelled
  have hdelivers := hrun.delivers (keeps_aside _ _ n) (fun h => h.directory.symm) hm rfl
    (by rwa [← hpeers', hlater.peers] at hpeers) (delivers_watch hscript .memory n peers backoff)
  obtain ⟨-, rest, hheard, hrest⟩ := hdelivers.listener hm' hl
  refine ⟨peers[i], List.getElem_mem hi, m', l, hm', hl', ?_⟩
  rw [← hrest hgoes, hheard, hpeer]

end Holdfast.Deployment
