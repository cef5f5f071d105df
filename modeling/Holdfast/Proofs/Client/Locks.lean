import Holdfast.Client
import Holdfast.Proofs.Bytes
import Mathlib.Tactic.Common

namespace Holdfast

namespace Lock

theorem ofName_named {name : String} (h : name ≠ "") (o : Options) :
    ofName name o = .ok ⟨name, o.holdSeconds, o.sleepMillis⟩ :=
  if_neg fun hempty => h (String.isEmpty_iff.mp hempty)

theorem key_inj {l l' : Lock} : l.key = l'.key ↔ l.name = l'.name := by
  refine ⟨fun h => ?_, fun h => by rw [key, key, h]⟩
  have hbytes : Bytes.ofText l.name = Bytes.ofText l'.name := List.append_cancel_left h
  rw [Bytes.ofText_eq, Bytes.ofText_eq] at hbytes
  exact String.toByteArray_inj.mp (ByteArray.ext (Array.toList_inj.mp hbytes))

end Lock

namespace Client

/-- A client with all the locks that there are, its own and those of others. -/
structure Registry where
  client : Client
  placed : List PlacedLock

/-- A client is asked for the lock of a name, with options of its own or with the defaults, or others
place locks. -/
inductive Event
  | ask (name : String) (options : Option Lock.Options)
  | elsewhere (more : List PlacedLock)

/-- What a client was asked, and the lock that it has answered with. -/
structure Visit where
  name : String
  options : Option Lock.Options
  answer : Except LockError Nat

/-- Whether a client is asked for a lock without a name. -/
def Event.isNameless : Event → Bool
  | ask name _ => name = ""
  | elsewhere _ => false

/-- The lock that a visit makes if it is the first one for its name. -/
def Visit.made (c : Client) (v : Visit) : PlacedLock :=
  ⟨⟨v.name, (v.options.getD c.defaults).holdSeconds, (v.options.getD c.defaults).sleepMillis⟩,
    c.router⟩

namespace Registry

def meet (g : Registry) : Event → Registry × List Visit
  | .ask name options =>
    match g.client.lock g.placed name options with
    | .ok (client, placed, id) => (⟨client, placed⟩, [⟨name, options, .ok id⟩])
    | .error e => (g, [⟨name, options, .error e⟩])
  | .elsewhere more => ({ g with placed := g.placed ++ more }, [])

def run (g : Registry) : List Event → Registry × List Visit
  | [] => (g, [])
  | e :: es =>
    let (g, visits) := g.meet e
    let (g, later) := g.run es
    (g, visits ++ later)

end Registry

variable {c c₀ : Client} {placed : List PlacedLock} {name : String} {options : Option Lock.Options}
  {g : Registry} {vs : List Visit}

/-- All that can come of a request: the lock of before, a new one, or none for want of a name. -/
theorem lock_cases (c : Client) (placed : List PlacedLock) (name : String)
    (options : Option Lock.Options) :
    (∃ id, c.locks.get? name = some id ∧ c.lock placed name options = .ok (c, placed, id)) ∨
    (c.locks.get? name = none ∧ name = "" ∧
      c.lock placed name options = .error .invalidName) ∨
    (c.locks.get? name = none ∧ name ≠ "" ∧ c.lock placed name options =
      .ok ({ c with locks := c.locks.set name placed.length },
        placed ++ [Visit.made c ⟨name, options, .ok placed.length⟩], placed.length)) := by
  unfold lock
  cases hget : c.locks.get? name with
  | some id => exact .inl ⟨id, rfl, rfl⟩
  | none =>
    by_cases hname : name = ""
    · subst hname
      exact .inr (.inl ⟨rfl, rfl, rfl⟩)
    · refine .inr (.inr ⟨rfl, hname, ?_⟩)
      simp only [Lock.ofName_named hname]
      rfl

namespace Registry

/-- A client that has answered some visits. Each name that was asked for has the lock that the first
visit for it has made, and no lock is without a name. -/
structure Sound (c₀ : Client) (vs : List Visit) (g : Registry) : Prop where
  router : g.client.router = c₀.router
  defaults : g.client.defaults = c₀.defaults
  nameless : g.client.locks.get? "" = none
  lock : ∀ {name id}, g.client.locks.get? name = some id →
    ∃ first, vs.find? (·.name = name) = some first ∧ g.placed[id]? = some (first.made c₀)
  refused : ∀ v ∈ vs, v.name = "" → v.answer = .error .invalidName
  answered : ∀ v ∈ vs, v.name ≠ "" →
    ∃ id, v.answer = .ok id ∧ g.client.locks.get? v.name = some id

theorem sound_start (h : c₀.locks = []) (placed : List PlacedLock) : Sound c₀ [] ⟨c₀, placed⟩ where
  router := rfl
  defaults := rfl
  nameless := by simp [h, Table.get?]
  lock hget := by simp [h, Table.get?] at hget
  refused := nofun
  answered := nofun

namespace Sound

theorem elsewhere (h : Sound c₀ vs g) (more : List PlacedLock) :
    Sound c₀ vs { g with placed := g.placed ++ more } where
  router := h.router
  defaults := h.defaults
  nameless := h.nameless
  lock hget := by
    obtain ⟨first, hfirst, hplaced⟩ := h.lock hget
    exact ⟨first, hfirst, List.getElem?_append_left (List.getElem?_eq_some_iff.mp hplaced).1 ▸ hplaced⟩
  refused := h.refused
  answered := h.answered

theorem visit (h : Sound c₀ vs g) {v : Visit} (hrefused : v.name = "" → v.answer = .error .invalidName)
    (hanswered : v.name ≠ "" → ∃ id, v.answer = .ok id ∧ g.client.locks.get? v.name = some id) :
    Sound c₀ (vs ++ [v]) g where
  router := h.router
  defaults := h.defaults
  nameless := h.nameless
  lock hget := by
    obtain ⟨first, hfirst, hplaced⟩ := h.lock hget
    exact ⟨first, by rw [List.find?_append, hfirst, Option.some_or], hplaced⟩
  refused := List.forall_mem_append.mpr ⟨h.refused, by simpa using hrefused⟩
  answered := List.forall_mem_append.mpr ⟨h.answered, by simpa using hanswered⟩

theorem first (h : Sound c₀ vs g) {v : Visit} (hname : v.name ≠ "")
    (hnew : g.client.locks.get? v.name = none) (hanswer : v.answer = .ok g.placed.length) :
    Sound c₀ (vs ++ [v])
      ⟨{ g.client with locks := g.client.locks.set v.name g.placed.length },
        g.placed ++ [v.made c₀]⟩ where
  router := h.router
  defaults := h.defaults
  nameless := (Table.get?_set_ne _ _ hname.symm).trans h.nameless
  lock := by
    intro name id hget
    by_cases hsame : name = v.name
    · subst hsame
      obtain rfl : g.placed.length = id := by simpa using hget
      have hnone : vs.find? (·.name = v.name) = none := by
        apply List.find?_eq_none.mpr
        intro w hw hwname
        have heq : w.name = v.name := of_decide_eq_true hwname
        obtain ⟨id, -, hold⟩ := h.answered w hw (heq ▸ hname)
        rw [heq, hnew] at hold
        cases hold
      refine ⟨v, ?_, List.getElem?_concat_length⟩
      rw [List.find?_append, hnone]
      simp
    · obtain ⟨first, hfirst, hplaced⟩ := h.lock ((Table.get?_set_ne _ _ hsame).symm.trans hget)
      refine ⟨first, by rw [List.find?_append, hfirst, Option.some_or], ?_⟩
      exact List.getElem?_append_left (List.getElem?_eq_some_iff.mp hplaced).1 ▸ hplaced
  refused := List.forall_mem_append.mpr ⟨h.refused, by simpa using fun h => absurd h hname⟩
  answered := by
    intro w hw hwname
    rcases List.mem_append.mp hw with hw | hw
    · obtain ⟨id, hid, hold⟩ := h.answered w hw hwname
      have hne : w.name ≠ v.name := by
        intro heq
        rw [heq, hnew] at hold
        cases hold
      exact ⟨id, hid, (Table.get?_set_ne _ _ hne).trans hold⟩
    · obtain rfl := List.mem_singleton.mp hw
      exact ⟨_, hanswer, Table.get?_set_self ..⟩

theorem meet (h : Sound c₀ vs g) (e : Event) : Sound c₀ (vs ++ (g.meet e).2) (g.meet e).1 := by
  cases e with
  | elsewhere more => simpa [Registry.meet] using h.elsewhere more
  | ask name options =>
    obtain ⟨id, hget, hlock⟩ | ⟨hnew, hname, hlock⟩ | ⟨hnew, hname, hlock⟩ :=
      g.client.lock_cases g.placed name options
    · simp only [Registry.meet, hlock]
      refine h.visit ?_ fun _ => ⟨id, rfl, hget⟩
      intro hname
      dsimp only at hname
      rw [hname, h.nameless] at hget
      cases hget
    · simp only [Registry.meet, hlock]
      exact h.visit (fun _ => rfl) fun hother => absurd hname hother
    · simp only [Registry.meet, hlock]
      have hmade : ∀ v : Visit, v.made g.client = v.made c₀ := by
        intro v
        simp only [Visit.made, h.router, h.defaults]
      rw [hmade]
      exact h.first (v := ⟨name, options, .ok g.placed.length⟩) hname hnew rfl

theorem run (h : Sound c₀ vs g) (es : List Event) : Sound c₀ (vs ++ (g.run es).2) (g.run es).1 := by
  induction es generalizing vs g with
  | nil => simpa [Registry.run] using h
  | cons e es ih =>
    have hnext := ih (h.meet e)
    rwa [List.append_assoc] at hnext

theorem name_of_id (h : Sound c₀ vs g) {name name' : String} {id : Nat}
    (hget : g.client.locks.get? name = some id) (hget' : g.client.locks.get? name' = some id) :
    name = name' := by
  obtain ⟨first, hfirst, hplaced⟩ := h.lock hget
  obtain ⟨first', hfirst', hplaced'⟩ := h.lock hget'
  have hname : first.name = name := by simpa using List.find?_some hfirst
  have hname' : first'.name = name' := by simpa using List.find?_some hfirst'
  have hsame : first.made c₀ = first'.made c₀ := Option.some.inj (hplaced.symm.trans hplaced')
  calc name = (first.made c₀).lock.name := hname.symm
    _ = (first'.made c₀).lock.name := by rw [hsame]
    _ = name' := hname'

end Sound

/-- A visit is for the name that was asked for. -/
theorem meet_ask (g : Registry) (name : String) (options : Option Lock.Options) :
    ∃ v, (g.meet (.ask name options)).2 = [v] ∧ v.name = name := by
  unfold meet
  dsimp only
  split <;> exact ⟨_, rfl, rfl⟩

theorem Sound.meet_nameless (h : Sound c₀ vs g) (options : Option Lock.Options) :
    g.meet (.ask "" options) = (g, [⟨"", options, .error .invalidName⟩]) := by
  have hlock : g.client.lock g.placed "" options = .error .invalidName := by
    simp only [Client.lock, h.nameless]
    rfl
  simp only [Registry.meet, hlock]

/-- Requests without a name leave no trace but that they are refused. -/
theorem Sound.run_named (h : Sound c₀ vs g) (es : List Event) :
    g.run (es.filter (!·.isNameless)) = ((g.run es).1, (g.run es).2.filter (·.name ≠ "")) := by
  induction es generalizing vs g with
  | nil => rfl
  | cons e es ih =>
    have hrest := ih (h.meet e)
    cases e with
    | elsewhere more => exact hrest
    | ask name options =>
      by_cases hname : name = ""
      · subst hname
        rw [h.meet_nameless] at hrest
        simpa [Registry.run, h.meet_nameless, Event.isNameless] using hrest
      · obtain ⟨v, hv, hvname⟩ := g.meet_ask name options
        have hkept : (Event.ask name options :: es).filter (!·.isNameless) =
            .ask name options :: es.filter (!·.isNameless) := by simp [Event.isNameless, hname]
        rw [hkept]
        simp only [Registry.run, hrest, hv]
        simp [hvname, hname]

end Registry

theorem fresh_of_open {d d' : Deployment} {config : Config} {b : Store.Backend} {t : Topology}
    {peers : Option (List Endpoint)} (h : d.openClient config b t peers = .ok (d', c)) :
    c.locks = [] ∧ c.defaults = config.lock := by
  unfold Deployment.openClient at h
  cases hrouter : d.addRouter config.shards t config.pool b with
  | error e =>
    rw [hrouter] at h
    cases h
  | ok out =>
    rw [hrouter] at h
    cases peers with
    | none | some peers =>
      cases h
      exact ⟨rfl, rfl⟩

/-- A client that has just been made has handed out no lock. -/
theorem fresh_of_connect {d d' : Deployment} {config : Config} {kind : Store.Kind}
    {hasDiscovery : Bool} (h : d.connectClient config kind hasDiscovery = (d', .ok c)) :
    c.locks = [] ∧ c.defaults = config.lock := by
  unfold Deployment.connectClient at h
  dsimp only at h
  split at h
  · cases h
  · split at h
    · cases h
    · split at h
      · cases h
      · split at h
        · cases h
        · next hopen =>
          cases h
          exact fresh_of_open hopen

/-- Whatever a client is asked for and whatever locks others place, a name always gets the lock that
the first request for it has made, with the options of that request; other names get other locks under
other keys. A request without a name is refused, and everything else goes as if it had not been made.
-/
theorem locks_go_by_name {d d₁ : Deployment} {config : Config} {kind : Store.Kind}
    {hasDiscovery : Bool} (hconnect : d.connectClient config kind hasDiscovery = (d₁, .ok c))
    (events : List Event) (hrun : Registry.run ⟨c, d₁.locks⟩ events = (g, vs)) :
    (∀ v ∈ vs, v.name = "" → v.answer = .error .invalidName) ∧
    (∀ v ∈ vs, v.name ≠ "" → ∃ id first, v.answer = .ok id ∧
      vs.find? (·.name = v.name) = some first ∧
      g.placed[id]? = some ⟨⟨v.name, (first.options.getD config.lock).holdSeconds,
        (first.options.getD config.lock).sleepMillis⟩, c.router⟩) ∧
    (∀ v ∈ vs, ∀ w ∈ vs, ∀ id id', v.answer = .ok id → w.answer = .ok id' →
      (id = id' ↔ v.name = w.name) ∧
      ∀ l l', g.placed[id]? = some l → g.placed[id']? = some l' →
        (l.lock.key = l'.lock.key ↔ v.name = w.name)) ∧
    Registry.run ⟨c, d₁.locks⟩ (events.filter (!·.isNameless)) =
      (g, vs.filter (·.name ≠ "")) := by
  obtain ⟨hfresh, hdefaults⟩ := fresh_of_connect hconnect
  have hstart := Registry.sound_start hfresh d₁.locks
  have hsound := hstart.run events
  have hnamed := hstart.run_named events
  rw [hrun, List.nil_append] at hsound
  rw [hrun] at hnamed
  have hplaced : ∀ v ∈ vs, v.name ≠ "" → ∃ id first, v.answer = .ok id ∧
      g.client.locks.get? v.name = some id ∧ vs.find? (·.name = v.name) = some first ∧
      first.name = v.name ∧ g.placed[id]? = some (first.made c) := by
    intro v hv hname
    obtain ⟨id, hid, hget⟩ := hsound.answered v hv hname
    obtain ⟨first, hfirst, hmade⟩ := hsound.lock hget
    exact ⟨id, first, hid, hget, hfirst, by simpa using List.find?_some hfirst, hmade⟩
  refine ⟨hsound.refused, ?_, ?_, hnamed⟩
  · intro v hv hname
    obtain ⟨id, first, hid, -, hfirst, hfname, hmade⟩ := hplaced v hv hname
    refine ⟨id, first, hid, hfirst, ?_⟩
    rw [hmade, Visit.made, hfname, hdefaults]
  · intro v hv w hw id id' hid hid'
    have hvname : v.name ≠ "" := fun hname => by
      cases hid.symm.trans (hsound.refused v hv hname)
    have hwname : w.name ≠ "" := fun hname => by
      cases hid'.symm.trans (hsound.refused w hw hname)
    obtain ⟨vid, vfirst, hvid, hvget, -, hvfname, hvmade⟩ := hplaced v hv hvname
    obtain ⟨wid, wfirst, hwid, hwget, -, hwfname, hwmade⟩ := hplaced w hw hwname
    cases hid.symm.trans hvid
    cases hid'.symm.trans hwid
    refine ⟨⟨?_, ?_⟩, ?_⟩
    · rintro rfl
      exact hsound.name_of_id hvget hwget
    · intro hsame
      rw [hsame, hwget] at hvget
      exact (Option.some.inj hvget).symm
    · intro l l' hl hl'
      cases hl.symm.trans hvmade
      cases hl'.symm.trans hwmade
      rw [Lock.key_inj]
      change vfirst.name = wfirst.name ↔ _
      rw [hvfname, hwfname]

/-- A client is asked twice for one lock and in between for another one, and somebody else places a
lock, too. -/
def errands : List Event :=
  [.ask "" none, .ask "a" (some ⟨-5, 50000⟩), .elsewhere [⟨⟨"a", 9, 9⟩, 0⟩], .ask "b" none,
    .ask "a" none]

theorem locks_go_by_name_again : ∃ d c g vs,
    Deployment.connectClient {} { shards := ["s"], masters := .static [⟨"h", 1⟩] } .memory false =
      (d, .ok c) ∧ Registry.run ⟨c, d.locks⟩ errands = (g, vs) ∧
    vs.map (·.answer) = [.error .invalidName, .ok 0, .ok 2, .ok 0] ∧
    g.placed[0]? = some ⟨⟨"a", 5, 5000⟩, c.router⟩ ∧
    Registry.run ⟨c, d.locks⟩ (errands.filter (!·.isNameless)) = (g, vs.filter (·.name ≠ "")) := by
  obtain ⟨d, c, hconnect, hlocks, rfl⟩ : ∃ d c,
      Deployment.connectClient {} { shards := ["s"], masters := .static [⟨"h", 1⟩] } .memory
        false = (d, .ok c) ∧ d.locks = [] ∧ c = ⟨0, none, {}, []⟩ := ⟨_, _, rfl, rfl, rfl⟩
  obtain ⟨g, vs, hrun, hvs⟩ : ∃ g vs, Registry.run ⟨⟨0, none, {}, []⟩, d.locks⟩ errands = (g, vs) ∧
      vs = [⟨"", none, .error .invalidName⟩, ⟨"a", some ⟨-5, 50000⟩, .ok 0⟩, ⟨"b", none, .ok 2⟩,
        ⟨"a", none, .ok 0⟩] := by
    rw [hlocks]
    exact ⟨_, _, rfl, rfl⟩
  obtain ⟨-, hmade, -, hnamed⟩ := locks_go_by_name hconnect errands hrun
  obtain ⟨id, first, hid, hfirst, hplaced⟩ := hmade ⟨"a", none, .ok 0⟩ (by simp [hvs]) (by decide)
  cases hid
  obtain rfl : ⟨"a", some ⟨-5, 50000⟩, .ok 0⟩ = first := by simpa [hvs] using hfirst
  have htimes : Lock.Options.holdSeconds ⟨-5, 50000⟩ = 5 ∧
      Lock.Options.sleepMillis ⟨-5, 50000⟩ = 5000 := by decide
  rw [Option.getD_some, htimes.1, htimes.2] at hplaced
  exact ⟨d, _, g, vs, hconnect, hrun, by rw [hvs]; rfl, hplaced, hnamed⟩

end Client
end Holdfast
