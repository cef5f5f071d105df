import Holdfast.Proofs.Router.Traffic

namespace Holdfast

open Store

theorem Checkout.start_open_ne {κ : Type} {p : Pool κ} (h : p.isClosed = false) (now : Nat)
    (f : Failure) : (start p now).2 ≠ fail f := by
  have hchoose (q : Pool κ) : (choose q).2 ≠ fail f := by
    rcases choose_cases q with ⟨-, hc⟩ | ⟨conn, rest, -, hc⟩
    · simp [hc, fail]
    · cases htest : q.testOnBorrow <;> simp [hc, htest, fail, lend]
  rcases start_open h now with ⟨-, heq⟩ | ⟨-, heq⟩
  · rw [heq]
    exact hchoose _
  · simp [heq, fail]

/-- Nothing comes of a checkout from a closed pool, and nothing is changed by it. -/
theorem Deployment.borrow_closed {d : Deployment} {id : Nat} {p : Pool Link}
    (hp : d.pools[id]? = some p) (h : p.isClosed = true) :
    d.borrow id = (d, { pool := id, checkout := .fail (.poolClosed p.endpoint) }) := by
  have hsame : d.pools.set id p = d.pools := by
    obtain ⟨hid, rfl⟩ := List.getElem?_eq_some_iff.mp hp
    exact List.set_getElem_self hid
  simp [borrow, hp, Checkout.start_closed h, settleBorrowing, setPool, hsame]

namespace Router

variable {κ : Type}

/-- Shutting a router down closes its pools and leaves the table as it is. -/
def Site.shutdown (s : Site κ) : Site κ := { s with pools := s.router.shutdown s.pools }

/-- The life of a router between two moments, and whether it is open at the end: a shutdown closes
it, and a change that takes effect opens it again. -/
inductive Lives (s : Site κ) : Site κ → Bool → Prop
  | here : Lives s s true
  | opens {s' : Site κ} {isOpen : Bool} (c : Change) : Lives s s' isOpen →
    (s'.change c).2 = .ok true → Lives s (s'.change c).1 true
  | stays {s' : Site κ} {isOpen : Bool} (c : Change) : Lives s s' isOpen →
    (s'.change c).2 ≠ .ok true → Lives s (s'.change c).1 isOpen
  | shutdown {s' : Site κ} {isOpen : Bool} : Lives s s' isOpen → Lives s s'.shutdown false
  | elsewhere {s' : Site κ} {isOpen : Bool} {ps : Pools κ} : Lives s s' isOpen →
    Elsewhere s'.router s'.pools ps → Lives s { s' with pools := ps } isOpen

/-- Every shard has a pool of its own that leads to its master, and all of them are open or none. -/
structure Site.Staffed (s : Site κ) (isOpen : Bool) : Prop where
  ring : s.router.ring = .ofShards s.router.names.length
  size : s.router.topology.size = s.router.names.length
  length : s.router.pools.length = s.router.names.length
  pool : ∀ {i id}, s.router.pools[i]? = some id → ∃ e p, s.router.topology.master? i = some e ∧
    s.pools[id]? = some p ∧ p.endpoint = e ∧ p.isClosed = !isOpen
  nodup : s.router.pools.Nodup

namespace Site

variable {s : Site κ} {isOpen : Bool}

theorem Sound.staffed (hs : s.Sound) : s.Staffed true := by
  refine ⟨hs.ring, hs.size, hs.length, ?_, hs.nodup⟩
  intro i id hid
  obtain ⟨e, he, hserves⟩ := hs.serves hid
  obtain ⟨p, hp, hend, hopen⟩ := Pools.serves_iff.mp hserves
  exact ⟨e, p, he, hp, hend, hopen⟩

namespace Staffed

theorem framed (hs : s.Staffed isOpen) : s.Framed := by
  refine ⟨hs.ring, hs.size, hs.length, ?_, hs.nodup⟩
  intro id h
  obtain ⟨i, hi⟩ := List.getElem?_of_mem h
  obtain ⟨-, p, -, hp, -⟩ := hs.pool hi
  exact (List.getElem?_eq_some_iff.mp hp).1

theorem shutdown (hs : s.Staffed isOpen) : s.shutdown.Staffed false := by
  refine ⟨hs.ring, hs.size, hs.length, ?_, hs.nodup⟩
  intro i id hid
  obtain ⟨e, p, he, hp, hend, -⟩ := hs.pool hid
  have hmem : id ∈ s.router.pools := List.mem_of_getElem? hid
  refine ⟨e, p.close, he, ?_, p.endpoint_close.trans hend, p.isClosed_close⟩
  simp only [Site.shutdown, Router.shutdown]
  rw [Pools.get?_closeAll, if_pos hmem, hp]
  rfl

theorem elsewhere (hs : s.Staffed isOpen) {ps : Pools κ} (h : Elsewhere s.router s.pools ps) :
    Site.Staffed { s with pools := ps } isOpen := by
  refine ⟨hs.ring, hs.size, hs.length, ?_, hs.nodup⟩
  intro i id hid
  obtain ⟨e, p, he, hp, hend, hclosed⟩ := hs.pool hid
  obtain ⟨p', hp', hend', -, hown⟩ := h hp
  exact ⟨e, p', he, hp', hend'.trans hend, (hown (List.mem_of_getElem? hid)).trans hclosed⟩

theorem resolve (hs : s.Staffed isOpen) (hshards : 0 < s.router.names.length) (key : Bytes) :
    ∃ id e p, s.router.pools[s.router.locate key]? = some id ∧
      s.router.topology.master? (s.router.locate key) = some e ∧ s.pools[id]? = some p ∧
      p.endpoint = e ∧ p.isClosed = !isOpen := by
  have hlt : s.router.locate key < s.router.pools.length := by
    unfold locate
    rw [hs.length, hs.ring]
    exact Ring.locate_lt hshards key
  have hid : s.router.pools[s.router.locate key]? = some s.router.pools[s.router.locate key] :=
    List.getElem?_eq_getElem hlt
  obtain ⟨e, p, he, hp, hend, hclosed⟩ := hs.pool hid
  exact ⟨_, e, p, hid, he, hp, hend, hclosed⟩

end Staffed

/-- A change that takes effect puts open pools in the place of all that are closed; any other leaves
everything as it is. -/
theorem Staffed.change (hs : s.Staffed isOpen) (c : Change) :
    ((s.change c).2 = .ok true → (s.change c).1.Staffed true) ∧
      ((s.change c).2 ≠ .ok true → (s.change c).1 = s) := by
  rcases s.change_cases c with ⟨e, h, -⟩ | ⟨-, h⟩ | ⟨t, -, hsize, -, h⟩
  · simp [h]
  · simp [h]
  · rw [h]
    exact ⟨fun _ => (hs.framed.switched hsize).staffed, fun hne => absurd rfl hne⟩

end Site

theorem Lives.staffed {s s' : Site κ} {isOpen : Bool} (h : Lives s s' isOpen) (hs : s.Sound) :
    s'.Staffed isOpen := by
  induction h with
  | here => exact hs.staffed
  | opens c _ htook ih => exact (ih.change c).1 htook
  | stays c _ hnot ih => rwa [(ih.change c).2 hnot]
  | shutdown _ ih => exact ih.shutdown
  | elsewhere _ helse ih => exact ih.elsewhere helse

theorem Lives.names {s s' : Site κ} {isOpen : Bool} (h : Lives s s' isOpen) :
    s'.router.names = s.router.names := by
  induction h with
  | here => rfl
  | @opens s' _ c _ _ ih =>
    exact (Leads.change c .here : Leads s' _).names.trans ih
  | @stays s' _ c _ _ ih =>
    exact (Leads.change c .here : Leads s' _).names.trans ih
  | shutdown _ ih => exact ih
  | elsewhere _ _ ih => exact ih

/-- Whoever asks a router for a connection after a shutdown is refused at once, without any
connection being opened or touched, until a change of the table takes effect; from then on nobody is
refused any more, though the router was shut down. -/
theorem refused_iff_shut {names : List String} {t : Topology} {o : PoolOptions} {b : Backend}
    {ps₀ ps : Pools Link} {r : Router} (hnew : Router.new names t o b ps₀ = .ok (ps, r))
    (hshards : 0 < names.length) {s : Site Link} {isOpen : Bool} (hlife : Lives ⟨ps, r⟩ s isOpen)
    {d : Deployment} {n : Nat} (hpools : d.pools = s.pools)
    (hrouter : d.routers[n]? = some s.router) (key : Bytes) :
    ∃ id e, d.poolFor? n key = some id ∧
      s.router.topology.master? (s.router.locate key) = some e ∧
      (isOpen = false → d.borrow id = (d, { pool := id, checkout := .fail (.poolClosed e) })) ∧
      (isOpen = true → ∀ f, (d.borrow id).2.checkout ≠ .fail f) := by
  obtain ⟨hfirst, hr⟩ := new_sound hnew
  have hnames : s.router.names = names := hlife.names.trans hr
  obtain ⟨id, e, p, hid, he, hp, rfl, hclosed⟩ :=
    (hlife.staffed hfirst).resolve (hnames ▸ hshards) key
  rw [← hpools] at hp
  refine ⟨id, p.endpoint, ?_, he, ?_, ?_⟩
  · simp [Deployment.poolFor?, hrouter, hid]
  · rintro rfl
    exact Deployment.borrow_closed hp hclosed
  · rintro rfl f
    simpa [Deployment.borrow, hp, Deployment.settleBorrowing] using
      Checkout.start_open_ne hclosed d.now f

/-- A deployment with one router and its pools. -/
def Site.deployed (s : Site Link) : Deployment := { pools := s.pools, routers := [s.router] }

/-- The only shard of a router, which is shut down, is refused; then it gets another master. -/
theorem refused_iff_shut_moved : ∃ (ps : Pools Link) (r : Router),
    Router.new ["a"] ⟨[⟨"h", 1⟩]⟩ {} .memory [] = .ok (ps, r) ∧
    (∀ key, ∃ id e, (Site.shutdown ⟨ps, r⟩).deployed.poolFor? 0 key = some id ∧
      ((Site.shutdown ⟨ps, r⟩).deployed.borrow id).2.checkout = .fail (.poolClosed e)) ∧
    ((Site.shutdown ⟨ps, r⟩).change (.update 0 ⟨"h", 2⟩)).2 = .ok true ∧
    ∀ key, ∃ id, ((Site.shutdown ⟨ps, r⟩).change (.update 0 ⟨"h", 2⟩)).1.deployed.poolFor? 0 key =
        some id ∧ ∀ f,
      (((Site.shutdown ⟨ps, r⟩).change (.update 0 ⟨"h", 2⟩)).1.deployed.borrow id).2.checkout ≠
        .fail f := by
  have hnew : @Router.new Link ["a"] ⟨[⟨"h", 1⟩]⟩ {} .memory [] = .ok (_, _) := rfl
  refine ⟨_, _, hnew, ?_, rfl, ?_⟩
  · intro key
    obtain ⟨id, e, hid, -, hshut, -⟩ := refused_iff_shut hnew (by decide) (.shutdown .here)
      (d := Site.deployed _) (n := 0) rfl rfl key
    exact ⟨id, e, hid, congrArg (·.2.checkout) (hshut rfl)⟩
  · intro key
    obtain ⟨id, -, hid, -, -, hopen⟩ := refused_iff_shut hnew (by decide)
      (.opens (.update 0 ⟨"h", 2⟩) (.shutdown .here) rfl) (d := Site.deployed _) (n := 0) rfl rfl key
    exact ⟨id, hid, hopen rfl⟩

def Site.changes (s : Site κ) (cs : List Change) : Site κ :=
  cs.foldl (fun s c => (s.change c).1) s

/-- A shutdown is not final: the first change that takes effect afterwards opens every shard
again. -/
theorem shutdown_undone : ¬ ∀ {names : List String} {t : Topology} {o : PoolOptions} {b : Backend}
    {ps₀ ps : Pools Link} {r : Router} {s : Site Link} {isOpen : Bool},
    Router.new names t o b ps₀ = .ok (ps, r) → 0 < names.length → Lives ⟨ps, r⟩ s isOpen →
    ∀ (cs : List Change) (key : Bytes), ∃ id e,
      (s.shutdown.changes cs).deployed.poolFor? 0 key = some id ∧
      ((s.shutdown.changes cs).deployed.borrow id).2.checkout = .fail (.poolClosed e) := by
  intro hfinal
  obtain ⟨ps, r, hnew, htook⟩ : ∃ ps r, @Router.new Link ["a"] ⟨[⟨"h", 1⟩]⟩ {} .memory [] =
      .ok (ps, r) ∧ ((Site.shutdown ⟨ps, r⟩).change (.update 0 ⟨"h", 2⟩)).2 = .ok true :=
    ⟨_, _, rfl, rfl⟩
  obtain ⟨id, e, hid, hrefused⟩ := hfinal hnew (by decide) .here [.update 0 ⟨"h", 2⟩] []
  have hlife := (Lives.shutdown .here).opens (.update 0 ⟨"h", 2⟩) htook
  have hshards : 0 < ((Site.shutdown ⟨ps, r⟩).change (.update 0 ⟨"h", 2⟩)).1.router.names.length := by
    rw [hlife.names, (new_sound hnew).2]
    decide
  obtain ⟨id', -, p, hid', -, hp, -, hopen⟩ :=
    (hlife.staffed (new_sound hnew).1).resolve hshards []
  have hsame : id' = id := by
    simpa [Site.changes, Site.deployed, Deployment.poolFor?, hid'] using hid
  subst hsame
  simp only [Site.changes, List.foldl_cons, List.foldl_nil, Site.deployed, Deployment.borrow, hp,
    Deployment.settleBorrowing] at hrefused
  exact Checkout.start_open_ne hopen _ _ hrefused

end Router
end Holdfast
