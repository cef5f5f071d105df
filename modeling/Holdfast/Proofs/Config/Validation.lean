import Holdfast.Client
import Mathlib.Data.List.Nodup

namespace Holdfast

open Text

namespace Config

/-- There is nothing to see in a name. -/
def IsUnseen (name : String) : Prop := ∀ c ∈ name.toList, isBlank c = true

/-- What is wrong with the name at some place: nothing is to be seen in it, or it stands at an
earlier place as well. -/
inductive NameFault (names : List String) (i : Nat) : ConfigError → Prop
  | blank {name : String} : names[i]? = some name → IsUnseen name → NameFault names i .blankName
  | repeated {name : String} {j : Nat} : names[i]? = some name → ¬ IsUnseen name → j < i →
    names[j]? = some name → NameFault names i (.repeatedName name)

/-- Some names of which none is wrong. -/
def InOrder (names : List String) : Prop := ∀ i e, ¬ NameFault names i e

structure FirstFault (names : List String) (i : Nat) (e : ConfigError) : Prop where
  fault : NameFault names i e
  first : ∀ j < i, ∀ e', ¬ NameFault names j e'

/-- Whether there are peers to ask, or as many masters as shards. -/
def Suits (shards : Nat) : MasterSource → Prop
  | .sentinel peers => peers ≠ []
  | .static masters => masters.length = shards

structure Acceptable (c : Config) : Prop where
  shards : c.shards ≠ []
  visible : ∀ name ∈ c.shards, ∃ ch ∈ name.toList, isBlank ch = false
  distinct : c.shards.Nodup
  masters : Suits c.shards.length c.masters

/-- What a configuration is refused for. -/
inductive Refused (c : Config) : ConfigError → Prop
  | noShards : c.shards = [] → Refused c .noShards
  | name {i : Nat} {e : ConfigError} : FirstFault c.shards i e → Refused c e
  | noPeers : c.shards ≠ [] → InOrder c.shards → c.masters = .sentinel [] → Refused c .noPeers
  | cardinality {masters : List Endpoint} : c.shards ≠ [] → InOrder c.shards →
    c.masters = .static masters → masters.length ≠ c.shards.length →
    Refused c (.topology (.cardinality c.shards.length masters.length))

variable {c : Config} {names before rest : List String} {name : String} {i : Nat} {e : ConfigError}

theorem nameFault_iff : NameFault (before ++ name :: rest) before.length e ↔
    IsUnseen name ∧ e = .blankName ∨
      ¬ IsUnseen name ∧ name ∈ before ∧ e = .repeatedName name := by
  have hhere : (before ++ name :: rest)[before.length]? = some name := by simp
  constructor
  · intro h
    cases h with
    | blank hname hunseen =>
      cases hhere.symm.trans hname
      exact .inl ⟨hunseen, rfl⟩
    | repeated hname hseen hlt hearlier =>
      cases hhere.symm.trans hname
      rw [List.getElem?_append_left hlt] at hearlier
      exact .inr ⟨hseen, List.mem_of_getElem? hearlier, rfl⟩
  · rintro (⟨hunseen, rfl⟩ | ⟨hseen, hmem, rfl⟩)
    · exact .blank hhere hunseen
    · obtain ⟨j, hj⟩ := List.getElem?_of_mem hmem
      have hlt := (List.getElem?_eq_some_iff.mp hj).1
      exact .repeated hhere hseen hlt (by rwa [List.getElem?_append_left hlt])

/-- The check goes on to the first name that is wrong. Those before it were in order when it comes to
the rest of the names. -/
theorem checkNames_spec (before rest : List String)
    (hbefore : ∀ j < before.length, ∀ e, ¬ NameFault (before ++ rest) j e) :
    match checkNames before.reverse rest with
    | .ok () => InOrder (before ++ rest)
    | .error e => ∃ i, FirstFault (before ++ rest) i e := by
  induction rest generalizing before with
  | nil =>
    intro i e h
    rcases Nat.lt_or_ge i before.length with hlt | hge
    · exact hbefore i hlt e h
    · have hnone : (before ++ [])[i]? = none := by simpa using hge
      cases h with
      | blank hname | repeated hname => cases hnone.symm.trans hname
  | cons name rest ih =>
    unfold checkNames
    by_cases hunseen : IsUnseen name
    · rw [if_pos (List.all_eq_true.mpr hunseen)]
      exact ⟨_, nameFault_iff.mpr (.inl ⟨hunseen, rfl⟩), hbefore⟩
    · rw [if_neg fun h => hunseen (List.all_eq_true.mp h)]
      by_cases hmem : name ∈ before
      · rw [if_pos (List.mem_reverse.mpr hmem)]
        exact ⟨_, nameFault_iff.mpr (.inr ⟨hunseen, hmem, rfl⟩), hbefore⟩
      · rw [if_neg fun h => hmem (List.mem_reverse.mp h)]
        have hnext := ih (before ++ [name])
        rw [List.reverse_append, List.append_assoc] at hnext
        apply hnext
        intro j hj e h
        rw [List.length_append, List.length_singleton] at hj
        rcases Nat.lt_succ_iff_lt_or_eq.mp hj with hlt | rfl
        · exact hbefore j hlt e h
        · rcases nameFault_iff.mp h with ⟨h, -⟩ | ⟨-, h, -⟩
          · exact hunseen h
          · exact hmem h

theorem FirstFault.unique {j : Nat} {e' : ConfigError} (h : FirstFault names i e)
    (h' : FirstFault names j e') : e = e' := by
  obtain rfl : i = j := by
    rcases Nat.lt_trichotomy i j with hlt | heq | hgt
    · exact absurd h.fault (h'.first i hlt e)
    · exact heq
    · exact absurd h'.fault (h.first j hgt e')
  cases h.fault with
  | blank hname hunseen =>
    cases h'.fault with
    | blank => rfl
    | repeated hname' hseen =>
      cases hname.symm.trans hname'
      exact absurd hunseen hseen
  | repeated hname hseen =>
    cases h'.fault with
    | blank hname' hunseen =>
      cases hname.symm.trans hname'
      exact absurd hunseen hseen
    | repeated hname' =>
      cases hname.symm.trans hname'
      rfl

theorem inOrder_iff : InOrder names ↔
    (∀ name ∈ names, ∃ ch ∈ name.toList, isBlank ch = false) ∧ names.Nodup := by
  have hvisible : ∀ name : String, ¬ IsUnseen name ↔ ∃ ch ∈ name.toList, isBlank ch = false := by
    intro name
    simp [IsUnseen]
  simp only [← hvisible]
  constructor
  · intro h
    have hseen : ∀ name ∈ names, ¬ IsUnseen name := by
      intro name hmem hunseen
      obtain ⟨i, hi⟩ := List.getElem?_of_mem hmem
      exact h i _ (.blank hi hunseen)
    refine ⟨hseen, List.nodup_iff_getElem?_ne_getElem?.mpr ?_⟩
    intro i j hlt hj he
    have hname := List.getElem?_eq_getElem hj
    exact h j _ (.repeated hname (hseen _ (List.getElem_mem hj)) hlt (he.trans hname))
  · rintro ⟨hseen, hd⟩ i e h
    cases h with
    | blank hname hunseen => exact hseen _ (List.mem_of_getElem? hname) hunseen
    | @repeated name j hname _ hlt hearlier =>
      have hi := (List.getElem?_eq_some_iff.mp hname).1
      exact List.nodup_iff_getElem?_ne_getElem?.mp hd j i hlt hi (hearlier.trans hname.symm)

theorem checkMasters_spec (c : Config) :
    match checkMasters c.shards.length c.masters with
    | .ok () => Suits c.shards.length c.masters
    | .error e => c.shards ≠ [] → InOrder c.shards → Refused c e := by
  cases hmasters : c.masters with
  | sentinel peers =>
    cases peers with
    | nil => exact fun hshards hnames => .noPeers hshards hnames hmasters
    | cons peer peers => exact List.cons_ne_nil _ _
  | static masters =>
    by_cases hlength : masters.length = c.shards.length
    · have hok : checkMasters c.shards.length (.static masters) = .ok () := if_pos hlength
      rw [hok]
      exact hlength
    · have herror : checkMasters c.shards.length (.static masters) =
        .error (.topology (.cardinality c.shards.length masters.length)) := if_neg hlength
      rw [herror]
      exact fun hshards hnames => .cardinality hshards hnames hmasters hlength

theorem validate_spec (c : Config) :
    match c.validate with
    | .ok () => c.Acceptable
    | .error e => c.Refused e := by
  by_cases hshards : c.shards = []
  · have hnone : c.validate = .error .noShards := by simp [validate, hshards]; rfl
    rw [hnone]
    exact .noShards hshards
  · have hsome : c.validate = (checkNames [] c.shards).bind fun _ =>
        checkMasters c.shards.length c.masters := by simp [validate, hshards]; rfl
    have hnames := checkNames_spec [] c.shards (by simp)
    have hmasters := checkMasters_spec c
    rw [hsome]
    rw [List.reverse_nil, List.nil_append] at hnames
    cases hcheck : checkNames [] c.shards with
    | error e =>
      rw [hcheck] at hnames
      obtain ⟨i, hfirst⟩ := hnames
      exact .name hfirst
    | ok u =>
      rw [hcheck] at hnames
      dsimp only [Except.bind]
      cases hend : checkMasters c.shards.length c.masters with
      | error e =>
        rw [hend] at hmasters
        exact hmasters hshards hnames
      | ok u =>
        rw [hend] at hmasters
        obtain ⟨hvisible, hdistinct⟩ := inOrder_iff.mp hnames
        exact ⟨hshards, hvisible, hdistinct, hmasters⟩

theorem Refused.unacceptable (h : c.Refused e) : ¬ c.Acceptable := by
  intro hc
  cases h with
  | noShards hshards => exact hc.shards hshards
  | name hfirst => exact inOrder_iff.mpr ⟨hc.visible, hc.distinct⟩ _ _ hfirst.fault
  | noPeers _ _ hpeers =>
    have hsuits := hc.masters
    rw [hpeers] at hsuits
    exact hsuits rfl
  | cardinality _ _ hstatic hlength =>
    have hsuits := hc.masters
    rw [hstatic] at hsuits
    exact hlength hsuits

theorem FirstFault.shards (h : FirstFault c.shards i e) : c.shards ≠ [] := by
  intro hnone
  cases h.fault with
  | blank hname | repeated hname => simp [hnone] at hname

theorem Refused.unique {e' : ConfigError} (h : c.Refused e) (h' : c.Refused e') : e = e' := by
  cases h with
  | noShards hshards =>
    cases h' with
    | noShards => rfl
    | name hfirst => exact absurd hshards hfirst.shards
    | noPeers hsome | cardinality hsome => exact absurd hshards hsome
  | name hfirst =>
    cases h' with
    | noShards hshards => exact absurd hshards hfirst.shards
    | name hfirst' => exact hfirst.unique hfirst'
    | noPeers _ hnames | cardinality _ hnames => exact absurd hfirst.fault (hnames _ _)
  | noPeers hsome hnames hpeers =>
    cases h' with
    | noShards hshards => exact absurd hshards hsome
    | name hfirst => exact absurd hfirst.fault (hnames _ _)
    | noPeers => rfl
    | cardinality _ _ hstatic => cases hpeers.symm.trans hstatic
  | cardinality hsome hnames hstatic =>
    cases h' with
    | noShards hshards => exact absurd hshards hsome
    | name hfirst => exact absurd hfirst.fault (hnames _ _)
    | noPeers _ _ hpeers => cases hpeers.symm.trans hstatic
    | cardinality _ _ hstatic' =>
      cases hstatic.symm.trans hstatic'
      rfl

theorem validate_eq_ok_iff (c : Config) : c.validate = .ok () ↔ c.Acceptable := by
  have hspec := validate_spec c
  cases hc : c.validate with
  | ok u =>
    rw [hc] at hspec
    exact iff_of_true rfl hspec
  | error e =>
    rw [hc] at hspec
    exact iff_of_false nofun hspec.unacceptable

theorem nodup_of_validate (h : c.validate = .ok ()) : c.shards.Nodup :=
  (c.validate_eq_ok_iff.mp h).distinct

theorem visible_of_validate (h : c.validate = .ok ()) (hname : name ∈ c.shards) :
    ∃ ch ∈ name.toList, isBlank ch = false :=
  (c.validate_eq_ok_iff.mp h).visible name hname

theorem validate_eq_error_iff (c : Config) (e : ConfigError) :
    c.validate = .error e ↔ c.Refused e := by
  have hspec := validate_spec c
  cases hc : c.validate with
  | ok u =>
    rw [hc] at hspec
    exact iff_of_false nofun fun h => h.unacceptable hspec
  | error e' =>
    rw [hc] at hspec
    constructor
    · intro h
      cases h
      exact hspec
    · intro h
      rw [hspec.unique h]

end Config

/-- A name that no other shard has leads to its own shard. -/
theorem Router.shardIndex?_eq_some_iff {r : Router} (hd : r.names.Nodup) {name : String} {i : Nat} :
    r.shardIndex? name = some i ↔ r.names[i]? = some name := by
  unfold shardIndex?
  rw [List.findIdx?_eq_some_iff_getElem]
  constructor
  · rintro ⟨hlt, hname, -⟩
    rw [List.getElem?_eq_getElem hlt, of_decide_eq_true hname]
  · intro h
    obtain ⟨hlt, rfl⟩ := List.getElem?_eq_some_iff.mp h
    refine ⟨hlt, by simp, ?_⟩
    intro j hj hsame
    have hother : r.names[j] = r.names[i] := by simpa using hsame
    exact absurd ((List.Nodup.getElem_inj_iff hd).mp hother) (Nat.ne_of_lt hj)

namespace Deployment

/-- A client opens with a master for each shard. -/
theorem openClient_of_size {c : Config} {t : Topology} (hsize : t.size = c.shards.length)
    (d : Deployment) (b : Store.Backend) (listened : Option (List Endpoint)) : ∃ d' client r,
      d.openClient c b t listened = .ok (d', client) ∧
      d'.routers[client.router]? = some r ∧ r.names = c.shards ∧ r.topology = t := by
  simp only [openClient, addRouter, Router.new, if_pos hsize]
  cases listened <;> exact ⟨_, _, _, rfl, List.getElem?_concat_length, rfl, rfl⟩

/-- Unless etcd is to discover its masters, a client is what its configuration, its masters and its
router come to. -/
theorem connectClient_eq {c : Config} {kind : Store.Kind}
    (hkind : kind = .etcd → isStatic c.masters = true) (d : Deployment) (hasDiscovery : Bool) :
    d.connectClient c kind hasDiscovery =
      match c.validate with
      | .error e => (d, .error e)
      | .ok () =>
        match d.findMasters c (c.backend kind) hasDiscovery with
        | (d, .error e) => (d, .error e)
        | (d, .ok (t, peers)) =>
          match d.openClient c (c.backend kind) t peers with
          | .error e => (d, .error e)
          | .ok (d, client) => (d, .ok client) := by
  unfold connectClient
  generalize c.backend kind = b
  split
  · next hsentinel =>
    rw [hkind rfl] at hsentinel
    cases hsentinel
  · rfl

/-- A client is made as soon as its configuration is accepted and its masters are found. -/
theorem connectClient_of_found {c : Config} {d d₁ : Deployment} {kind : Store.Kind}
    {hasDiscovery : Bool} {t : Topology} {listened : Option (List Endpoint)}
    (hkind : kind = .etcd → isStatic c.masters = true) (hvalid : c.validate = .ok ())
    (hfind : d.findMasters c (c.backend kind) hasDiscovery = (d₁, .ok (t, listened)))
    (hsize : t.size = c.shards.length) : ∃ d' client r,
      d.connectClient c kind hasDiscovery = (d', .ok client) ∧
      d'.routers[client.router]? = some r ∧ r.names = c.shards ∧ r.topology = t := by
  obtain ⟨d', client, r, hopen, hrest⟩ := openClient_of_size hsize d₁ (c.backend kind) listened
  refine ⟨d', client, r, ?_, hrest⟩
  simp only [connectClient_eq hkind, hvalid, hfind, hopen]

/-- With masters that are laid down, they are found at once. -/
theorem connectClient_static {c : Config} {masters : List Endpoint}
    (hmasters : c.masters = .static masters) (hvalid : c.validate = .ok ()) (d : Deployment)
    (kind : Store.Kind) (hasDiscovery : Bool) : ∃ d' client r,
      d.connectClient c kind hasDiscovery = (d', .ok client) ∧
      d'.routers[client.router]? = some r ∧ r.names = c.shards ∧ r.topology = ⟨masters⟩ := by
  have hlength : masters.length = c.shards.length := by
    have hsuits := ((Config.validate_eq_ok_iff c).mp hvalid).masters
    rwa [hmasters] at hsuits
  have hfind : d.findMasters c (c.backend kind) hasDiscovery = (d, .ok (⟨masters⟩, none)) := by
    simp [findMasters, hmasters]
  exact connectClient_of_found (fun _ => by simp [isStatic, hmasters]) hvalid hfind hlength

end Deployment

namespace Config

/-- A configuration is accepted if its names are in order and it has the masters or the peers that it
needs, and is refused for the first rule that it breaks. A name of an accepted one leads to its own
shard, and with masters that are laid down its client is made, whatever else there is. -/
theorem validate_decides (c : Config) :
    (c.validate = .ok () ↔ c.Acceptable) ∧
    (∀ e, c.validate = .error e ↔ c.Refused e) ∧
    (c.validate = .ok () →
      (∀ r : Router, r.names = c.shards →
        ∀ i name, r.shardIndex? name = some i ↔ c.shards[i]? = some name) ∧
      ∀ masters, c.masters = .static masters → ∀ (d : Deployment) kind hasDiscovery,
        ∃ d' client r, d.connectClient c kind hasDiscovery = (d', .ok client) ∧
          d'.routers[client.router]? = some r ∧ r.names = c.shards ∧ r.topology = ⟨masters⟩) := by
  refine ⟨c.validate_eq_ok_iff, c.validate_eq_error_iff, fun hvalid => ⟨?_, ?_⟩⟩
  · intro r hnames i name
    have hd : r.names.Nodup := by
      rw [hnames]
      exact nodup_of_validate hvalid
    rw [Router.shardIndex?_eq_some_iff hd, hnames]
  · intro masters hmasters d kind hasDiscovery
    exact Deployment.connectClient_static hmasters hvalid d kind hasDiscovery

/-- The second name is blank and the third one repeats the first, of which the former is reported. -/
theorem validate_decides_blank :
    Refused { shards := ["a", " ", "a"], masters := .sentinel [] } .blankName ∧
    ∃ d' client r, Deployment.connectClient {}
        { shards := ["a", "a "], masters := .static [⟨"h", 1⟩, ⟨"h", 2⟩] } .etcd false =
          (d', .ok client) ∧ d'.routers[client.router]? = some r ∧ r.shardIndex? "a " = some 1 := by
  refine ⟨((validate_decides _).2.1 _).mp (by decide), ?_⟩
  obtain ⟨hlookup, hconnect⟩ := (validate_decides
    { shards := ["a", "a "], masters := .static [⟨"h", 1⟩, ⟨"h", 2⟩] }).2.2 (by decide)
  obtain ⟨d', client, r, hclient, hr, hnames, -⟩ := hconnect _ rfl {} .etcd false
  exact ⟨d', client, r, hclient, hr, (hlookup r hnames 1 "a ").mpr rfl⟩

end Config
end Holdfast
