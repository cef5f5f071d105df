import Holdfast.Proofs.Etcd.Spoken
import Holdfast.Proofs.Table

namespace Holdfast

open Exchange Store

namespace Store

/-- The key that a write gives an expiry. -/
def Write.expiry? : Write → Option Bytes
  | .expire key _ => some key
  | .put .. | .delete _ => none

def Call.expiries : Call → List Bytes
  | .expire key _ => [key]
  | .exec writes => writes.filterMap Write.expiry?
  | _ => []

end Store

namespace Etcd

/-- A lease is accounted for by a put that was carried out, or by a request to give it back. -/
def Accounted (lines : List (Sigma Answer)) (lease : Int) : Prop :=
  (∃ c ∈ commits lines, lease ∈ c.1.filterMap Op.lease?) ∨ lease ∈ returned lines

/-- Of the leases for one key the last one stands; the others have given way to it. -/
def standing : List (Bytes × Int) → List Int
  | [] => []
  | (key, lease) :: later =>
    if (later.map Prod.fst).contains key then standing later else lease :: standing later

/-- The leases that go into a table one after the other. -/
def attach (leases : Table Bytes Int) (pairs : List (Bytes × Int)) : Table Bytes Int :=
  pairs.foldl (fun leases p => leases.set p.1 p.2) leases

theorem nodup_attach {leases : Table Bytes Int} (hd : (leases.map Prod.fst).Nodup)
    (pairs : List (Bytes × Int)) : ((attach leases pairs).map Prod.fst).Nodup := by
  induction pairs generalizing leases with
  | nil => exact hd
  | cons p pairs ih => exact ih (Table.nodup_set hd p.1 p.2)

theorem mem_of_attach {leases : Table Bytes Int} (hd : (leases.map Prod.fst).Nodup)
    {pairs : List (Bytes × Int)} {p : Bytes × Int} (h : p ∈ attach leases pairs) :
    p ∈ leases ∨ p ∈ pairs := by
  induction pairs generalizing leases with
  | nil => exact .inl h
  | cons q pairs ih =>
    rcases ih (Table.nodup_set hd q.1 q.2) h with hset | hlater
    · rcases Table.mem_set hd hset with rfl | ⟨hold, -⟩
      · exact .inr List.mem_cons_self
      · exact .inl hold
    · exact .inr (List.mem_cons_of_mem _ hlater)

theorem mem_attach {leases : Table Bytes Int} (hd : (leases.map Prod.fst).Nodup)
    (pairs : List (Bytes × Int)) (lease : Int) :
    lease ∈ (attach leases pairs).map Prod.snd ↔
      lease ∈ standing pairs ∨
        ∃ key, leases.get? key = some lease ∧ key ∉ pairs.map Prod.fst := by
  induction pairs generalizing leases with
  | nil =>
    simp only [attach, List.foldl_nil, standing, List.not_mem_nil, false_or, List.map_nil,
      not_false_eq_true, and_true]
    constructor
    · intro h
      obtain ⟨⟨key, _⟩, hp, rfl⟩ := List.mem_map.mp h
      exact ⟨key, Table.get?_of_mem hd hp⟩
    · rintro ⟨key, h⟩
      exact List.mem_map_of_mem (Table.mem_of_get? h)
  | cons p pairs ih =>
    obtain ⟨key, new⟩ := p
    have hrest : lease ∈ (attach leases ((key, new) :: pairs)).map Prod.snd ↔ _ :=
      ih (Table.nodup_set hd key new)
    rw [hrest]
    by_cases hlater : key ∈ pairs.map Prod.fst
    · simp only [standing, List.contains_iff_mem, hlater, if_true]
      refine or_congr_right (exists_congr fun other => ?_)
      by_cases hk : other = key
      · subst hk
        simp [hlater]
      · simp [Table.get?_set_ne _ _ hk, hk]
    · simp only [standing, List.contains_iff_mem, hlater, if_false, List.mem_cons, List.map_cons]
      constructor
      · rintro (h | ⟨other, hget, hother⟩)
        · exact .inl (.inr h)
        · by_cases hk : other = key
          · subst hk
            rw [Table.get?_set_self] at hget
            exact .inl (.inl (Option.some.inj hget).symm)
          · rw [Table.get?_set_ne _ _ hk] at hget
            exact .inr ⟨other, hget, by simp [hk, hother]⟩
      · rintro ((rfl | h) | ⟨other, hget, hother⟩)
        · exact .inr ⟨key, Table.get?_set_self _ _ _, hlater⟩
        · exact .inl h
        · simp only [not_or] at hother
          exact .inr ⟨other, by rwa [Table.get?_set_ne _ _ hother.1], hother.2⟩

section
variable {written : List Bytes} {leases table : Table Bytes Int} {writes : List Write}
  {lines : List (Sigma Answer)}

/-- Where each expiry gets its lease, the leases go into the table in order, and each key is
written. -/
theorem attach_of_grantLeases
    (h : Goes (grantLeases written leases writes).run lines (.ok table)) :
    (granted lines).length = (writes.filterMap Write.expiry?).length ∧
      table = attach leases ((writes.filterMap Write.expiry?).zip (granted lines)) ∧
      ∀ key ∈ writes.filterMap Write.expiry?, key ∈ written ∨ ∃ value, .put key value ∈ writes := by
  induction writes generalizing written leases lines with
  | nil =>
    obtain ⟨rfl, he⟩ := Talk.of_return h
    cases he
    exact ⟨rfl, rfl, by simp⟩
  | cons w writes ih =>
    cases w with
    | put key value =>
      obtain ⟨hlength, htable, hwritten⟩ := ih h
      refine ⟨hlength, htable, fun other ho => ?_⟩
      rcases hwritten other ho with hm | ⟨v, hv⟩
      · rcases List.mem_cons.mp hm with rfl | hm
        · exact .inr ⟨value, List.mem_cons_self⟩
        · exact .inl hm
      · exact .inr ⟨v, List.mem_cons_of_mem _ hv⟩
    | delete key =>
      obtain ⟨hlength, htable, hwritten⟩ := ih h
      refine ⟨hlength, htable, fun other ho => ?_⟩
      exact (hwritten other ho).imp_right fun ⟨v, hv⟩ => ⟨v, List.mem_cons_of_mem _ hv⟩
    | expire key seconds =>
      by_cases hw : key ∈ written
      · simp only [grantLeases, hw, not_true_eq_false, if_false] at h
        obtain ⟨first, later, lease, rfl, hg, hrest⟩ := Talk.of_bind_ok h
        have hgrant := (Insisted.of_insist_ok hg).granted_ok
        obtain ⟨hlength, htable, hwritten⟩ := ih hrest
        refine ⟨by simp [hgrant, hlength, Write.expiry?], ?_, ?_⟩
        · simpa [hgrant, attach, Write.expiry?] using htable
        · intro other ho
          rcases List.mem_cons.mp ho with rfl | ho
          · exact .inl hw
          · exact (hwritten other ho).imp_right fun ⟨v, hv⟩ => ⟨v, List.mem_cons_of_mem _ hv⟩
      · simp only [grantLeases, hw, not_false_eq_true, if_true] at h
        obtain ⟨_, _, _, _, ht, _⟩ := Talk.of_bind_ok h
        cases (Talk.of_throw ht).2

theorem granted_lt_of_grantLeases {e : Failure}
    (h : Goes (grantLeases written leases writes).run lines (.error e)) :
    (granted lines).length < (writes.filterMap Write.expiry?).length := by
  induction writes generalizing written leases lines with
  | nil => cases (Talk.of_return h).2
  | cons w writes ih =>
    cases w with
    | put key value => exact ih h
    | delete key => exact ih h
    | expire key seconds =>
      by_cases hw : key ∈ written
      · simp only [grantLeases, hw, not_true_eq_false, if_false] at h
        rcases Talk.of_bind h with ⟨_, _, hg⟩ | ⟨first, later, lease, rfl, hg, hrest⟩
        · obtain ⟨f, -, insisted⟩ := Insisted.of_insist_error hg
          simp [insisted.granted_error, Write.expiry?]
        · have hgrant := (Insisted.of_insist_ok hg).granted_ok
          rw [granted_append, hgrant]
          exact Nat.succ_lt_succ (ih hrest)
      · simp only [grantLeases, hw, not_false_eq_true, if_true] at h
        rcases Talk.of_bind h with ⟨_, _, ht⟩ | ⟨_, _, _, _, ht, _⟩
        · obtain ⟨rfl, -⟩ := Talk.of_throw ht
          simp [granted, Write.expiry?]
        · cases (Talk.of_throw ht).2

end

section
variable {conditions : List Condition} {ops : List Op} {fresh : List Int}
  {lines : List (Sigma Answer)}

/-- The leases that the puts of a transaction carry are those of the table, where each key of the
table is written. -/
theorem mem_lease_ops {leases : Table Bytes Int} {writes : List Write}
    (hwritten : ∀ p ∈ leases, ∃ value, .put p.1 value ∈ writes)
    (hd : (leases.map Prod.fst).Nodup) (lease : Int) :
    lease ∈ (writes.filterMap (opOf? leases)).filterMap Op.lease? ↔
      lease ∈ leases.map Prod.snd := by
  constructor
  · intro h
    obtain ⟨op, hop, hl⟩ := List.mem_filterMap.mp h
    obtain ⟨w, -, hw⟩ := List.mem_filterMap.mp hop
    cases w with
    | put key value =>
      cases hw
      exact List.mem_map_of_mem (Table.mem_of_get? hl)
    | delete key =>
      cases hw
      cases hl
    | expire key seconds => cases hw
  · intro h
    obtain ⟨p, hp, rfl⟩ := List.mem_map.mp h
    obtain ⟨value, hv⟩ := hwritten p hp
    refine List.mem_filterMap.mpr ⟨.put p.1 (some value) (leases.get? p.1) true, ?_, ?_⟩
    · exact List.mem_filterMap.mpr ⟨_, hv, rfl⟩
    · exact Table.get?_of_mem hd hp

/-- A lease is covered if it stands for its key, unless it is none and nothing was carried out; or,
by chance, if what was carried out has replaced a value that had it. -/
def Covered (stands : List Int) (done : List (List Op × List OpReply)) (lease : Int) : Prop :=
  lease ∈ stands ∧ (lease ≠ 0 ∨ done ≠ []) ∨
    lease ≠ 0 ∧ ∃ c ∈ done, lease ∈ c.2.flatMap replaced

theorem accounted_of_settles {answer : Except Fault TxnReply} {stands : List Int}
    {granting : List (Sigma Answer)} (hg : ∀ l ∈ granting, ∃ ttl, l.1 = .grant ttl)
    (hs : Settles conditions ops fresh answer lines)
    (hfresh : ∀ lease, lease ∈ fresh ↔ lease ∈ stands)
    (hops : ∀ lease, lease ∈ ops.filterMap Op.lease? ↔ lease ∈ fresh) (lease : Int) :
    granted (granting ++ lines) = granted granting ∧
      (Accounted (granting ++ lines) lease ↔
        Covered stands (commits (granting ++ lines)) lease) := by
  have hcommits := commits_of_settles hg hs
  obtain ⟨sending, revoking, rfl, hi, hr⟩ := hs
  have hsending {l : Sigma Answer} (hl : l ∈ sending) : l.1 = .txn conditions ops :=
    hi.request_eq hl
  have hrevoking {l : Sigma Answer} (hl : l ∈ revoking) : ∃ other, l.1 = .revoke other := by
    obtain ⟨other, -, ho⟩ := (goes_of_revoke hr).2 l hl
    exact ⟨other, ho⟩
  have hgranted : granted (sending ++ revoking) = [] := by
    refine granted_eq_nil fun l hl ttl ht => ?_
    rcases List.mem_append.mp hl with hl | hl
    · rw [hsending hl] at ht
      cases ht
    · obtain ⟨other, ho⟩ := hrevoking hl
      rw [ho] at ht
      cases ht
  have hreturned : lease ∈ returned (granting ++ (sending ++ revoking)) ↔
      lease ∈ yielded fresh answer ∧ lease ≠ 0 := by
    have hmid : returned sending = [] := by
      refine returned_eq_nil fun l hl _ ht => ?_
      rw [hsending hl] at ht
      cases ht
    rw [returned_append, returned_append, (quiet_of_grants hg).2, hmid, List.nil_append,
      List.nil_append]
    exact mem_returned_of_revoke hr lease
  refine ⟨by rw [granted_append, hgranted, List.append_nil], ?_⟩
  unfold Accounted Covered
  rw [hreturned, hcommits, ← hfresh]
  cases hc : commitOf ⟨.txn conditions ops, answer⟩ with
  | none =>
    rw [yielded_of_uncommitted hc]
    simp
  | some c =>
    obtain ⟨rfl, hyielded⟩ := yielded_of_commit fresh hc
    rw [hyielded]
    simp only [Option.toList_some, List.mem_singleton, exists_eq_left, hops, mem_superseded]
    by_cases hf : lease ∈ fresh
    · simp [hf]
    · simp [hf, and_comm]

end

section
variable {c c' : Connection} {lines : List (Sigma Answer)} {outcome : Outcome} {lease : Int}

theorem granted_of_call {call : Call} (h : Goes (c.call call) lines (c', outcome))
    (hl : lease ∈ granted lines) :
    (∃ key seconds, call = .expire key seconds) ∨ ∃ writes, call = .exec writes := by
  have hother {sent : List (Sigma Answer)} {r : Request} (hs : ∀ l ∈ sent, l.1 = r)
      (hl : lease ∈ granted sent) (hr : ∀ ttl, r ≠ .grant ttl) : False := by
    rw [granted_eq_nil fun l hm ttl => hs l hm ▸ hr ttl] at hl
    cases hl
  have hinsist {sent : List (Sigma Answer)} {r : Request} {result : Except Failure r.Reply}
      (hi : Goes (insist r).run sent result) (hl : lease ∈ granted sent)
      (hr : ∀ ttl, r ≠ .grant ttl) : False := by
    obtain ⟨answer, insisted, -, -⟩ := Insisted.of_insist hi
    exact hother (fun _ => insisted.request_eq) hl hr
  cases call with
  | setIfAbsent key value =>
    obtain ⟨_, -, h⟩ := Talk.of_map (goes_of_same h).2
    obtain ⟨_, -, h⟩ := Talk.of_map h
    exact (hinsist h hl (by nofun)).elim
  | get key =>
    obtain ⟨_, -, h⟩ := Talk.of_map (goes_of_same h).2
    obtain ⟨_, -, h⟩ := Talk.of_map h
    exact (hinsist h hl (by nofun)).elim
  | expire key seconds => exact .inl ⟨key, seconds, rfl⟩
  | watch key =>
    obtain ⟨first, second, result, rfl, h, hend⟩ := Goes.of_bind h
    obtain ⟨_, -, h⟩ := Talk.of_map h
    have hsecond : second = [] := by cases result <;> exact (Goes.of_done hend).1
    rw [hsecond, List.append_nil] at hl
    exact (hinsist h hl (by nofun)).elim
  | unwatch =>
    obtain ⟨rfl, -⟩ := Goes.of_done h
    cases hl
  | exec writes => exact .inr ⟨writes, rfl⟩
  | ping =>
    obtain ⟨_, h⟩ := goes_of_same h
    have hs : ∃ inner, Goes (ask .status).run lines inner := by
      rcases Talk.of_bind h with ⟨_, _, hd⟩ | ⟨first, second, _, rfl, hd, hend⟩
      · obtain ⟨inner, -, hd⟩ := Talk.of_map hd
        exact ⟨inner, hd⟩
      · obtain ⟨rfl, -⟩ := Talk.of_return hend
        obtain ⟨inner, -, hd⟩ := Talk.of_map hd
        exact ⟨inner, by rwa [List.append_nil]⟩
    obtain ⟨_, h⟩ := hs
    obtain ⟨first, second, answer, rfl, hask, hend⟩ := Goes.of_bind h
    obtain rfl := Goes.of_ask hask
    obtain ⟨rfl, -⟩ := Goes.of_done hend
    cases hl

/-- A call with an expiry either gets fewer leases than it asks for and says nothing more, or gets
one for each, and settles them. -/
theorem leases_of_call {call : Call} (h : Goes (c.call call) lines (c', outcome))
    (hl : lease ∈ granted lines) :
    ((granted lines).length < call.expiries.length ∧ ¬ Accounted lines lease) ∨
      ((granted lines).length = call.expiries.length ∧
        (Accounted lines lease ↔
          Covered (standing (call.expiries.zip (granted lines))) (commits lines) lease)) := by
  rcases granted_of_call h hl with ⟨key, seconds, rfl⟩ | ⟨writes, rfl⟩
  · obtain ⟨_, -, h⟩ := Talk.of_map (goes_of_same h).2
    rcases goes_of_expire h with ⟨f, insisted⟩ | ⟨new, granting, settling, answer, rfl, hg, hs⟩
    · rw [insisted.granted_error] at hl
      cases hl
    · obtain ⟨hgranted, hiff⟩ := accounted_of_settles
        (fun l hm => ⟨_, hg.request_eq hm⟩) hs (fun _ => Iff.rfl) (by simp [Op.lease?]) lease
      rw [hg.granted_ok] at hgranted
      refine .inr ⟨by rw [hgranted]; rfl, ?_⟩
      rw [hgranted]
      exact hiff
  · obtain ⟨_, -, h⟩ := Talk.of_map (goes_of_same h).2
    rcases goes_of_exec h with ⟨e, -, hg⟩ | ⟨leases, granting, settling, answer, rfl, hg, hs, -⟩
    · refine .inl ⟨granted_lt_of_grantLeases hg, ?_⟩
      simp [Accounted, quiet_of_grants (goes_of_grantLeases hg)]
    · obtain ⟨hlength, hleases, hwritten⟩ := attach_of_grantLeases hg
      have hempty : (([] : Table Bytes Int).map Prod.fst).Nodup := List.nodup_nil
      have hd : (leases.map Prod.fst).Nodup := hleases ▸ nodup_attach hempty _
      have hfresh (other : Int) : other ∈ leases.map Prod.snd ↔
          other ∈ standing ((writes.filterMap Write.expiry?).zip (granted granting)) := by
        rw [hleases, mem_attach hempty]
        simp [Table.get?]
      have hput : ∀ p ∈ leases, ∃ value, .put p.1 value ∈ writes := by
        intro p hp
        rw [hleases] at hp
        have hpair := (mem_of_attach hempty hp).resolve_left List.not_mem_nil
        exact (hwritten p.1 (List.of_mem_zip hpair).1).resolve_left List.not_mem_nil
      obtain ⟨hgranted, hiff⟩ := accounted_of_settles (goes_of_grantLeases hg) hs hfresh
        (mem_lease_ops hput hd) lease
      rw [hgranted]
      exact .inr ⟨hlength, hiff⟩

end

instance (lines : List (Sigma Answer)) (lease : Int) : Decidable (Accounted lines lease) :=
  inferInstanceAs (Decidable (_ ∨ _))

instance (stands : List Int) (done : List (List Op × List OpReply)) (lease : Int) :
    Decidable (Covered stands done lease) :=
  inferInstanceAs (Decidable (_ ∨ _))

/-- When a lease is taken care of that was granted during a call, whatever the server answers: every
expiry of the call must have got its lease, and the lease must be the last one for its key. Where a
later expiry is refused, or gets no lease, those before it are left behind; so are those that give
way to another one for the same key. -/
theorem lease_accounted_iff (reply : List (Sigma Answer) → (r : Request) → Answer r)
    (c : Connection) (call : Call) {lease : Int}
    (h : lease ∈ granted (spoken reply (c.call call))) :
    Accounted (spoken reply (c.call call)) lease ↔
      (granted (spoken reply (c.call call))).length = call.expiries.length ∧
        Covered (standing (call.expiries.zip (granted (spoken reply (c.call call)))))
          (commits (spoken reply (c.call call))) lease := by
  rcases leases_of_call (goes_of_speak reply (c.call call)) h with
    ⟨hlt, hleft⟩ | ⟨hall, hiff⟩
  · exact iff_of_false hleft fun hall => Nat.ne_of_lt hlt hall.1
  · exact hiff.trans (and_iff_right hall).symm

/-- A server that grants leases up to a number, the last one named by it, and carries out every
transaction. -/
def generous (limit : Int) (lines : List (Sigma Answer)) : (r : Request) → Answer r
  | .grant _ =>
    if (granted lines).length < limit then .ok ((granted lines).length + 1)
    else .error (.status .permissionDenied false)
  | .txn _ ops => .ok ⟨true, ops.map fun _ => .put none⟩
  | .range _ => .ok []
  | .revoke _ | .status => .ok ()
  | .authenticate _ => .ok ""

/-- A transaction that gives a key an expiry twice. -/
def renewing : Call := .exec [.put [107] [118], .expire [107] 5, .expire [107] 7]

/-- One that gives an expiry to a second key, which it does not write. -/
def straying : Call := .exec [.put [107] [118], .expire [107] 5, .expire [108] 5]

theorem lease_accounted_iff_renewing :
    (1 ∈ granted (spoken (generous 2) (Connection.call {} renewing)) ∧
      ¬ Accounted (spoken (generous 2) (Connection.call {} renewing)) 1) ∧
    2 ∈ granted (spoken (generous 2) (Connection.call {} renewing)) ∧
      Accounted (spoken (generous 2) (Connection.call {} renewing)) 2 := by
  have hone : 1 ∈ granted (spoken (generous 2) (Connection.call {} renewing)) := by decide
  have htwo : 2 ∈ granted (spoken (generous 2) (Connection.call {} renewing)) := by decide
  refine ⟨⟨hone, fun h => ?_⟩, htwo, ?_⟩
  · exact absurd ((lease_accounted_iff (generous 2) {} renewing hone).mp h).2 (by decide)
  · exact (lease_accounted_iff (generous 2) {} renewing htwo).mpr (by decide)

/-- Leases are left behind by a second expiry of a key in a transaction that is carried out, by an
expiry that is refused, and by one that gets no lease. -/
theorem leases_left_behind :
    (((Connection.call {} renewing).run (speak (generous 2)) []).2.2.2 =
        .ok (.effects (some [.previous none, .count 1, .count 1])) ∧
      granted (spoken (generous 2) (Connection.call {} renewing)) = [1, 2] ∧
      ¬ Accounted (spoken (generous 2) (Connection.call {} renewing)) 1) ∧
    (((Connection.call {} straying).run (speak (generous 2)) []).2.2.2 =
        .error (.protocol
          "an expire inside an etcd transaction must follow a write of the same key") ∧
      granted (spoken (generous 2) (Connection.call {} straying)) = [1] ∧
      ¬ Accounted (spoken (generous 2) (Connection.call {} straying)) 1) ∧
    ((Connection.call {} renewing).run (speak (generous 1)) []).2.2.2 =
        .error (.etcd (.status .permissionDenied false)) ∧
      granted (spoken (generous 1) (Connection.call {} renewing)) = [1] ∧
      ¬ Accounted (spoken (generous 1) (Connection.call {} renewing)) 1 := by
  decide

end Etcd
end Holdfast
