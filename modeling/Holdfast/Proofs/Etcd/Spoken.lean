import Holdfast.Proofs.Etcd.Talk

namespace Holdfast.Etcd

open Exchange Store

/-- The lease that a server grants by an answer. -/
def grantOf : Sigma Answer → Option Int
  | ⟨.grant _, .ok lease⟩ => some lease
  | _ => none

/-- The lease that a request gives back. -/
def returnOf : Sigma Answer → Option Int
  | ⟨.revoke lease, _⟩ => some lease
  | _ => none

def Op.lease? : Op → Option Int
  | .put _ _ lease _ => lease
  | .delete .. => none

/-- The operations of a transaction that a server has reported as carried out, and its replies. -/
def commitOf : Sigma Answer → Option (List Op × List OpReply)
  | ⟨.txn _ ops, .ok reply⟩ => if reply.succeeded then some (ops, reply.replies) else none
  | _ => none

/-- What was granted, what was given back, and what was carried out, over a conversation. -/
def granted (lines : List (Sigma Answer)) : List Int := lines.filterMap grantOf

def returned (lines : List (Sigma Answer)) : List Int := lines.filterMap returnOf

def commits (lines : List (Sigma Answer)) : List (List Op × List OpReply) :=
  lines.filterMap commitOf

section
variable {r : Request} {lines : List (Sigma Answer)} {answer : Answer r}

@[simp] theorem granted_append (l m : List (Sigma Answer)) :
    granted (l ++ m) = granted l ++ granted m := List.filterMap_append ..

@[simp] theorem returned_append (l m : List (Sigma Answer)) :
    returned (l ++ m) = returned l ++ returned m := List.filterMap_append ..

@[simp] theorem commits_append (l m : List (Sigma Answer)) :
    commits (l ++ m) = commits l ++ commits m := List.filterMap_append ..

/-- Where faults tell nothing, the sends of one request tell what its last answer tells. -/
theorem Insisted.filterMap {β : Type} {f : Sigma Answer → Option β} (h : Insisted r lines answer)
    (hf : ∀ fault, f ⟨r, .error fault⟩ = none) : lines.filterMap f = (f ⟨r, answer⟩).toList := by
  induction h with
  | last answer => cases hlast : f ⟨r, answer⟩ <;> simp [hlast]
  | again _ rest ih => simpa [hf] using ih

theorem Insisted.granted_ok {ttl lease : Int} (h : Insisted (.grant ttl) lines (.ok lease)) :
    granted lines = [lease] :=
  h.filterMap fun _ => rfl

theorem Insisted.granted_error {ttl : Int} {f : Fault} (h : Insisted (.grant ttl) lines (.error f)) :
    granted lines = [] :=
  h.filterMap fun _ => rfl

theorem Insisted.commits_txn {conditions : List Condition} {ops : List Op}
    {answer : Answer (.txn conditions ops)} (h : Insisted (.txn conditions ops) lines answer) :
    commits lines = (commitOf ⟨.txn conditions ops, answer⟩).toList :=
  h.filterMap fun _ => rfl

/-- Nothing is granted but by answers to requests for it. -/
theorem granted_eq_nil (h : ∀ l ∈ lines, ∀ ttl, l.1 ≠ .grant ttl) : granted lines = [] := by
  refine List.filterMap_eq_nil_iff.mpr fun l hl => ?_
  obtain ⟨request, answer⟩ := l
  cases request with
  | grant ttl => exact absurd rfl (h _ hl ttl)
  | _ => rfl

theorem returned_eq_nil (h : ∀ l ∈ lines, ∀ lease, l.1 ≠ .revoke lease) : returned lines = [] := by
  refine List.filterMap_eq_nil_iff.mpr fun l hl => ?_
  obtain ⟨request, answer⟩ := l
  cases request with
  | revoke lease => exact absurd rfl (h _ hl lease)
  | _ => rfl

theorem commits_eq_nil (h : ∀ l ∈ lines, ∀ conditions ops, l.1 ≠ .txn conditions ops) :
    commits lines = [] := by
  refine List.filterMap_eq_nil_iff.mpr fun l hl => ?_
  obtain ⟨request, answer⟩ := l
  cases request with
  | txn conditions ops => exact absurd rfl (h _ hl conditions ops)
  | _ => rfl

theorem quiet_of_grants (h : ∀ l ∈ lines, ∃ ttl, l.1 = .grant ttl) :
    commits lines = [] ∧ returned lines = [] := by
  constructor
  · refine commits_eq_nil fun l hl _ _ ht => ?_
    obtain ⟨ttl, hgrant⟩ := h l hl
    rw [hgrant] at ht
    cases ht
  · refine returned_eq_nil fun l hl _ ht => ?_
    obtain ⟨ttl, hgrant⟩ := h l hl
    rw [hgrant] at ht
    cases ht

theorem Insisted.mem_returned {lease : Int} {answer : Answer (.revoke lease)}
    (h : Insisted (.revoke lease) lines answer) (other : Int) :
    other ∈ returned lines ↔ other = lease := by
  constructor
  · intro hm
    obtain ⟨l, hl, ho⟩ := List.mem_filterMap.mp hm
    obtain ⟨request, _⟩ := l
    obtain rfl : request = .revoke lease := h.request_eq hl
    exact (Option.some.inj ho).symm
  · rintro rfl
    exact List.mem_filterMap.mpr ⟨_, h.mem, rfl⟩

/-- All leases of a list are given back, but for the one that is none. -/
theorem mem_returned_of_revoke {leases : List Int} {result : Except Failure Unit}
    (h : Goes (revoke leases).run lines result) (lease : Int) :
    lease ∈ returned lines ↔ lease ∈ leases ∧ lease ≠ 0 := by
  induction leases generalizing lines with
  | nil =>
    obtain ⟨rfl, -⟩ := Talk.of_return h
    simp [returned]
  | cons first leases ih =>
    by_cases hz : first = 0
    · simp only [revoke, hz, ne_eq, not_true_eq_false, if_false] at h
      have hrest : lease ∈ returned lines ↔ lease ∈ leases ∧ lease ≠ 0 := ih h
      rw [hrest]
      constructor
      · exact fun hl => ⟨List.mem_cons_of_mem _ hl.1, hl.2⟩
      · rintro ⟨hm, hne⟩
        refine ⟨(List.mem_cons.mp hm).resolve_left ?_, hne⟩
        rintro rfl
        exact hne hz
    · simp only [revoke, hz, ne_eq, not_false_eq_true, if_true] at h
      rcases Talk.of_bind h with ⟨e, _, hs⟩ | ⟨sending, later, _, rfl, hs, hr⟩
      · obtain ⟨he, _⟩ := goes_of_revokeOne hs
        cases he
      · obtain ⟨_, answer, insisted⟩ := goes_of_revokeOne hs
        rw [returned_append, List.mem_append, insisted.mem_returned, ih hr, List.mem_cons]
        constructor
        · rintro (rfl | ⟨hm, hne⟩)
          · exact ⟨.inl rfl, hz⟩
          · exact ⟨.inr hm, hne⟩
        · rintro ⟨rfl | hm, hne⟩
          · exact .inl rfl
          · exact .inr ⟨hm, hne⟩

end

/-- The leases that are given back once the transaction they were granted for has its answer. -/
def yielded (fresh : List Int) : Except Fault TxnReply → List Int
  | .error _ => fresh
  | .ok reply => if reply.succeeded then superseded reply.replies fresh else fresh

/-- How a transaction goes for which leases were granted: it is sent until an answer stands, then
leases are given back. -/
def Settles (conditions : List Condition) (ops : List Op) (fresh : List Int)
    (answer : Except Fault TxnReply) (lines : List (Sigma Answer)) : Prop :=
  ∃ sending revoking, lines = sending ++ revoking ∧
    Insisted (.txn conditions ops) sending answer ∧
    Goes (revoke (yielded fresh answer)).run revoking (.ok ())

section
variable {conditions : List Condition} {ops : List Op} {fresh : List Int}
  {lines : List (Sigma Answer)}

theorem goes_of_revoke_bind {leases : List Int} {next : Talk α} {result : Except Failure α}
    (h : Goes (revoke leases >>= fun _ => next).run lines result) :
    ∃ revoking ending, lines = revoking ++ ending ∧ Goes (revoke leases).run revoking (.ok ()) ∧
      Goes next.run ending result := by
  rcases Talk.of_bind h with ⟨e, -, hr⟩ | ⟨revoking, ending, _, rfl, hr, hnext⟩
  · cases (goes_of_revoke hr).1
  · exact ⟨revoking, ending, rfl, hr, hnext⟩

/-- Whatever follows a transaction, its leases are settled first. -/
theorem settles_of_runTxn {f : TxnReply → Talk α} {g : Talk α} {result : Except Failure α}
    (h : Goes (runTxn conditions ops fresh >>= fun reply =>
      if reply.succeeded then revoke (superseded reply.replies fresh) >>= fun _ => f reply
      else revoke fresh >>= fun _ => g).run lines result) :
    ∃ settling ending answer, lines = settling ++ ending ∧
      Settles conditions ops fresh answer settling ∧
      match answer with
      | .error fault => ending = [] ∧ result = .error (.etcd fault)
      | .ok reply => Goes (if reply.succeeded then f reply else g).run ending result := by
  rcases Talk.of_bind h with ⟨e, rfl, ht⟩ | ⟨sending, later, reply, rfl, ht, h⟩
  · rcases goes_of_runTxn ht with ⟨reply, he, -⟩ | ⟨sending, revoking, fault, rfl, he, hi, hr⟩
    · cases he
    · cases he
      exact ⟨_, [], .error fault, (List.append_nil _).symm, ⟨_, _, rfl, hi, hr⟩, rfl, rfl⟩
  · rcases goes_of_runTxn ht with ⟨reply, he, hi⟩ | ⟨_, _, _, _, he, _⟩
    · cases he
      cases hs : reply.succeeded with
      | true =>
        simp only [hs, if_true] at h
        obtain ⟨revoking, ending, rfl, hr, hnext⟩ := goes_of_revoke_bind h
        refine ⟨sending ++ revoking, ending, .ok reply, by simp, ⟨_, _, rfl, hi, ?_⟩, ?_⟩
        · simpa only [yielded, hs, if_true] using hr
        · simpa only [hs, if_true] using hnext
      | false =>
        simp only [hs, Bool.false_eq_true, if_false] at h
        obtain ⟨revoking, ending, rfl, hr, hnext⟩ := goes_of_revoke_bind h
        refine ⟨sending ++ revoking, ending, .ok reply, by simp, ⟨_, _, rfl, hi, ?_⟩, ?_⟩
        · simpa only [yielded, hs, Bool.false_eq_true, if_false] using hr
        · simpa only [hs, Bool.false_eq_true, if_false] using hnext
    · cases he

/-- Of a transaction for which leases were granted, one thing may have been carried out. -/
theorem commits_of_settles {answer : Except Fault TxnReply} {granting : List (Sigma Answer)}
    (hg : ∀ l ∈ granting, ∃ ttl, l.1 = .grant ttl)
    (hs : Settles conditions ops fresh answer lines) :
    commits (granting ++ lines) = (commitOf ⟨.txn conditions ops, answer⟩).toList := by
  obtain ⟨sending, revoking, rfl, hi, hr⟩ := hs
  have hlast : commits revoking = [] := by
    refine commits_eq_nil fun l hl _ _ ht => ?_
    obtain ⟨other, -, ho⟩ := (goes_of_revoke hr).2 l hl
    rw [ho] at ht
    cases ht
  simp [(quiet_of_grants hg).1, hlast, hi.commits_txn]

theorem goes_of_exec {watched : Option (Bytes × Int)} {writes : List Write}
    {result : Except Failure (Option (List Effect))}
    (h : Goes (exec watched writes).run lines result) :
    (∃ e, result = .error e ∧ Goes (grantLeases [] [] writes).run lines (.error e)) ∨
    ∃ leases granting settling answer, lines = granting ++ settling ∧
      Goes (grantLeases [] [] writes).run granting (.ok leases) ∧
      Settles (watched.toList.map isUnchanged) (writes.filterMap (opOf? leases))
        (leases.map Prod.snd) answer settling ∧
      result = match answer with
        | .error fault => .error (.etcd fault)
        | .ok reply =>
          if reply.succeeded then (effectsOf writes reply.replies).map some else .ok none := by
  rcases Talk.of_bind h with ⟨e, rfl, hg⟩ | ⟨granting, later, leases, rfl, hg, h⟩
  · exact .inl ⟨e, rfl, hg⟩
  · obtain ⟨settling, ending, answer, rfl, hs, hend⟩ := settles_of_runTxn h
    cases answer with
    | error fault =>
      obtain ⟨rfl, rfl⟩ := hend
      exact .inr ⟨leases, granting, settling, .error fault, by simp, hg, hs, rfl⟩
    | ok reply =>
      have hdone : ending = [] ∧ result =
          if reply.succeeded then (effectsOf writes reply.replies).map some else .ok none := by
        cases hr : reply.succeeded with
        | false =>
          simp only [hr, Bool.false_eq_true, if_false] at hend
          exact Talk.of_return hend
        | true =>
          simp only [hr, if_true] at hend
          cases he : effectsOf writes reply.replies with
          | error e =>
            rw [he] at hend
            exact Goes.of_done hend
          | ok es =>
            rw [he] at hend
            exact Goes.of_done hend
      obtain ⟨rfl, rfl⟩ := hdone
      exact .inr ⟨leases, granting, settling, .ok reply, by simp, hg, hs, rfl⟩

theorem goes_of_expire {key : Bytes} {seconds : Nat} {result : Except Failure Bool}
    (h : Goes (expire key seconds).run lines result) :
    (∃ f, Insisted (.grant (min seconds maxTtl)) lines (.error f)) ∨
    ∃ lease granting settling answer, lines = granting ++ settling ∧
      Insisted (.grant (min seconds maxTtl)) granting (.ok lease) ∧
      Settles [isPresent key] [.put key none (some lease) true] [lease] answer settling := by
  rcases Talk.of_bind h with ⟨e, rfl, hg⟩ | ⟨granting, later, lease, rfl, hg, h⟩
  · obtain ⟨f, -, insisted⟩ := Insisted.of_insist_error hg
    exact .inl ⟨f, insisted⟩
  · obtain ⟨settling, ending, answer, rfl, hs, hend⟩ := settles_of_runTxn h
    have hdone : ending = [] := by
      cases answer with
      | error fault => exact hend.1
      | ok reply =>
        cases hr : reply.succeeded with
        | true =>
          simp only [hr, if_true] at hend
          exact (Talk.of_return hend).1
        | false =>
          simp only [hr, Bool.false_eq_true, if_false] at hend
          exact (Talk.of_return hend).1
    subst hdone
    exact .inr ⟨lease, granting, settling, answer, by simp, Insisted.of_insist_ok hg, hs⟩

theorem yielded_of_uncommitted {answer : Except Fault TxnReply}
    (h : commitOf ⟨.txn conditions ops, answer⟩ = none) : yielded fresh answer = fresh := by
  cases answer with
  | error f => rfl
  | ok reply =>
    cases hr : reply.succeeded with
    | false => simp [yielded, hr]
    | true => simp [commitOf, hr] at h

theorem yielded_of_commit (fresh : List Int) {answer : Except Fault TxnReply}
    {c : List Op × List OpReply} (h : commitOf ⟨.txn conditions ops, answer⟩ = some c) :
    c.1 = ops ∧ yielded fresh answer = superseded c.2 fresh := by
  cases answer with
  | error f => cases h
  | ok reply =>
    cases hr : reply.succeeded with
    | false => simp [commitOf, hr] at h
    | true =>
      simp only [commitOf, hr, if_true, Option.some.injEq] at h
      subst h
      exact ⟨rfl, by simp [yielded, hr]⟩

end

end Holdfast.Etcd
