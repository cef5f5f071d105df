import Holdfast.Etcd.Connection
import Holdfast.Proofs.Exchange

namespace Holdfast.Etcd

open Exchange Store

theorem Talk.of_bind {x : Talk α} {f : α → Talk β} {lines : List (Sigma Answer)}
    {result : Except Failure β} (h : Goes (x >>= f).run lines result) :
    (∃ e, result = .error e ∧ Goes x.run lines (.error e)) ∨
    ∃ first second a, lines = first ++ second ∧ Goes x.run first (.ok a) ∧
      Goes (f a).run second result := by
  obtain ⟨first, second, outcome, rfl, hx, hf⟩ := Goes.of_bind h
  cases outcome with
  | error e =>
    obtain ⟨rfl, rfl⟩ := Goes.of_done hf
    rw [List.append_nil]
    exact .inl ⟨e, rfl, hx⟩
  | ok a => exact .inr ⟨first, second, a, rfl, hx, hf⟩

theorem Talk.of_bind_ok {x : Talk α} {f : α → Talk β} {lines : List (Sigma Answer)} {b : β}
    (h : Goes (x >>= f).run lines (.ok b)) :
    ∃ first second a, lines = first ++ second ∧ Goes x.run first (.ok a) ∧
      Goes (f a).run second (.ok b) := by
  rcases of_bind h with ⟨e, he, _⟩ | hsteps
  · cases he
  · exact hsteps

theorem Talk.of_tryCatch {x : Talk α} {handle : Failure → Talk α} {lines : List (Sigma Answer)}
    {result : Except Failure α} (h : Goes (tryCatch x handle).run lines result) :
    (∃ a, result = .ok a ∧ Goes x.run lines (.ok a)) ∨
    ∃ first second e, lines = first ++ second ∧ Goes x.run first (.error e) ∧
      Goes (handle e).run second result := by
  obtain ⟨first, second, outcome, rfl, hx, hf⟩ := Goes.of_bind h
  cases outcome with
  | error e => exact .inr ⟨first, second, e, rfl, hx, hf⟩
  | ok a =>
    obtain ⟨rfl, rfl⟩ := Goes.of_done hf
    rw [List.append_nil]
    exact .inl ⟨a, rfl, hx⟩

theorem Talk.of_return {a : α} {lines : List (Sigma Answer)} {result : Except Failure α}
    (h : Goes (pure a : Talk α).run lines result) : lines = [] ∧ result = .ok a :=
  Goes.of_done h

theorem Talk.of_map_ok {x : Talk α} {g : α → β} {lines : List (Sigma Answer)} {b : β}
    (h : Goes (do return g (← x) : Talk β).run lines (.ok b)) :
    ∃ a, b = g a ∧ Goes x.run lines (.ok a) := by
  obtain ⟨first, second, a, rfl, hx, hend⟩ := of_bind_ok h
  obtain ⟨rfl, he⟩ := of_return hend
  cases he
  rw [List.append_nil]
  exact ⟨a, rfl, hx⟩

theorem Talk.of_throw {e : Failure} {lines : List (Sigma Answer)} {result : Except Failure α}
    (h : Goes (throw e : Talk α).run lines result) : lines = [] ∧ result = .error e :=
  Goes.of_done h

/-- What is made of a result says nothing more. -/
theorem Talk.of_map {x : Talk α} {g : α → β} {lines : List (Sigma Answer)} {result : Except Failure β}
    (h : Goes (do return g (← x) : Talk β).run lines result) :
    ∃ inner : Except Failure α, result = inner.map g ∧ Goes x.run lines inner := by
  rcases of_bind h with ⟨e, rfl, hx⟩ | ⟨first, second, a, rfl, hx, hend⟩
  · exact ⟨.error e, rfl, hx⟩
  · obtain ⟨rfl, rfl⟩ := of_return hend
    exact ⟨.ok a, rfl, by rwa [List.append_nil]⟩

theorem goes_of_same {c c' : Connection} {t : Talk Reply} {lines : List (Sigma Answer)}
    {outcome : Outcome} (h : Goes (c.same t) lines (c', outcome)) :
    c' = c ∧ Goes t.run lines outcome := by
  obtain ⟨first, second, a, rfl, ht, hend⟩ := Goes.of_bind h
  obtain ⟨rfl, he⟩ := Goes.of_done hend
  cases he
  rw [List.append_nil]
  exact ⟨rfl, ht⟩

/-- The sends of a request that is sent again after transient faults, up to the answer that
stands. -/
inductive Insisted (r : Request) : List (Sigma Answer) → Answer r → Prop
  | last (answer : Answer r) : Insisted r [⟨r, answer⟩] answer
  | again {f : Fault} {lines : List (Sigma Answer)} {answer : Answer r} (hf : f.isTransient)
      (rest : Insisted r lines answer) : Insisted r (⟨r, .error f⟩ :: lines) answer

theorem Insisted.of_retrying {r : Request} {delays : List Nat} {lines : List (Sigma Answer)}
    {answer : Answer r}
    (h : Goes (retrying Fault.isTransient Exchange.rest (Exchange.ask r) delays) lines answer) :
    Insisted r lines answer ∧ lines.length ≤ delays.length + 1 := by
  induction delays generalizing lines with
  | nil =>
    obtain rfl := Goes.of_ask h
    exact ⟨.last answer, Nat.le_refl _⟩
  | cons delay delays ih =>
    obtain ⟨first, second, sent, rfl, hsent, hrest⟩ := Goes.of_bind h
    obtain rfl := Goes.of_ask hsent
    cases sent with
    | ok a =>
      obtain ⟨rfl, rfl⟩ := Goes.of_done hrest
      exact ⟨.last _, by simp⟩
    | error f =>
      by_cases hf : f.isTransient
      · simp only [hf, if_true] at hrest
        cases hrest with
        | pause hrest =>
          obtain ⟨again, hlen⟩ := ih hrest
          exact ⟨.again hf again, by simpa using hlen⟩
      · simp only [hf] at hrest
        obtain ⟨rfl, rfl⟩ := Goes.of_done hrest
        exact ⟨.last _, by simp⟩

theorem Insisted.of_insist {r : Request} {lines : List (Sigma Answer)}
    {result : Except Failure r.Reply} (h : Goes (insist r).run lines result) :
    ∃ answer, Insisted r lines answer ∧ lines.length ≤ 4 ∧
      result = answer.mapError Failure.etcd := by
  obtain ⟨first, second, answer, rfl, hsends, hend⟩ := Goes.of_bind h
  obtain ⟨rfl, rfl⟩ := Goes.of_done hend
  obtain ⟨insisted, hlen⟩ := of_retrying hsends
  rw [List.append_nil]
  exact ⟨answer, insisted, hlen, rfl⟩

theorem Insisted.of_insist_ok {r : Request} {lines : List (Sigma Answer)} {a : r.Reply}
    (h : Goes (insist r).run lines (.ok a)) : Insisted r lines (.ok a) := by
  obtain ⟨answer, insisted, _, he⟩ := of_insist h
  cases answer with
  | error f => cases he
  | ok a =>
    cases he
    exact insisted

theorem Insisted.of_insist_error {r : Request} {lines : List (Sigma Answer)} {e : Failure}
    (h : Goes (insist r).run lines (.error e)) :
    ∃ f, e = .etcd f ∧ Insisted r lines (.error f) := by
  obtain ⟨answer, insisted, _, he⟩ := of_insist h
  cases answer with
  | ok a => cases he
  | error f =>
    cases he
    exact ⟨f, rfl, insisted⟩

theorem Insisted.of_mem {r : Request} {lines : List (Sigma Answer)} {answer : Answer r}
    (h : Insisted r lines answer) {l : Sigma Answer} (hl : l ∈ lines) :
    l = ⟨r, answer⟩ ∨ ∃ f : Fault, f.isTransient ∧ l = ⟨r, .error f⟩ := by
  induction h with
  | last answer => exact .inl (List.mem_singleton.mp hl)
  | again hf rest ih =>
    rcases List.mem_cons.mp hl with rfl | hl
    · exact .inr ⟨_, hf, rfl⟩
    · exact ih hl

theorem Insisted.mem {r : Request} {lines : List (Sigma Answer)} {answer : Answer r}
    (h : Insisted r lines answer) : ⟨r, answer⟩ ∈ lines := by
  induction h with
  | last answer => exact List.mem_singleton.mpr rfl
  | again hf rest ih => exact List.mem_cons_of_mem _ ih

theorem Insisted.request_eq {r : Request} {lines : List (Sigma Answer)} {answer : Answer r}
    (h : Insisted r lines answer) {l : Sigma Answer} (hl : l ∈ lines) : l.1 = r := by
  rcases h.of_mem hl with rfl | ⟨f, _, rfl⟩ <;> rfl

theorem mem_superseded {replies : List OpReply} {granted : List Int} {lease : Int} :
    lease ∈ superseded replies granted ↔
      lease ∈ replies.flatMap replaced ∧ lease ≠ 0 ∧ lease ∉ granted := by
  simp [superseded]

/-- A lease that cannot be given back does not make the call fail. -/
theorem goes_of_revokeOne {lease : Int} {lines : List (Sigma Answer)}
    {result : Except Failure Unit}
    (h : Goes (tryCatch (insist (.revoke lease)) fun _ => return).run lines result) :
    result = .ok () ∧ ∃ answer, Insisted (.revoke lease) lines answer := by
  rcases Talk.of_tryCatch h with ⟨a, rfl, hi⟩ | ⟨sends, none, e, rfl, hi, hend⟩
  · obtain ⟨answer, insisted, _, _⟩ := Insisted.of_insist hi
    exact ⟨rfl, answer, insisted⟩
  · obtain ⟨rfl, rfl⟩ := Talk.of_return hend
    obtain ⟨answer, insisted, _, _⟩ := Insisted.of_insist hi
    rw [List.append_nil]
    exact ⟨rfl, answer, insisted⟩

theorem goes_of_revoke {leases : List Int} {lines : List (Sigma Answer)}
    {result : Except Failure Unit} (h : Goes (revoke leases).run lines result) :
    result = .ok () ∧ ∀ l ∈ lines, ∃ lease ∈ leases, l.1 = .revoke lease := by
  induction leases generalizing lines with
  | nil =>
    obtain ⟨rfl, rfl⟩ := Talk.of_return h
    exact ⟨rfl, by simp⟩
  | cons lease leases ih =>
    have hrest : ∀ {later}, Goes (revoke leases).run later result →
        result = .ok () ∧ ∀ l ∈ later, ∃ other ∈ lease :: leases, l.1 = .revoke other := by
      intro later hs
      obtain ⟨hr, hlater⟩ := ih hs
      refine ⟨hr, fun l hl => ?_⟩
      obtain ⟨other, ho, he⟩ := hlater l hl
      exact ⟨other, List.mem_cons_of_mem _ ho, he⟩
    by_cases hz : lease = 0
    · simp only [revoke, hz, ne_eq, not_true_eq_false, if_false] at h
      exact hrest h
    · simp only [revoke, hz, ne_eq, not_false_eq_true, if_true] at h
      rcases Talk.of_bind h with ⟨e, _, hs⟩ | ⟨first, later, a, rfl, hs, hr⟩
      · obtain ⟨he, _⟩ := goes_of_revokeOne hs
        cases he
      · obtain ⟨_, answer, insisted⟩ := goes_of_revokeOne hs
        obtain ⟨hok, hlater⟩ := hrest hr
        refine ⟨hok, fun l hl => ?_⟩
        rcases List.mem_append.mp hl with hl | hl
        · exact ⟨lease, List.mem_cons_self, insisted.request_eq hl⟩
        · exact hlater l hl

/-- A grant is sent for each expiry, and nothing else. -/
theorem goes_of_grantLeases {written : List Bytes} {leases : Table Bytes Int}
    {writes : List Write} {lines : List (Sigma Answer)} {result : Except Failure (Table Bytes Int)}
    (h : Goes (grantLeases written leases writes).run lines result) :
    ∀ l ∈ lines, ∃ ttl, l.1 = .grant ttl := by
  induction writes generalizing written leases lines with
  | nil =>
    obtain ⟨rfl, _⟩ := Talk.of_return h
    simp
  | cons w writes ih =>
    cases w with
    | put key value => exact ih h
    | delete key => exact ih h
    | expire key seconds =>
      by_cases hw : key ∈ written
      · simp only [grantLeases, hw, not_true_eq_false, if_false] at h
        rcases Talk.of_bind h with ⟨e, _, hg⟩ | ⟨first, second, lease, rfl, hg, hrest⟩
        · obtain ⟨answer, insisted, _, _⟩ := Insisted.of_insist hg
          exact fun l hl => ⟨_, insisted.request_eq hl⟩
        · obtain ⟨answer, insisted, _, _⟩ := Insisted.of_insist hg
          intro l hl
          rcases List.mem_append.mp hl with hl | hl
          · exact ⟨_, insisted.request_eq hl⟩
          · exact ih hrest l hl
      · simp only [grantLeases, hw, not_false_eq_true, if_true] at h
        rcases Talk.of_bind h with ⟨e, _, ht⟩ | ⟨first, second, a, rfl, ht, _⟩
        · obtain ⟨rfl, _⟩ := Talk.of_throw ht
          simp
        · obtain ⟨_, ha⟩ := Talk.of_throw ht
          cases ha

theorem goes_of_runTxn {conditions : List Condition} {ops : List Op} {granted : List Int}
    {lines : List (Sigma Answer)} {result : Except Failure TxnReply}
    (h : Goes (runTxn conditions ops granted).run lines result) :
    (∃ reply, result = .ok reply ∧ Insisted (.txn conditions ops) lines (.ok reply)) ∨
    ∃ sending revoking f, lines = sending ++ revoking ∧ result = .error (.etcd f) ∧
      Insisted (.txn conditions ops) sending (.error f) ∧
      Goes (revoke granted).run revoking (.ok ()) := by
  rcases Talk.of_tryCatch h with ⟨reply, rfl, hi⟩ | ⟨sending, others, e, rfl, hi, hend⟩
  · exact .inl ⟨reply, rfl, Insisted.of_insist_ok hi⟩
  · obtain ⟨f, rfl, insisted⟩ := Insisted.of_insist_error hi
    rcases Talk.of_bind hend with ⟨e, _, hr⟩ | ⟨revoking, none, _, rfl, hr, ht⟩
    · obtain ⟨he, _⟩ := goes_of_revoke hr
      cases he
    · obtain ⟨rfl, rfl⟩ := Talk.of_throw ht
      rw [List.append_nil]
      exact .inr ⟨sending, revoking, f, rfl, rfl, insisted, hr⟩

theorem goes_of_setIfAbsent {key value : Bytes} {lines : List (Sigma Answer)} {created : Bool}
    (h : Goes (setIfAbsent key value).run lines (.ok created)) :
    ∃ reply : TxnReply, reply.succeeded = created ∧
      Insisted (.txn [isAbsent key] [.put key (some value) none false]) lines (.ok reply) := by
  obtain ⟨reply, hs, hi⟩ := Talk.of_map_ok h
  exact ⟨reply, hs.symm, Insisted.of_insist_ok hi⟩

/-- How an aborted transaction went: its leases were granted, the guard failed at the last send,
and the leases were given back. -/
theorem goes_of_exec_none {watched : Option (Bytes × Int)} {writes : List Write}
    {lines : List (Sigma Answer)} (h : Goes (exec watched writes).run lines (.ok none)) :
    ∃ leases granting sending revoking, ∃ reply : TxnReply,
      lines = granting ++ (sending ++ revoking) ∧ reply.succeeded = false ∧
      Goes (grantLeases [] [] writes).run granting (.ok leases) ∧
      Insisted (.txn (watched.toList.map isUnchanged) (writes.filterMap (opOf? leases)))
        sending (.ok reply) ∧
      Goes (revoke (leases.map Prod.snd)).run revoking (.ok ()) := by
  obtain ⟨granting, others, leases, rfl, hg, h⟩ := Talk.of_bind_ok h
  obtain ⟨sending, revoking, reply, rfl, ht, h⟩ := Talk.of_bind_ok h
  have insisted : Insisted (.txn (watched.toList.map isUnchanged)
      (writes.filterMap (opOf? leases))) sending (.ok reply) := by
    rcases goes_of_runTxn ht with ⟨_, he, insisted⟩ | ⟨_, _, _, _, he, _⟩
    · cases he
      exact insisted
    · cases he
  cases hs : reply.succeeded with
  | true =>
    simp only [hs, if_true] at h
    obtain ⟨_, _, _, rfl, _, h⟩ := Talk.of_bind_ok h
    obtain ⟨effects, he, _⟩ := Talk.of_map_ok h
    cases he
  | false =>
    simp only [hs] at h
    obtain ⟨revoking, none, ⟨⟩, rfl, hr, h⟩ := Talk.of_bind_ok h
    obtain ⟨rfl, _⟩ := Talk.of_return h
    rw [List.append_nil]
    exact ⟨leases, granting, sending, revoking, reply, rfl, hs, hg, insisted, hr⟩

end Holdfast.Etcd
