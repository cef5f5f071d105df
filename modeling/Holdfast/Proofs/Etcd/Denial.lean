import Holdfast.Proofs.Etcd.Server
import Holdfast.Proofs.Etcd.Talk

namespace Holdfast.Etcd

open Exchange Store

/-- Replies by which a call says that it has changed nothing: the key was there already, or the
transaction was aborted. -/
inductive Denied : Call → Reply → Prop
  | creation (key value : Bytes) : Denied (.setIfAbsent key value) (.flag false)
  | transaction (writes : List Write) : Denied (.exec writes) (.effects none)

/-- What a call makes its transaction depend on. -/
def Connection.guard (c : Connection) : Call → List Condition
  | .setIfAbsent key _ => [isAbsent key]
  | .exec _ => c.watched.toList.map isUnchanged
  | _ => []

/-- The client does not know of a transaction that was carried out: it was told that the guard
failed, or that something passing has come in between. -/
def Unaware : Sigma Answer → Prop
  | ⟨.txn .., .ok reply⟩ => reply.succeeded = false
  | ⟨.txn .., .error f⟩ => f.isTransient
  | _ => True

theorem Insisted.unaware {conditions : List Condition} {ops : List Op}
    {lines : List (Sigma Answer)} {reply : TxnReply}
    (h : Insisted (.txn conditions ops) lines (.ok reply)) (hr : reply.succeeded = false) :
    ∀ l ∈ lines, Unaware l := by
  intro l hl
  rcases h.of_mem hl with rfl | ⟨f, hf, rfl⟩
  · exact hr
  · exact hf

theorem unaware_of_grant {l : Sigma Answer} {ttl : Int} (h : l.1 = .grant ttl) : Unaware l := by
  obtain ⟨r, answer⟩ := l
  cases h
  trivial

theorem unaware_of_revoke {l : Sigma Answer} {lease : Int} (h : l.1 = .revoke lease) :
    Unaware l := by
  obtain ⟨r, answer⟩ := l
  cases h
  trivial

/-- A denial rests on a last send whose guard failed; no answer before told of a success. -/
theorem Denied.lines {c c' : Connection} {call : Call} {reply : Reply}
    {lines : List (Sigma Answer)} (hd : Denied call reply)
    (h : Goes (c.call call) lines (c', .ok reply)) :
    (∃ ops, ∃ last : TxnReply, last.succeeded = false ∧
      ⟨.txn (c.guard call) ops, .ok last⟩ ∈ lines) ∧ ∀ l ∈ lines, Unaware l := by
  cases hd with
  | creation key value =>
    obtain ⟨_, h⟩ := goes_of_same h
    obtain ⟨created, he, hs⟩ := Talk.of_map_ok h
    cases he
    obtain ⟨last, hl, insisted⟩ := goes_of_setIfAbsent hs
    exact ⟨⟨_, last, hl, insisted.mem⟩, insisted.unaware hl⟩
  | transaction writes =>
    obtain ⟨_, h⟩ := goes_of_same h
    obtain ⟨effects, he, hs⟩ := Talk.of_map_ok h
    cases he
    obtain ⟨leases, granting, sending, revoking, last, rfl, hl, hg, insisted, hr⟩ :=
      goes_of_exec_none hs
    refine ⟨⟨writes.filterMap (opOf? leases), last, hl, ?_⟩, ?_⟩
    · exact List.mem_append_right _ (List.mem_append_left _ insisted.mem)
    intro l hm
    simp only [List.mem_append] at hm
    rcases hm with hm | hm | hm
    · obtain ⟨ttl, ht⟩ := goes_of_grantLeases hg l hm
      exact unaware_of_grant ht
    · exact insisted.unaware hl l hm
    · obtain ⟨lease, _, ht⟩ := (goes_of_revoke hr).2 l hm
      exact unaware_of_revoke ht

/-- A transaction that was carried out, but whose answer gave way to a passing fault. -/
def Event.Unheard (e : Event) : Prop :=
  e.found.deeds e.request ≠ [] ∧ ∃ f : Fault, e.fate = .lost f ∧ f.isTransient

theorem Event.Unheard.deeds_ne {e : Event} (h : e.Unheard) : e.deeds ≠ [] := by
  obtain ⟨hd, f, hf, _⟩ := h
  simpa [deeds, hf] using hd

theorem Event.unheard_of_deeds {e : Event} (hu : Unaware e.line) (h : e.deeds ≠ []) :
    e.Unheard := by
  obtain ⟨found, request, fate⟩ := e
  cases fate with
  | refused f => exact absurd rfl h
  | lost f =>
    obtain ⟨conditions, ops, replies, rfl, _⟩ := Data.succeeded_of_deeds h
    exact ⟨h, f, rfl, hu⟩
  | answered =>
    obtain ⟨conditions, ops, replies, rfl, hs⟩ := Data.succeeded_of_deeds h
    simp only [line, answer, Data.execute, hs, Unaware] at hu
    cases hu

theorem Event.guard_failed {e : Event} {conditions : List Condition} {ops : List Op}
    {reply : TxnReply} (hl : e.line = ⟨.txn conditions ops, .ok reply⟩)
    (hr : reply.succeeded = false) :
    e = ⟨e.found, .txn conditions ops, .answered⟩ ∧ ¬ conditions.all e.found.meets := by
  obtain ⟨found, request, fate⟩ := e
  obtain ⟨rfl, ha⟩ := Sigma.mk.inj hl
  have ha := eq_of_heq ha
  cases fate with
  | answered =>
    refine ⟨rfl, fun hg => ?_⟩
    simp only [answer, Data.execute, Data.transact, hg, if_true] at ha
    split at ha
    · cases ha
      cases hr
    · cases ha
  | lost f => cases ha
  | refused f => cases ha

/-- What a denial is worth. The guard did fail when the last send was executed, and the requests of
the call that put or deleted something are those that were carried out with their answers lost. -/
theorem denied_deeds_iff_unheard {b : Behaviour} {s s' : Server} {c c' : Connection}
    {call : Call} {reply : Reply} {ms : Nat} (hd : Denied call reply)
    (h : (c.call call).run (serve b) s = (s', ms, c', .ok reply)) :
    ∃ sent, s'.log = s.log ++ sent ∧
      (∃ found ops, (⟨found, .txn (c.guard call) ops, .answered⟩ : Event) ∈ sent ∧
        ¬ (c.guard call).all found.meets) ∧
      ∀ e ∈ sent, (e.deeds ≠ [] ↔ e.Unheard) := by
  obtain ⟨sent, hlog, hgoes⟩ := goes_of_serve b (c.call call) s
  rw [h] at hlog hgoes
  obtain ⟨⟨ops, last, hl, hm⟩, hu⟩ := hd.lines hgoes
  refine ⟨sent, hlog, ?_, fun e he => ⟨fun hdeeds => ?_, Event.Unheard.deeds_ne⟩⟩
  · obtain ⟨e, he, hline⟩ := List.mem_map.mp hm
    obtain ⟨heq, hg⟩ := Event.guard_failed hline hl
    exact ⟨e.found, ops, heq ▸ he, hg⟩
  · exact Event.unheard_of_deeds (hu _ (List.mem_map_of_mem he)) hdeeds

/-- Nobody else is at work, and of each transaction the first answer is lost. -/
def lossy : Behaviour := fun s r =>
  match r with
  | .txn .. =>
    if s.log.getLast?.map Event.request = some r then (s.data, .answered)
    else (s.data, .lost (.status .unavailable false))
  | _ => (s.data, .answered)

/-- A creation on an empty server, a watch of the key, and its removal. -/
def creating : Server × Nat × Connection × Outcome :=
  (Connection.call {} (.setIfAbsent [107] [118])).run (serve lossy) {}

def watching : Server × Nat × Connection × Outcome :=
  (creating.2.2.1.call (.watch [107])).run (serve lossy) creating.1

def removing : Server × Nat × Connection × Outcome :=
  (watching.2.2.1.call (.exec [.delete [107]])).run (serve lossy) watching.1

theorem denied_deeds_iff_unheard_creating :
    Denied (.setIfAbsent [107] [118]) (.flag false) ∧
    creating = (creating.1, 10, {}, .ok (.flag false)) ∧
    ∃ sent, creating.1.log = ([] : List Event) ++ sent ∧
      (∃ found ops, (⟨found, .txn [isAbsent [107]] ops, .answered⟩ : Event) ∈ sent ∧
        ¬ [isAbsent [107]].all found.meets) ∧
      ∀ e ∈ sent, (e.deeds ≠ [] ↔ e.Unheard) := by
  have hd : Denied (.setIfAbsent [107] [118]) (.flag false) := .creation _ _
  have h : creating = (creating.1, 10, {}, .ok (.flag false)) := rfl
  exact ⟨hd, h, denied_deeds_iff_unheard (s := {}) hd h⟩

/-- A creation that took effect is denied, and so is a removal. -/
theorem lost_answers_denied :
    creating.2.2.2 = .ok (.flag false) ∧ creating.1.data.value? [107] = some [118] ∧
    (∃ e ∈ creating.1.log, e.deeds = [.put [107] (some [118]) none false]) ∧
    watching.2.2.1.watched = some ([107], 2) ∧
    removing.2.2.2 = .ok (.effects none) ∧ removing.1.data.value? [107] = none ∧
    ∃ e ∈ removing.1.log.drop watching.1.log.length, e.deeds = [.delete [107] true] := by
  decide

end Holdfast.Etcd
