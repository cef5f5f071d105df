import Holdfast.Proofs.Etcd.Spoken
import Holdfast.Redis.Connection
import Mathlib.Data.List.Forall2

namespace Holdfast

open Exchange Store

namespace Store

/-- Whether an effect is of the kind that an operation answers with. -/
def Write.asks : Write → Effect → Bool
  | .put .., .previous _ => true
  | .delete _, .count _ | .expire .., .count _ => true
  | _, _ => false

/-- One effect for each operation, in order, and each of the kind that it answers with. -/
abbrev Fits (writes : List Write) (es : List Effect) : Prop :=
  List.Forall₂ (fun w e => w.asks e = true) writes es

/-- A transaction fails, is aborted, or has effects of which something holds. -/
def Reports (P : List Effect → Prop) : Outcome → Prop
  | .error _ | .ok (.effects none) => True
  | .ok (.effects (some es)) => P es
  | .ok _ => False

theorem Reports.of_some {P : List Effect → Prop} {result : Except Failure (Option (List Effect))}
    (h : ∀ es, result = .ok (some es) → P es) : Reports P (result.map .effects) := by
  match result with
  | .error _ => trivial
  | .ok none => trivial
  | .ok (some es) => exact h es rfl

theorem Reports.mono {P Q : List Effect → Prop} {outcome : Outcome} (h : Reports P outcome)
    (hpq : ∀ es, P es → Q es) : Reports Q outcome := by
  match outcome with
  | .error _ | .ok (.effects none) => trivial
  | .ok (.effects (some es)) => exact hpq es h

theorem bind_eq_ok {x : Except Failure α} {f : α → Except Failure β} {b : β} :
    (x >>= f) = .ok b ↔ ∃ a, x = .ok a ∧ f a = .ok b := by
  cases x <;> simp [Bind.bind, Except.bind]

@[simp] theorem pure_eq_ok {a b : α} : (pure a : Except Failure α) = .ok b ↔ a = b := by
  simp [pure, Except.pure]

end Store

namespace Redis

section
variable {writes : List Write} {vs : List Value} {es : List Effect}

/-- The effects are those of the replies, each read as its own operation asks. -/
def Reads (writes : List Write) (vs : List Value) (es : List Effect) : Prop :=
  List.Forall₂ (fun p e => effectOf p.1 p.2 = .ok e) (writes.zip vs) es

theorem effectOf_asks {w : Write} {v : Value} {e : Effect} (h : effectOf w v = .ok e) :
    w.asks e = true := by
  cases w with
  | put key value =>
    simp only [effectOf, bind_eq_ok, pure_eq_ok] at h
    obtain ⟨previous, -, rfl⟩ := h
    rfl
  | delete key | expire key seconds =>
    simp only [effectOf, bind_eq_ok, pure_eq_ok] at h
    obtain ⟨n, -, rfl⟩ := h
    rfl

theorem reads_of_effectsOf (h : effectsOf writes vs = .ok es) : Reads writes vs es := by
  induction writes generalizing vs es with
  | nil =>
    cases h
    exact .nil
  | cons w writes ih =>
    cases vs with
    | nil =>
      cases h
      exact .nil
    | cons v vs =>
      simp only [effectsOf, bind_eq_ok, pure_eq_ok] at h
      obtain ⟨e, he, es, hes, rfl⟩ := h
      exact .cons he (ih hes)

theorem Reads.fits (h : Reads writes vs es) (hl : vs.length = writes.length) : Fits writes es := by
  induction writes generalizing vs es with
  | nil =>
    cases h
    exact .nil
  | cons w writes ih =>
    cases vs with
    | nil => cases hl
    | cons v vs =>
      cases h with
      | cons he hes => exact .cons (effectOf_asks he) (ih hes (Nat.succ.inj hl))

theorem lift_eq_ok {x : Except Fault α} {a : α} : lift x = .ok a ↔ x = .ok a := by
  cases x <;> simp [lift, Except.mapError]

theorem Value.array_of_asList {v : Value} (h : v.asList = .ok (some vs)) : v = .array vs := by
  unfold asList read at h
  split at h
  · cases h
  · cases v <;> cases h
    rfl

theorem reads_of_transacted {v : Value} (h : transacted writes v = .ok (some es)) :
    ∃ vs, v = .array vs ∧ vs.length = writes.length ∧ Reads writes vs es := by
  simp only [transacted, bind_eq_ok, lift_eq_ok] at h
  obtain ⟨listed, hv, h⟩ := h
  cases listed with
  | none => cases h
  | some vs =>
    by_cases hl : vs.length = writes.length
    · simp only [hl, ne_eq, not_true_eq_false, if_false] at h
      obtain ⟨es', hes, h⟩ := bind_eq_ok.mp h
      cases h
      exact ⟨vs, Value.array_of_asList hv, hl, reads_of_effectsOf hes⟩
    · simp only [hl, ne_eq, not_false_eq_true, if_true] at h
      cases h

theorem interpret_exec (v : Value) (writes : List Write) :
    interpret v (.exec writes) = (transacted writes v).map .effects := by
  cases h : transacted writes v <;> simp [interpret, h, Bind.bind, Except.bind, Except.map, pure,
    Except.pure]

/-- A transaction that has operations goes in one request, and its effects are read off the answer. -/
theorem goes_of_exec {lines : List (Sigma Answer)} {outcome : Outcome} {w : Write}
    (h : Goes (call (.exec (w :: writes))).run lines outcome) :
    ∃ answer : Except Fault Value,
      lines = [⟨.transaction ((w :: writes).map commandOf), answer⟩] ∧
        outcome = (lift answer >>= transacted (w :: writes)).map .effects := by
  cases h with
  | @send _ _ answer _ _ rest =>
    refine ⟨answer, ?_⟩
    cases answer with
    | error f =>
      obtain ⟨rfl, rfl⟩ := rest.of_done
      exact ⟨rfl, rfl⟩
    | ok v =>
      obtain ⟨rfl, rfl⟩ := rest.of_done
      exact ⟨rfl, interpret_exec v _⟩

/-- What is said for a transaction, and how its effects are read off it. -/
theorem reports_of_exec {lines : List (Sigma Answer)} {outcome : Outcome}
    (h : Goes (call (.exec writes)).run lines outcome) :
    Reports (fun es => Fits writes es ∧ ∃ vs : List Value, vs.length = writes.length ∧
      Reads writes vs es ∧
      (writes ≠ [] → lines = [⟨.transaction (writes.map commandOf), .ok (.array vs)⟩])) outcome := by
  cases writes with
  | nil =>
    obtain ⟨-, rfl⟩ := Goes.of_done h
    exact ⟨.nil, [], rfl, .nil, fun hne => absurd rfl hne⟩
  | cons w writes =>
    obtain ⟨answer, rfl, rfl⟩ := goes_of_exec h
    refine .of_some fun es hes => ?_
    obtain ⟨v, hv, ht⟩ := bind_eq_ok.mp hes
    obtain rfl := lift_eq_ok.mp hv
    obtain ⟨vs, rfl, hl, hr⟩ := reads_of_transacted ht
    exact ⟨hr.fits hl, vs, hl, hr, fun _ => rfl⟩

end

end Redis

namespace Etcd

/-- An expiry is no operation of its own for the server. -/
def isSent : Write → Bool
  | .put .. | .delete _ => true
  | .expire .. => false

/-- The effect that the answer to an operation tells of. -/
def OpReply.effect? : OpReply → Option Effect
  | .put previous => some (.previous (previous.map Pair.value))
  | .delete count _ => some (.count count)
  | .other _ => none

/-- Whether an operation is answered in kind. -/
def Op.takes : Op → OpReply → Bool
  | .put .., .put _ => true
  | .delete .., .delete .. => true
  | _, _ => false

/-- The effect of the write at a place: an expiry has met its key; the others have the answers in
order, whatever those answer to. -/
def effectAt? (writes : List Write) (replies : List OpReply) (i : Nat) : Option Effect :=
  writes[i]?.bind fun w =>
    if isSent w then replies[(writes.take i).countP isSent]?.bind OpReply.effect?
    else some (.count 1)

section
variable {writes : List Write} {replies : List OpReply} {es : List Effect}

/-- A write that is sent uses up an answer. -/
theorem effectsOf_sent {w : Write} (hw : isSent w = true)
    (h : effectsOf (w :: writes) replies = .ok es) :
    ∃ reply later e rest, replies = reply :: later ∧ es = e :: rest ∧ reply.effect? = some e ∧
      effectsOf writes later = .ok rest := by
  cases w with
  | expire key seconds => cases hw
  | put key value | delete key =>
    cases replies with
    | nil => cases h
    | cons reply later =>
      cases reply with
      | other shown => cases h
      | put previous | delete count previous =>
        obtain ⟨rest, hrest, h⟩ := bind_eq_ok.mp h
        cases h
        exact ⟨_, later, _, rest, rfl, rfl, rfl, hrest⟩

theorem effectsOf_expire {key : Bytes} {seconds : Nat}
    (h : effectsOf (.expire key seconds :: writes) replies = .ok es) :
    ∃ rest, es = .count 1 :: rest ∧ effectsOf writes replies = .ok rest := by
  obtain ⟨rest, hrest, h⟩ := bind_eq_ok.mp h
  cases h
  exact ⟨rest, rfl, hrest⟩

theorem effectAt?_succ (w : Write) (writes : List Write) (i : Nat) :
    effectAt? (w :: writes) replies (i + 1) =
      effectAt? writes (replies.drop (if isSent w then 1 else 0)) i := by
  cases hw : isSent w <;> simp [effectAt?, hw]

/-- Whatever the answers are, no effect is missing, doubled or moved. -/
theorem effectAt?_of_effectsOf (h : effectsOf writes replies = .ok es) :
    es.length = writes.length ∧ ∀ i < writes.length, es[i]? = effectAt? writes replies i := by
  induction writes generalizing replies es with
  | nil =>
    cases h
    exact ⟨rfl, by simp⟩
  | cons w writes ih =>
    cases w with
    | put key value | delete key =>
      obtain ⟨reply, later, e, rest, rfl, rfl, he, hrest⟩ := effectsOf_sent rfl h
      obtain ⟨hl, hat⟩ := ih hrest
      refine ⟨congrArg Nat.succ hl, fun i hi => ?_⟩
      cases i with
      | zero => exact he.symm
      | succ i =>
        rw [effectAt?_succ]
        exact hat i (Nat.lt_of_succ_lt_succ hi)
    | expire key seconds =>
      obtain ⟨rest, rfl, hrest⟩ := effectsOf_expire h
      obtain ⟨hl, hat⟩ := ih hrest
      refine ⟨congrArg Nat.succ hl, fun i hi => ?_⟩
      cases i with
      | zero => rfl
      | succ i =>
        rw [effectAt?_succ]
        exact hat i (Nat.lt_of_succ_lt_succ hi)

theorem asks_eq_takes {w : Write} {op : Op} {leases : Table Bytes Int}
    (hop : opOf? leases w = some op) {reply : OpReply} {e : Effect} (he : reply.effect? = some e) :
    w.asks e = op.takes reply := by
  cases w with
  | expire key seconds => cases hop
  | put key value | delete key =>
    cases hop
    cases reply with
    | other shown => cases he
    | put previous | delete count previous =>
      cases he
      rfl

/-- The effects are of the kinds that are asked for exactly if each operation is answered in
kind. -/
theorem fits_iff_takes (h : effectsOf writes replies = .ok es) (leases : Table Bytes Int) :
    Fits writes es ↔ List.Forall₂ (fun op reply => op.takes reply = true)
      (writes.filterMap (opOf? leases))
      (replies.take (writes.filterMap (opOf? leases)).length) := by
  induction writes generalizing replies es with
  | nil =>
    cases h
    exact iff_of_true .nil .nil
  | cons w writes ih =>
    cases hop : opOf? leases w with
    | some op =>
      have hw : isSent w = true := by
        cases w with
        | expire key seconds => cases hop
        | _ => rfl
      obtain ⟨reply, later, e, rest, rfl, rfl, he, hrest⟩ := effectsOf_sent hw h
      rw [Fits, List.forall₂_cons, asks_eq_takes hop he, List.filterMap_cons_some hop,
        List.length_cons, List.take_succ_cons, List.forall₂_cons, ← ih hrest]
    | none =>
      cases w with
      | expire key seconds =>
        obtain ⟨rest, rfl, hrest⟩ := effectsOf_expire h
        rw [Fits, List.forall₂_cons, List.filterMap_cons_none hop, ← ih hrest]
        exact and_iff_right rfl
      | _ => cases hop

/-- What is carried out of a transaction, and how its effects are read off the answers. -/
theorem reports_of_exec {c c' : Connection} {lines : List (Sigma Answer)} {outcome : Outcome}
    (h : Goes (c.call (.exec writes)) lines (c', outcome)) :
    Reports (fun es => ∃ leases replies,
      commits lines = [(writes.filterMap (opOf? leases), replies)] ∧
      effectsOf writes replies = .ok es) outcome := by
  obtain ⟨result, rfl, hexec⟩ := Talk.of_map (goes_of_same h).2
  refine .of_some fun es hes => ?_
  subst hes
  rcases goes_of_exec hexec with ⟨e, he, -⟩ | ⟨leases, granting, settling, answer, rfl, hg, hs, he⟩
  · cases he
  · rw [commits_of_settles (goes_of_grantLeases hg) hs]
    cases answer with
    | error f => cases he
    | ok reply =>
      cases hr : reply.succeeded with
      | false => simp [hr] at he
      | true =>
        refine ⟨leases, reply.replies, by simp [commitOf, hr], ?_⟩
        cases hes : effectsOf writes reply.replies <;> simp_all [Except.map]

end
end Etcd

section
variable (writes : List Write)

/-- What a transaction answers has one effect for each operation, in order. With a Redis server it
fits, since each reply is read as its operation asks. With an etcd server the replies are read as
they come, and it fits exactly if the server has answered each operation in kind. -/
theorem effects_fit_iff :
    (∀ reply : List (Sigma Redis.Answer) → (r : Redis.Request) → Redis.Answer r,
      Reports (fun es => Fits writes es ∧ ∃ vs : List Redis.Value, vs.length = writes.length ∧
        Redis.Reads writes vs es ∧
        (writes ≠ [] → spoken reply (Redis.call (.exec writes)).run =
          [⟨.transaction (writes.map Redis.commandOf), .ok (.array vs)⟩]))
        ((Redis.call (.exec writes)).run.run (speak reply) []).2.2) ∧
    ∀ (reply : List (Sigma Etcd.Answer) → (r : Etcd.Request) → Etcd.Answer r)
      (c : Etcd.Connection),
      Reports (fun es => ∃ leases replies,
        Etcd.commits (spoken reply (c.call (.exec writes))) =
          [(writes.filterMap (Etcd.opOf? leases), replies)] ∧
        es.length = writes.length ∧
        (∀ i < writes.length, es[i]? = Etcd.effectAt? writes replies i) ∧
        (Fits writes es ↔ List.Forall₂ (fun op reply => op.takes reply = true)
          (writes.filterMap (Etcd.opOf? leases))
          (replies.take (writes.filterMap (Etcd.opOf? leases)).length)))
        ((c.call (.exec writes)).run (speak reply) []).2.2.2 := by
  constructor
  · intro reply
    exact Redis.reports_of_exec (goes_of_speak reply _)
  · intro reply c
    refine (Etcd.reports_of_exec (goes_of_speak reply _)).mono fun es hes => ?_
    obtain ⟨leases, replies, hcommits, he⟩ := hes
    obtain ⟨hlength, hat⟩ := Etcd.effectAt?_of_effectsOf he
    exact ⟨leases, replies, hcommits, hlength, hat, Etcd.fits_iff_takes he leases⟩

end

namespace Etcd

/-- A server that grants leases and carries out every transaction, but answers each operation as
though it had been of the other kind. -/
def contrary (_ : List (Sigma Answer)) : (r : Request) → Answer r
  | .txn _ ops => .ok ⟨true, ops.map fun
    | .put .. => .delete 1 []
    | .delete .. => .put none⟩
  | .grant _ => .ok 1
  | .range _ => .ok []
  | .revoke _ | .status => .ok ()
  | .authenticate _ => .ok ""

/-- Writes a key, gives it an expiry, and deletes it again. -/
def passing : List Write := [.put [107] [118], .expire [107] 5, .delete [107]]

theorem effects_of_wrong_kind :
    (((Connection.call {} (.exec passing)).run (speak contrary) []).2.2.2 =
      .ok (.effects (some [.count 1, .count 1, .previous none]))) ∧
    ¬ Fits passing [.count 1, .count 1, .previous none] := by
  decide

end Etcd
end Holdfast
