import Holdfast.Deployment.Errand
import Holdfast.Proofs.Contention.World

namespace Holdfast.Contention

open Store Memory

/-- The errand of a deployment that is at the same point of its talk as a party. -/
def Party.errand (p : Party) (pool : Nat) (flight : Option Flight) : Errand :=
  .talking ⟨pool, ⟨.memory p.loan.conn, p.loan.isBroken, p.loan.isWatching⟩⟩ flight p.talk

variable {d : Deployment} {c : Cluster} {p : Party} {s : Server} {request : Call}

/-- An errand sends the call that its party makes, to the same effect. -/
theorem errand_asks (hd : d.stores = .cluster c)
    (hs : c.servers.get? p.loan.conn.endpoint = some s) (hr : p.talk.call? = some request)
    (hread : p.reading = none) (pool : Nat) :
    ∃ asked s' o flight, p.ask s Deployment.storeClock request = (asked, s', o) ∧
      d.stepErrand (p.errand pool none) = some ({ d with
        stores := .cluster { c with servers := c.servers.set p.loan.conn.endpoint s' } },
        asked.errand pool (some flight)) ∧
      (∀ o', o = some o' → flight = .reply d.now o') ∧
      (o = none → ∃ ms key, asked.reading = some key ∧
        flight = .read (d.now + ms) p.loan.conn.endpoint key) := by
  have hconn : (p.loan.before request).conn = p.loan.conn := by cases request <;> rfl
  have hend := (p.loan.conn.call_stays s Deployment.storeClock request).2.1
  rcases hcall : p.loan.conn.call s Deployment.storeClock request with ⟨conn, s', answer⟩
  rw [hcall] at hend
  have hend' : conn.endpoint = p.loan.conn.endpoint := hend
  cases answer with
  | now o =>
    refine ⟨{ p with loan := { p.loan.before request with conn } }, s', some o, .reply d.now o,
      ?_, ?_, ?_, ?_⟩
    · simp only [Party.ask, hread, hconn, hcall]
    · cases request <;> simp [Party.errand, Deployment.stepErrand, hr, Deployment.send, hd,
        Cluster.call, hs, hcall, Loan.before, hend']
    · intro o' ho
      cases ho
      rfl
    · intro ho
      cases ho
  | readAfter ms key =>
    refine ⟨{ p with loan := { p.loan.before request with conn }, reading := some key }, s', none,
      .read (d.now + ms) conn.endpoint key, ?_, ?_, ?_, ?_⟩
    · simp only [Party.ask, hread, hconn, hcall]
    · cases request <;> simp [Party.errand, Deployment.stepErrand, hr, Deployment.send, hd,
        Cluster.call, hs, hcall, Loan.before, hend']
    · intro o' ho
      cases ho
    · intro _
      exact ⟨ms, key, rfl, by rw [hend']⟩

theorem Party.hear_errand (m : Lock.Moment) (request : Call) (o : Outcome) (pool : Nat) :
    (p.hear m request o).errand pool none = .talking ⟨pool,
      (⟨.memory p.loan.conn, p.loan.isBroken, p.loan.isWatching⟩ : Loan Link).after request o⟩ none
      (p.talk.resume m o) := by
  unfold Party.errand Party.hear Loan.after
  split <;> rfl

theorem errand_hears (hr : p.talk.call? = some request) {due : Nat} (hdue : due ≤ d.now)
    (o : Outcome) (pool : Nat) :
    d.stepErrand (p.errand pool (some (.reply due o))) =
      some (d.spendOwner, (p.hear d.moment request o).errand pool none) := by
  have hlanded : d.hasLanded (.reply due o) = true := decide_eq_true hdue
  rw [Party.hear_errand]
  simp only [Party.errand, Deployment.stepErrand, hlanded, if_true, hr, Deployment.outcome]

theorem errand_hears_read (hd : d.stores = .cluster c) {e : Endpoint}
    (hs : c.servers.get? e = some s) (hr : p.talk.call? = some request) {due : Nat}
    (hdue : due ≤ d.now) {key : Bytes} (hread : p.reading = some key) (pool : Nat) :
    ∃ asked o, p.ask s Deployment.storeClock request = (asked, s, some o) ∧
      d.stepErrand (p.errand pool (some (.read due e key))) =
        some (d.spendOwner, (asked.hear d.moment request o).errand pool none) := by
  have hlanded : d.hasLanded (.read due e key) = true := decide_eq_true hdue
  refine ⟨{ p with reading := none }, .ok (.value (s.node.value? Deployment.storeClock key)),
    ?_, ?_⟩
  · simp only [Party.ask, hread]
  · rw [Party.hear_errand]
    simp only [Party.errand, Deployment.stepErrand, hlanded, if_true, hr, Deployment.outcome, hd,
      Cluster.read, hs, Option.bind_some]

end Holdfast.Contention
