import Holdfast.Proofs.Contention.Reachable

namespace Holdfast

open Store Lock Memory

/-- The event with which a talk that is over goes into the history. -/
def Lock.Talk.report? (id : Nat) : Talk → Option Contention.Event
  | attempt { phase := .over r, .. } => some (.returned id r)
  | release { handle, phase := .over r } => some (.released id handle r)
  | _ => none

namespace Contention

/-- Whose call, failure or end a move is. -/
def Move.actor? : Move → Option Nat
  | call id _ | fail id _ | drop id => some id
  | _ => none

@[simp] theorem World.restore_inherited (w : World) (l : Loan Connection) :
    (w.restore l).inherited = w.inherited := by
  unfold restore; split <;> rfl

theorem dismiss_eq (w : World) (id : Nat) (p : Party) : ∃ l handles, w.dismiss id p =
    { World.restore { w with parties := w.parties.erase id } l with
      handles, history := (p.talk.report? id).toList ++ w.history } := by
  unfold World.dismiss
  dsimp only
  generalize (if p.talk.hasFailed then p.loan.markBroken else p.loan) = l
  generalize p.talk = talk
  refine ⟨l, ?_⟩
  have hhistory : (World.restore { w with parties := w.parties.erase id } l).history = w.history :=
    World.restore_history _ l
  generalize World.restore { w with parties := w.parties.erase id } l = u at hhistory ⊢
  rw [← hhistory]
  cases talk with
  | attempt a =>
    obtain ⟨_, _, phase⟩ := a
    match phase with
    | .over r => exact ⟨World.gained r ++ u.handles, rfl⟩
    | .creating _ | .expiring _ | .watching | .reading | .yielding | .retrying | .seizing .. =>
      exact ⟨u.handles, rfl⟩
  | release r =>
    obtain ⟨_, phase⟩ := r
    cases phase <;> exact ⟨u.handles, rfl⟩
  | probe q => exact ⟨u.handles, rfl⟩

namespace World

variable {start : Option Bytes} {w w' : World}

/-- Who hears an outcome has called the store, which is now as it has left it, and noted its deed. -/
structure Heard (w w' : World) (id : Nat) (p : Party) (o : Outcome) (next : Talk)
    (c : Connection) : Prop where
  party : w.parties.get? id = some p
  resumed : ∃ m, next = p.talk.resume m o
  answers : Answers w.key w.server.node w.now p.loan.conn p.talk w'.server.node c o
  now : w'.now = w.now
  name : w'.name = w.name
  inherited : w'.inherited = w.inherited
  nextId : w'.nextId = w.nextId
  others : ∀ j, j ≠ id → w'.parties.get? j = w.parties.get? j

/-- What one move makes of a world. -/
inductive Stepped (w : World) : Move → World → Prop
  /-- Nobody's turn. -/
  | passed {m : Move} {server : Server} {now clock : Nat} (new : List Event)
      (nobody : m.actor? = none) (lapses : ∀ e ∈ new, ∃ b, e = .lapsed b) :
      Stepped w m { w with server, now, clock, history := new ++ w.history }
  | joined {m : Move} {idle : List Connection} {handles : List Handle} {talk : Talk}
      {conn : Connection} {new : List Event} (nobody : m.actor? = none)
      (unwatched : conn.watched = []) (draws : ∀ e ∈ new, ∃ t, e = .drew w.nextId t) :
      Stepped w m { w with
        idle, handles
        history := new ++ w.history
        parties := w.parties.set w.nextId { talk, loan := { conn } }
        nextId := w.nextId + 1 }
  /-- A slow read begins. -/
  | waits {id : Nat} {owner : BitVec 128} {p : Party} {k : Bytes}
      (party : w.parties.get? id = some p) : Stepped w (.call id owner)
        { w with parties := w.parties.set id { p with reading := some k } }
  | goes {m : Move} {id : Nat} {p p' : Party} {o : Outcome} {w' : World} {new : List Event}
      (actor : m.actor? = some id) (heard : w.Heard w' id p o p'.talk p'.loan.conn)
      (active : p'.talk.call? ≠ none) (draws : ∀ e ∈ new, ∃ t, e = .drew id t)
      (history : w'.history = new ++ ((p.deed? id w.stored o).toList ++ w.history))
      (parties : w'.parties.get? id = some p') : Stepped w m w'
  | ends {m : Move} {id : Nat} {p : Party} {talk : Talk} {c : Connection} {o : Outcome}
      {w' : World} (actor : m.actor? = some id) (heard : w.Heard w' id p o talk c)
      (ended : talk.call? = none)
      (history : w'.history =
        (talk.report? id).toList ++ ((p.deed? id w.stored o).toList ++ w.history))
      (parties : w'.parties.get? id = none) : Stepped w m w'
  | dropped {id : Nat} {p : Party} (party : w.parties.get? id = some p) :
      Stepped w (.drop id) (restore { w with parties := w.parties.erase id } p.loan)

theorem Hears.stepped {move : Move} {id : Nat} {p : Party} {m : Moment} {o : Outcome}
    (hactor : move.actor? = some id) (hh : w.Hears w' id p m o) : w.Stepped move w' := by
  obtain ⟨-, hp, request, s, c, -, ha, hhear⟩ := hh
  simp only [World.hear, Party.hear] at hhear
  split at hhear
  · next hover =>
    cases hhear
    obtain ⟨l, handles, heq⟩ := dismiss_eq { w with
      server := s, history := (p.deed? id w.stored o).toList ++ w.history } id _
    rw [heq]
    refine .ends (c := c) hactor ⟨hp, ⟨_, rfl⟩, ?_, ?_, ?_, ?_, ?_, ?_⟩ hover rfl ?_
    · simpa using ha
    · simp
    · simp
    · simp
    · simp
    · intro j hne
      simp [Table.get?_erase_ne _ hne]
    · simp
  · next next hcall =>
    obtain ⟨w₁, hd, rfl⟩ := Option.map_eq_some_iff.mp hhear
    obtain ⟨new, hdraws, rfl⟩ := World.draw_cases hd
    refine .goes hactor ⟨hp, ⟨_, rfl⟩, ?_, rfl, rfl, rfl, rfl, ?_⟩ (by simp [hcall]) ?_ rfl
      (Table.get?_set_self ..)
    · rw [Loan.conn_after]
      exact ha
    · intro j hne
      exact Table.get?_set_ne _ _ hne
    · intro e he
      rcases hdraws.fresh with rfl | ⟨t, rfl, -⟩
      · cases he
      · exact ⟨t, List.mem_singleton.mp he⟩

theorem join_stepped {move : Move} (hactor : move.actor? = none) {idle : Option Nat} {talk : Talk}
    (handles : List Handle) (hi : ∀ c ∈ w.idle, c.watched = [])
    (hj : World.join { w with handles } idle talk = some w') : w.Stepped move w' := by
  simp only [World.join, Option.bind_eq_bind, Option.bind_eq_some_iff, Option.pure_def,
    Option.some.injEq, Prod.exists] at hj
  obtain ⟨w₁, c, hb, w₂, hd, rfl⟩ := hj
  obtain ⟨rest, rfl, -, hc⟩ := World.borrow_cases hb hi
  obtain ⟨new, hdraws, rfl⟩ := World.draw_cases hd
  refine .joined hactor hc ?_
  intro e he
  rcases hdraws.fresh with rfl | ⟨t, rfl, -⟩
  · cases he
  · exact ⟨t, List.mem_singleton.mp he⟩

theorem join_server {idle : Option Nat} {talk : Talk} (hi : ∀ c ∈ w.idle, c.watched = [])
    (hj : w.join idle talk = some w') : w'.server = w.server := by
  simp only [World.join, Option.bind_eq_bind, Option.bind_eq_some_iff, Option.pure_def,
    Option.some.injEq, Prod.exists] at hj
  obtain ⟨w₁, c, hb, w₂, hd, rfl⟩ := hj
  obtain ⟨rest, rfl, -, -⟩ := World.borrow_cases hb hi
  obtain ⟨new, -, rfl⟩ := World.draw_cases hd
  rfl

/-- Everything that a move can do. -/
theorem Sound.stepped (h : w.Sound start) {move : Move} (hm : w.act move = some w') :
    w.Stepped move w' := by
  cases move with
  | tick ms => cases hm; exact .passed [] rfl (by simp)
  | reach up => cases hm; exact .passed [] rfl (by simp)
  | age ms =>
    cases hm
    simp only [World.age]
    split
    · next value _ _ => exact .passed [.lapsed value] rfl (by simp)
    · exact .passed [] rfl (by simp)
  | elsewhere c request =>
    simp only [World.act, Option.ite_none_right_eq_some, Option.some.injEq] at hm
    obtain ⟨-, rfl⟩ := hm
    exact .passed [] rfl (by simp)
  | attempt o idle owner =>
    simp only [World.act] at hm
    split at hm
    · exact join_stepped rfl w.handles h.idle hm
    · cases hm
  | release hd idle =>
    simp only [World.act, Option.ite_none_right_eq_some] at hm
    exact join_stepped rfl _ h.idle hm.2
  | probe idle => exact join_stepped rfl w.handles h.idle hm
  | call id owner =>
    rcases h.call_cases hm with ⟨p, m, o, hh⟩ | ⟨p, k, hp, -, rfl⟩
    · exact hh.stepped rfl
    · exact .waits hp
  | fail id f =>
    obtain ⟨p, m, hh⟩ := fail_hears hm
    exact hh.stepped rfl
  | drop id =>
    simp only [World.act, Option.bind_eq_bind, Option.bind_eq_some_iff, Option.pure_def,
      Option.some.injEq] at hm
    obtain ⟨p, hp, rfl⟩ := hm
    exact .dropped hp

end World
end Contention
end Holdfast
