import Holdfast.Proofs.Watching.Contract

namespace Holdfast.Memory

/-- The last watch of a connection since its watches last ended: the key, whether it was there, and
what has happened from that watch on. -/
def latest? (id : Nat) : List Happening → Option (Bytes × Bool × List Happening)
  | [] => none
  | e :: es =>
    if e.concerns id then
      match e with
      | .watched _ key present => some (key, present, [])
      | .cleared _ | .touched _ | .lapsed _ => none
    else (latest? id es).map fun (key, present, later) => (key, present, e :: later)

section
variable {id : Nat} {es : List Happening}

theorem latest?_quiet {new : List Happening} (h : ∀ e ∈ new, e.concerns id = false) :
    latest? id (new ++ es) = (latest? id es).map fun (key, present, later) =>
      (key, present, new ++ later) := by
  induction new with
  | nil => simp
  | cons e new ih =>
    have he := h e List.mem_cons_self
    have hrest := ih fun e he => h e (List.mem_cons_of_mem _ he)
    simp only [List.cons_append, latest?, he, Bool.false_eq_true, if_false, hrest, Option.map_map]
    rfl

@[simp] theorem latest?_cleared : latest? id (.cleared id :: es) = none := by
  simp [latest?, Happening.concerns]

@[simp] theorem latest?_watched (key : Bytes) (present : Bool) :
    latest? id (.watched id key present :: es) = some (key, present, []) := by
  simp [latest?, Happening.concerns]

/-- A connection has one watch at most: what its last watch tells is all there is. -/
def Single (id : Nat) (es : List Happening) : Prop :=
  ∀ key present later, since? id key es = some (present, later) ↔
    latest? id es = some (key, present, later)

namespace Single

theorem nil : Single id [] := by
  intro key present later
  simp [since?, latest?]

theorem cleared : Single id (.cleared id :: es) := by
  intro key present later
  simp

theorem quiet {new : List Happening} (h : Single id es) (hq : ∀ e ∈ new, e.concerns id = false) :
    Single id (new ++ es) := by
  intro key present later
  rw [since?_quiet hq, latest?_quiet hq]
  constructor
  · intro hs
    obtain ⟨⟨p, l⟩, hold, he⟩ := Option.map_eq_some_iff.mp hs
    cases he
    rw [(h _ _ _).mp hold]
    rfl
  · intro hl
    obtain ⟨⟨k, p, l⟩, hold, he⟩ := Option.map_eq_some_iff.mp hl
    cases he
    rw [(h _ _ _).mpr hold]
    rfl

theorem watched (h : Single id es) (hnone : latest? id es = none) (key : Bytes) (present : Bool) :
    Single id (.watched id key present :: es) := by
  intro k p later
  have hold : since? id k es = none := by
    cases hs : since? id k es with
    | none => rfl
    | some old =>
      rw [(h k old.1 old.2).mp hs] at hnone
      cases hnone
  simp [since?, hold, eq_comm]

end Single
end

namespace Scene

/-- The last watch of a connection is broken, whatever it watched before. -/
def LatestBroken (w : Scene) (id : Nat) : Prop :=
  ∃ key present later, latest? id w.history = some (key, present, later) ∧
    (.touched key ∈ later ∨ .lapsed key ∈ later) ∧
    (present = true ∨ (w.server.node.live? w.now key).isSome = true)

/-- A connection that begins no watch while another is under way has one at most. -/
theorem single_of_act {w w' : Scene} {m : Board.Move} {id : Nat} (h : Single id w.history)
    (hm : w.act m = some w') (hs : ∀ key, m = .call id (.watch key) → latest? id w.history = none) :
    Single id w'.history := by
  cases m with
  | connect =>
    obtain ⟨c, -, rfl⟩ := connect_of_act hm
    exact h
  | call i r =>
    obtain ⟨c, hc, rfl⟩ := call_of_act hm
    by_cases hi : i = id
    · subst hi
      rcases c.call_watches w.server w.now i r with ⟨-, hnone⟩ | ⟨key, rfl, hcall⟩ | ⟨-, hends⟩
      · rw [hnone]
        exact h.quiet (concerns_touched _ i)
      · rw [hcall]
        exact h.watched (hs key rfl) key _
      · rw [hends]
        exact .cleared
    · exact h.quiet (concerns_of_call hi)
  | write key value =>
    cases hm
    exact h.quiet (concerns_touched [key] id)
  | age ms =>
    cases hm
    exact h.quiet (List.forall_mem_map.mpr fun _ _ => rfl)
  | read | reach =>
    cases hm
    exact h

theorem broken_iff_of_single {w : Scene} {id : Nat} (h : Single id w.history) :
    w.Broken id ↔ w.LatestBroken id := by
  unfold Broken LatestBroken
  simp only [h _ _ _]

end Scene
end Holdfast.Memory
