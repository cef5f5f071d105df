import Holdfast.Proofs.Pool.Crowd
import Mathlib.Data.List.Nodup

namespace Holdfast

open Store

variable {κ : Type}

namespace Checkout

/-- How many connections a checkout has in hand, is opening or has brought. -/
def bound : Checkout κ → Nat
  | .testing _ | .opening | .over (.ok _) => 1
  | .queued .. | .over (.error _) => 0

def ticket? : Checkout κ → Option Nat
  | .queued ticket _ => some ticket
  | .testing _ | .opening | .over _ => none

@[simp] theorem bound_choose (p : Pool κ) : (choose p).2.bound = 1 := by
  rcases choose_cases p with ⟨-, h⟩ | ⟨conn, rest, -, h⟩
  · rw [h]; rfl
  · rw [h]
    dsimp only
    split <;> rfl

@[simp] theorem ticket?_choose (p : Pool κ) : (choose p).2.ticket? = none := by
  rcases choose_cases p with ⟨-, h⟩ | ⟨conn, rest, -, h⟩
  · rw [h]; rfl
  · rw [h]
    dsimp only
    split <;> rfl

end Checkout

namespace Pool

open Checkout

namespace Visit

/-- How many connections a caller has in hand, or is opening. -/
def bound : Visit κ → Nat
  | .resting c => c.bound
  | .returning _ => 1
  | .asking | .admitted | .parting | .gone => 0

/-- How many permits it has without a connection. -/
def bare : Visit κ → Nat
  | .admitted | .parting => 1
  | .asking | .resting _ | .returning _ | .gone => 0

def ticket? : Visit κ → Option Nat
  | .resting c => c.ticket?
  | .asking | .admitted | .returning _ | .parting | .gone => none

end Visit

/-- A pool of `limit` permits, of which `bound` are out with a connection each and `bare` without
one. Each idle connection is covered by a permit that is free, ready for the queue, or bare. -/
structure Balanced (p : Pool κ) (limit keep bound bare : Nat) : Prop where
  permits : p.free + p.granted.length + bare + bound = limit
  covered : p.idle.length ≤ p.free + p.granted.length + bare
  capped : p.idle.length ≤ keep
  keeps : p.maxIdle = keep

namespace Balanced

variable {p p' : Pool κ} {limit keep bound bare : Nat}

theorem new (e : Endpoint) (o : PoolOptions) (b : Backend) :
    (Pool.new e o b : Pool κ).Balanced (Pool.limit o) o.maxIdle.toNat 0 0 :=
  ⟨rfl, Nat.zero_le _, Nat.zero_le _, rfl⟩

theorem giveBack (h : p.Balanced limit keep bound (bare + 1)) :
    p.giveBack.Balanced limit keep bound bare := by
  have hpermits := h.permits
  have hcovered := h.covered
  unfold Pool.giveBack
  split
  · refine ⟨?_, ?_, h.capped, h.keeps⟩ <;> dsimp only <;> omega
  · refine ⟨?_, ?_, h.capped, h.keeps⟩ <;> simp only [List.length_append,
      List.length_singleton] <;> omega

theorem letGo (h : p.Balanced limit keep (bound + 1) bare) :
    p.Balanced limit keep bound (bare + 1) := by
  have hpermits := h.permits
  have hcovered := h.covered
  exact ⟨by omega, by omega, h.capped, h.keeps⟩

theorem put (h : p.Balanced limit keep (bound + 1) bare) (conn : κ) :
    (p.keep conn).Balanced limit keep bound (bare + 1) := by
  have hpermits := h.permits
  have hcovered := h.covered
  unfold Pool.keep
  split
  · next hroom =>
    rw [h.keeps] at hroom
    refine ⟨by dsimp only; omega, ?_, hroom, h.keeps⟩
    simp only [List.length_cons]
    omega
  · exact h.letGo

theorem choose (h : p.Balanced limit keep bound (bare + 1)) :
    (choose p).1.Balanced limit keep (bound + 1) bare := by
  have hpermits := h.permits
  have hcovered := h.covered
  have hcapped := h.capped
  rcases choose_cases p with ⟨hidle, heq⟩ | ⟨conn, rest, hidle, heq⟩
  · rw [heq]
    refine ⟨by dsimp only; omega, ?_, hcapped, h.keeps⟩
    simp [hidle]
  · rw [heq]
    rw [hidle, List.length_cons] at hcovered hcapped
    exact ⟨by dsimp only; omega, by dsimp only; omega, by dsimp only; omega, h.keeps⟩

/-- A permit that lay ready for the queue is taken. -/
theorem ungrant (h : p.Balanced limit keep bound bare) {ticket : Nat} (ht : ticket ∈ p.granted) :
    Balanced { p with granted := p.granted.erase ticket } limit keep bound (bare + 1) := by
  have hpermits := h.permits
  have hcovered := h.covered
  have hlength := List.length_erase_of_mem ht
  have hpos := List.length_pos_of_mem ht
  exact ⟨by dsimp only; omega, by dsimp only; omega, h.capped, h.keeps⟩

theorem withdraw (h : p.Balanced limit keep bound bare) (ticket : Nat) :
    (p.withdraw ticket).Balanced limit keep bound bare := by
  unfold Pool.withdraw
  split
  · next ht => exact (h.ungrant ht).giveBack
  · exact ⟨h.permits, h.covered, h.capped, h.keeps⟩

theorem drain (h : p.Balanced limit keep bound bare) : p.drain.Balanced limit keep bound bare :=
  ⟨h.permits, Nat.zero_le _, Nat.zero_le _, h.keeps⟩

/-- Whatever a caller does, the permits still add up. -/
theorem passes {now : Nat} {v v' : Visit κ} (hp : Passes p now v p' v')
    (h : p.Balanced limit keep (bound + v.bound) (bare + v.bare)) :
    p'.Balanced limit keep (bound + v'.bound) (bare + v'.bare) := by
  cases hp with
  | refused => exact h
  | admitted hfree =>
    have hpermits := h.permits
    have hcovered := h.covered
    simp only [Visit.bound, Visit.bare] at hpermits hcovered ⊢
    exact ⟨by dsimp only; omega, by dsimp only; omega, h.capped, h.keeps⟩
  | queued => exact ⟨h.permits, h.covered, h.capped, h.keeps⟩
  | dismissed ticket => exact h.withdraw ticket
  | granted _ ht => exact h.ungrant ht
  | chose =>
    rw [Visit.bound, bound_choose]
    exact h.choose
  | pinged => exact h
  | answered => exact h
  | evicted => exact h.letGo
  | dialled => exact h
  | failed => exact h.letGo.giveBack
  | used => exact h
  | returns => exact h
  | discards => exact h.letGo
  | kept conn => exact h.put conn
  | parted => exact h.giveBack
  | withdrew ticket => exact h.withdraw ticket
  | gaveUp c hc =>
    rcases hc with ⟨conn, rfl⟩ | rfl
    · exact h.letGo.giveBack
    · exact h.letGo.giveBack
  | left => exact h

end Balanced

/-- A pool whose queue, with the permits that lie ready for it, is made up of callers that hold the
given tickets, each of its own. -/
structure Line (p : Pool κ) (tickets : List Nat) : Prop where
  drawn : tickets.Nodup
  before : ∀ t ∈ tickets, t < p.nextTicket
  nodup : (p.waiting ++ p.granted).Nodup
  queued : ∀ t ∈ p.waiting ++ p.granted, t ∈ tickets

namespace Line

variable {p p' : Pool κ} {tickets : List Nat} {ticket : Nat}

theorem new (e : Endpoint) (o : PoolOptions) (b : Backend) : (Pool.new e o b : Pool κ).Line [] :=
  ⟨List.nodup_nil, by simp, List.nodup_nil, by simp [Pool.new]⟩

theorem perm {tickets' : List Nat} (h : p.Line tickets) (hp : tickets.Perm tickets') :
    p.Line tickets' :=
  ⟨hp.nodup_iff.mp h.drawn, fun t ht => h.before t (hp.mem_iff.mpr ht), h.nodup,
    fun t ht => hp.mem_iff.mp (h.queued t ht)⟩

/-- The order in the queue, and who of it has a permit ready, is all the same. -/
theorem shift (h : p.Line tickets) (hnext : p'.nextTicket = p.nextTicket)
    (hline : (p'.waiting ++ p'.granted).Perm (p.waiting ++ p.granted)) : p'.Line tickets :=
  ⟨h.drawn, fun t ht => hnext ▸ h.before t ht, hline.nodup_iff.mpr h.nodup,
    fun t ht => h.queued t (hline.mem_iff.mp ht)⟩

theorem giveBack (h : p.Line tickets) : p.giveBack.Line tickets := by
  unfold Pool.giveBack
  split
  · exact ⟨h.drawn, h.before, h.nodup, h.queued⟩
  · next first rest hw =>
    refine h.shift rfl ?_
    rw [hw, ← List.append_assoc]
    exact List.perm_append_singleton first (rest ++ p.granted)

/-- Who leaves the queue takes its ticket along. -/
theorem without (h : p.Line (ticket :: tickets)) (hnext : p'.nextTicket = p.nextTicket)
    (hline : (p'.waiting ++ p'.granted).Perm ((p.waiting ++ p.granted).erase ticket)) :
    p'.Line tickets := by
  refine ⟨(List.nodup_cons.mp h.drawn).2, ?_, ?_, ?_⟩
  · intro t ht
    rw [hnext]
    exact h.before t (List.mem_cons_of_mem _ ht)
  · exact hline.nodup_iff.mpr (h.nodup.erase ticket)
  · intro t ht
    obtain ⟨hne, hmem⟩ := h.nodup.mem_erase_iff.mp (hline.mem_iff.mp ht)
    exact (List.mem_cons.mp (h.queued t hmem)).resolve_left hne

theorem ungrant (h : p.Line (ticket :: tickets)) (ht : ticket ∈ p.granted) :
    Line { p with granted := p.granted.erase ticket } tickets := by
  have hout : ticket ∉ p.waiting := fun hw => List.disjoint_of_nodup_append h.nodup hw ht
  refine h.without rfl ?_
  rw [List.erase_append_right _ hout]

theorem withdraw (h : p.Line (ticket :: tickets)) : (p.withdraw ticket).Line tickets := by
  unfold Pool.withdraw
  split
  · next ht => exact (h.ungrant ht).giveBack
  · next ht =>
    refine h.without rfl ?_
    by_cases hw : ticket ∈ p.waiting
    · rw [List.erase_append_left _ hw]
    · rw [List.erase_append_right _ hw, List.erase_of_not_mem hw, List.erase_of_not_mem ht]

theorem closePermits (h : p.Line tickets) : p.closePermits.Line tickets :=
  ⟨h.drawn, h.before, (List.nodup_append.mp h.nodup).2.1,
    fun t ht => h.queued t (List.mem_append_right _ ht)⟩

theorem join (h : p.Line tickets) :
    Line { p with waiting := p.waiting ++ [p.nextTicket], nextTicket := p.nextTicket + 1 }
      (p.nextTicket :: tickets) := by
  have hnew : p.nextTicket ∉ tickets := fun ht => Nat.lt_irrefl _ (h.before _ ht)
  have hperm : (p.waiting ++ [p.nextTicket] ++ p.granted).Perm
      (p.nextTicket :: (p.waiting ++ p.granted)) := by
    rw [List.append_assoc]
    exact List.perm_middle
  refine ⟨List.nodup_cons.mpr ⟨hnew, h.drawn⟩, ?_, ?_, ?_⟩
  · intro t ht
    rcases List.mem_cons.mp ht with rfl | ht
    · exact Nat.lt_succ_self _
    · exact Nat.lt_succ_of_lt (h.before t ht)
  · exact hperm.nodup_iff.mpr (List.nodup_cons.mpr ⟨fun ht => hnew (h.queued _ ht), h.nodup⟩)
  · intro t ht
    rcases List.mem_cons.mp (hperm.mem_iff.mp ht) with rfl | ht
    · exact List.mem_cons_self
    · exact List.mem_cons_of_mem _ (h.queued t ht)

/-- Whatever a caller does, the queue is made up of callers. -/
theorem passes {now : Nat} {v v' : Visit κ} (hp : Passes p now v p' v')
    (h : p.Line (v.ticket?.toList ++ tickets)) : p'.Line (v'.ticket?.toList ++ tickets) := by
  cases hp with
  | queued => exact h.join
  | dismissed => exact h.withdraw
  | granted _ ht => exact h.ungrant ht
  | withdrew => exact h.withdraw
  | chose =>
    rw [Visit.ticket?, ticket?_choose]
    rcases choose_cases p with ⟨-, heq⟩ | ⟨conn, rest, -, heq⟩
    · rwa [heq]
    · rw [heq]
      exact h.shift rfl (.refl _)
  | kept conn =>
    unfold keep
    split
    · exact h.shift rfl (.refl _)
    · exact h
  | failed => exact h.giveBack
  | parted => exact h.giveBack
  | gaveUp c hc =>
    rcases hc with ⟨conn, rfl⟩ | rfl
    · exact h.giveBack
    · exact h.giveBack
  | admitted => exact h.shift rfl (.refl _)
  | refused | pinged | answered | evicted | dialled | used | returns | discards | left => exact h

end Line
end Pool
end Holdfast
