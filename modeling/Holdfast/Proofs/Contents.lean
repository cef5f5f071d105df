import Holdfast.Proofs.Connection
import Holdfast.Proofs.Watching.Touch
import Mathlib.Logic.Function.Basic

namespace Holdfast

namespace Store

/-- The values under the keys, without anything a store keeps beside them. -/
abbrev Contents := Bytes → Option Bytes

/-- An expiry takes a second at least, so it changes no value for now. -/
def Write.lasts : Write → Bool
  | .expire _ seconds => 0 < seconds
  | .put .. | .delete _ => true

def Call.lasts : Call → Bool
  | .expire _ seconds => 0 < seconds
  | .exec writes => writes.all Write.lasts
  | _ => true

namespace Contents

def write (m : Contents) : Write → Contents
  | .put key value => Function.update m key (some value)
  | .delete key => Function.update m key none
  | .expire .. => m

def effect (m : Contents) : Write → Effect
  | .put key _ => .previous (m key)
  | .delete key | .expire key _ => .count (if (m key).isSome then 1 else 0)

def touched (m : Contents) : Write → List Bytes
  | .put key _ => [key]
  | .delete key | .expire key _ => if (m key).isSome then [key] else []

def writeAll (m : Contents) : List Write → Contents
  | [] => m
  | w :: ws => (m.write w).writeAll ws

/-- What writes answer one after the other. -/
def effects (m : Contents) : List Write → List Effect
  | [] => []
  | w :: ws => m.effect w :: (m.write w).effects ws

def touches (m : Contents) : List Write → List Bytes
  | [] => []
  | w :: ws => m.touched w ++ (m.write w).touches ws

/-- The reply to a call on a connection; a transaction depends on whether its watches are whole. -/
def reply (m : Contents) (isWhole : Bool) : Call → Reply
  | .setIfAbsent key _ => .flag (m key).isNone
  | .get key => .value (m key)
  | .expire key _ => .flag (m key).isSome
  | .watch _ | .unwatch | .ping => .done
  | .exec writes => .effects (if isWhole then some (m.effects writes) else none)

/-- Only the reply to a transaction depends on the watches, and it always tells. -/
theorem reply_eq_iff (m : Contents) (a b : Bool) (r : Call) :
    m.reply a r = m.reply b r ↔ ∀ writes, r = .exec writes → a = b := by
  cases r with
  | exec writes => cases a <;> cases b <;> simp [reply]
  | setIfAbsent | get | expire | watch | unwatch | ping => simp [reply]

end Contents
end Store

namespace Memory

open Store

namespace Node

variable {n : Node} {now : Nat}

theorem value?_congr {n' : Node} (h : n'.entries = n.entries) (now : Nat) :
    n'.value? now = n.value? now := by
  funext key
  have hget : n'.entries.get? key = n.entries.get? key := by rw [h]
  simp only [value?, live?_congr hget]

/-- A write changes the values as it says. -/
theorem value?_apply {w : Write} (hw : w.lasts = true) :
    (n.apply now w).1.value? now = Contents.write (n.value? now) w := by
  funext key
  by_cases hk : w.key = key
  · subst hk
    cases w with
    | put k value => simp [apply, Contents.write, Write.key]
    | delete k => simp [apply, Contents.write, Write.key]
    | expire k seconds => exact value?_expire_self n now k (of_decide_eq_true hw)
  · have hsame : (n.apply now w).1.value? now key = n.value? now key := by
      unfold value?
      rw [live?_congr (get?_apply_ne n now w hk)]
    rw [hsame]
    cases w with
    | put k value => exact (Function.update_of_ne (Ne.symm hk) _ _).symm
    | delete k => exact (Function.update_of_ne (Ne.symm hk) _ _).symm
    | expire k seconds => rfl

theorem isSome_value? (n : Node) (now : Nat) (key : Bytes) :
    (n.value? now key).isSome = (n.live? now key).isSome := by
  simp [value?]

theorem effect_apply (w : Write) : (n.apply now w).2 = Contents.effect (n.value? now) w := by
  cases w with
  | put k value => rfl
  | delete k => simp [apply, Contents.effect, isSome_value?]
  | expire k seconds =>
    cases hl : n.live? now k with
    | none => simp [apply, expire_absent hl, Contents.effect, isSome_value?, hl]
    | some e => simp [apply, expire_live hl, Contents.effect, isSome_value?, hl]

theorem touch?_eq (w : Write) : (n.touch? now w).toList = Contents.touched (n.value? now) w := by
  cases w with
  | put k value => rfl
  | delete k | expire k seconds =>
    simp only [touch?, Contents.touched, isSome_value?]
    split <;> rfl

/-- Writes one after the other do to the values, answer and touch what they say. -/
theorem applyAll_contents (n : Node) (now : Nat) {ws : List Write} (hws : ws.all Write.lasts = true) :
    (n.applyAll now ws).1.value? now = Contents.writeAll (n.value? now) ws ∧
    (n.applyAll now ws).2 = Contents.effects (n.value? now) ws ∧
    n.touches now ws = Contents.touches (n.value? now) ws := by
  induction ws generalizing n with
  | nil => exact ⟨rfl, rfl, rfl⟩
  | cons w ws ih =>
    simp only [List.all_cons, Bool.and_eq_true] at hws
    obtain ⟨hvalues, heffects, htouches⟩ := ih (n.apply now w).1 hws.2
    rw [value?_apply hws.1] at hvalues heffects htouches
    refine ⟨hvalues, ?_, ?_⟩
    · have hcons : (n.applyAll now (w :: ws)).2 =
          (n.apply now w).2 :: ((n.apply now w).1.applyAll now ws).2 := rfl
      rw [hcons, heffects, effect_apply]
      rfl
    · rw [touches, htouches, touch?_eq]
      rfl

end Node

namespace Connection

theorem lasts_written {r : Call} (hr : r.lasts = true) (a : Answer) :
    (written r a).all Write.lasts = true := by
  unfold written
  split
  · rfl
  · simpa [Write.lasts, Call.lasts] using hr
  · exact hr
  · rfl

/-- A call on a connection that is not cut answers, writes and touches what it says. -/
theorem call_contents {c : Connection} {s : Server} (hcut : c.isCut s = false)
    (hread : s.readDelay = none) (now : Nat) {r : Call} (hr : r.lasts = true) :
    (c.call s now r).2.2 =
        .now (.ok (Contents.reply (s.node.value? now) (c.isUntouched s.node now) r)) ∧
    (c.call s now r).2.1.node.value? now =
        Contents.writeAll (s.node.value? now) (written r (c.call s now r).2.2) ∧
    s.node.touches now (written r (c.call s now r).2.2) =
        Contents.touches (s.node.value? now) (written r (c.call s now r).2.2) := by
  obtain ⟨hvalues, -, htouches⟩ :=
    s.node.applyAll_contents now (lasts_written hr (c.call s now r).2.2)
  refine ⟨?_, ?_, htouches⟩
  · cases r with
    | setIfAbsent k v =>
      simp only [call, hcut, Bool.false_eq_true, if_false, Contents.reply, Node.setIfAbsent,
        ← Node.isSome_value?]
      cases s.node.value? now k <;> rfl
    | get k => simp [call, hcut, hread, Contents.reply]
    | expire k seconds =>
      simp only [call, hcut, Bool.false_eq_true, if_false, Contents.reply, Node.isSome_value?]
      cases hl : s.node.live? now k with
      | none => simp [Node.expire_absent hl]
      | some e => simp [Node.expire_live hl]
    | watch k => simp [call, hcut, Contents.reply]
    | unwatch => simp [call, hcut, Contents.reply]
    | ping => simp [call, hcut, Contents.reply]
    | exec ws =>
      obtain ⟨-, heffects, -⟩ := s.node.applyAll_contents now hr
      cases hu : c.isUntouched s.node now with
      | true => simp [call, hcut, exec, hu, Contents.reply, heffects]
      | false => simp [call, hcut, exec, hu, Contents.reply]
  · rw [Node.value?_congr (call_written c s now r), hvalues]

end Connection
end Memory
end Holdfast
