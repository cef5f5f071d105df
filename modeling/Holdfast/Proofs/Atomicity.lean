import Holdfast.Proofs.Contents
import Holdfast.Proofs.Watching.Scene

namespace Holdfast.Memory

open Store

/-- What a store shows at a moment: the entries that live, and the number of its last write. -/
@[ext]
structure Image where
  live : Bytes → Option Entry
  version : Nat

namespace Image

/-- A put takes the next number and leaves no expiry. So does an expiry take it, whether or not it
meets its key; the entry that it meets keeps its value, and is gone at once without a second. -/
def write (now : Nat) (m : Image) : Write → Image
  | .put key value =>
    ⟨Function.update m.live key (some ⟨value, m.version + 1, none⟩), m.version + 1⟩
  | .delete key => ⟨Function.update m.live key none, m.version⟩
  | .expire key seconds =>
    let renewed (e : Entry) : Option Entry :=
      if seconds = 0 then none else some ⟨e.value, m.version + 1, some (now + seconds * 1000)⟩
    ⟨Function.update m.live key ((m.live key).bind renewed), m.version + 1⟩

def writeAll (now : Nat) (m : Image) (writes : List Write) : Image := writes.foldl (write now) m

/-- What a write answers on the values that are there. -/
def effect (m : Image) (w : Write) : Effect :=
  Contents.effect (fun key => (m.live key).map Entry.value) w

end Image

/-- Whether a write has given its key an entry of a new number, as its answer tells. -/
def renews : Write → Effect → Bool
  | .put .., _ => true
  | .expire .., .count n => n = 1
  | _, _ => false

namespace Node

variable {n : Node} {now : Nat}

def image (n : Node) (now : Nat) : Image := ⟨n.live? now, n.version⟩

theorem live?_expire_zero {key : Bytes} {e : Entry} (h : n.live? now key = some e) :
    (n.expire now key 0).1.live? now key = none := by
  rw [expire_live h]
  simp [live?, Entry.isLive]

theorem version_apply (w : Write) :
    (n.apply now w).1.version = ((n.image now).write now w).version := by
  cases w with
  | put key value => rfl
  | delete key => rfl
  | expire key seconds => cases hl : n.live? now key <;> simp [apply, expire, hl, Image.write, image]

theorem image_apply (w : Write) : (n.apply now w).1.image now = (n.image now).write now w := by
  refine Image.ext (funext fun key => ?_) (version_apply w)
  by_cases hk : w.key = key
  · subst hk
    cases w with
    | put k value => simp [image, apply, Image.write, Write.key]
    | delete k => simp [image, apply, Image.write, Write.key]
    | expire k seconds =>
      simp only [image, apply, Image.write, Write.key, Function.update_self]
      cases hl : n.live? now k with
      | none =>
        rw [expire_absent hl]
        exact hl
      | some e =>
        by_cases hs : seconds = 0
        · subst hs
          simp [live?_expire_zero hl]
        · simp [live?_expire_self hl (Nat.pos_of_ne_zero hs), hs]
  · have hsame : (n.apply now w).1.live? now key = n.live? now key :=
      live?_congr (get?_apply_ne n now w hk) now
    have hspec : ((n.image now).write now w).live key = n.live? now key := by
      cases w <;> exact Function.update_of_ne (Ne.symm hk) _ _
    exact hsame.trans hspec.symm

theorem image_applyAll (ws : List Write) :
    (n.applyAll now ws).1.image now = (n.image now).writeAll now ws := by
  induction ws generalizing n with
  | nil => rfl
  | cons w ws ih =>
    have hrest := ih (n := (n.apply now w).1)
    rwa [image_apply] at hrest

theorem length_applyAll (ws : List Write) : (n.applyAll now ws).2.length = ws.length := by
  induction ws generalizing n with
  | nil => rfl
  | cons w ws ih => exact congrArg Nat.succ ih

/-- Each write answers on what the ones before it have left. -/
theorem getElem?_applyAll {ws : List Write} {i : Nat} {w : Write} (h : ws[i]? = some w) :
    (n.applyAll now ws).2[i]? = some (((n.image now).writeAll now (ws.take i)).effect w) := by
  induction ws generalizing n i with
  | nil => cases h
  | cons v ws ih =>
    cases i with
    | zero =>
      cases h
      exact congrArg some (effect_apply w)
    | succ i =>
      have hrest := ih (n := (n.apply now v).1) h
      rwa [image_apply] at hrest

theorem version_of_renews {w : Write} (h : renews w (n.apply now w).2 = true) {e : Entry}
    (he : (n.apply now w).1.live? now w.key = some e) : e.version = n.version + 1 := by
  cases w with
  | put key value =>
    have hput : (n.put key value).live? now key = some e := he
    rw [live?_put_self] at hput
    cases hput
    rfl
  | delete key => cases h
  | expire key seconds =>
    cases hl : n.live? now key with
    | none => simp [apply, expire_absent hl, renews] at h
    | some d =>
      have hset : (n.expire now key seconds).1.live? now key = some e := he
      rw [expire_live hl, live?_eq_some, Table.get?_set_self] at hset
      obtain ⟨he, -⟩ := hset
      cases he
      rfl

/-- What a write has renewed, and what has come after it, is newer than the store was. -/
theorem version_lt_of_renews {ws : List Write} {i : Nat} {w : Write} {effect : Effect} {e : Entry}
    (hw : ws[i]? = some w) (heffect : (n.applyAll now ws).2[i]? = some effect)
    (hr : renews w effect = true) (he : (n.applyAll now ws).1.live? now w.key = some e) :
    n.version < e.version := by
  induction ws generalizing n i with
  | nil => cases hw
  | cons v ws ih =>
    have hcounter := ((Later.spans w.key now).apply n now v).counter
    cases i with
    | zero =>
      cases hw
      cases heffect
      rcases ((Later.spans w.key now).applyAll (n.apply now w).1 now ws).entry e he with hlive | hnew
      · rw [version_of_renews hr hlive]
        exact Nat.lt_succ_self _
      · exact Nat.lt_of_le_of_lt hcounter hnew
    | succ i => exact Nat.lt_of_le_of_lt hcounter (ih hw heffect he)

/-- No two keys have entries of one write, and no entry is from a write to come. -/
structure Numbered (n : Node) : Prop where
  bounded : n.Bounded
  distinct : ∀ {k k' e e'}, n.entries.get? k = some e → n.entries.get? k' = some e' →
    e.version = e'.version → k = k'

theorem numbered_empty : Numbered {} := ⟨bounded_empty, fun h => by cases h⟩

namespace Numbered

theorem set (h : n.Numbered) (key : Bytes) (e : Entry) (he : e.version = n.version + 1) :
    Numbered ⟨n.entries.set key e, n.version + 1⟩ := by
  have hnew {k : Bytes} {d : Entry} (hk : k ≠ key)
      (hd : (n.entries.set key e).get? k = some d) :
      n.entries.get? k = some d ∧ d.version ≠ e.version := by
    rw [Table.get?_set_ne _ _ hk] at hd
    have hle := h.bounded k d hd
    exact ⟨hd, by omega⟩
  have hself {d : Entry} (hd : (n.entries.set key e).get? key = some d) : d = e := by
    rw [Table.get?_set_self] at hd
    exact (Option.some.inj hd).symm
  refine ⟨spans_bounded.set n key e he h.bounded, fun {k k' d d'} hd hd' hv => ?_⟩
  by_cases hk : k = key <;> by_cases hk' : k' = key
  · exact hk.trans hk'.symm
  · subst hk
    rw [hself hd] at hv
    exact absurd hv.symm (hnew hk' hd').2
  · subst hk'
    rw [hself hd'] at hv
    exact absurd hv (hnew hk hd).2
  · exact h.distinct (hnew hk hd).1 (hnew hk' hd').1 hv

theorem delete (h : n.Numbered) (key : Bytes) : (n.delete key).Numbered := by
  have hold {k : Bytes} {d : Entry} (hd : (n.delete key).entries.get? k = some d) :
      n.entries.get? k = some d := by
    by_cases hk : k = key
    · subst hk
      simp [Node.delete] at hd
    · rwa [Node.delete, Table.get?_erase_ne _ hk] at hd
  exact ⟨spans_bounded.delete n key h.bounded,
    fun hd hd' => h.distinct (hold hd) (hold hd')⟩

theorem spans : Spans fun n n' => n.Numbered → n'.Numbered where
  refl _ := id
  trans h h' := h' ∘ h
  set _ key e he h := h.set key e he
  delete _ key h := h.delete key
  count n h := ⟨spans_bounded.count n h.bounded, h.distinct⟩

theorem act {w w' : Scene} (h : w.server.node.Numbered) {m : Board.Move}
    (hm : w.act m = some w') : w'.server.node.Numbered := by
  cases m with
  | connect =>
    obtain ⟨c, -, rfl⟩ := Scene.connect_of_act hm
    exact h
  | call id r =>
    obtain ⟨c, -, rfl⟩ := Scene.call_of_act hm
    exact c.spans_call spans w.server w.now r h
  | write key value =>
    cases hm
    exact h.set key _ rfl
  | read | age | reach =>
    cases hm
    exact h

theorem of_reachable {start w : Scene} (h : start.server.node.Numbered)
    (hw : Scene.Reachable start w) : w.server.node.Numbered := by
  induction hw with
  | refl => exact h
  | step _ m hm ih => exact ih.act hm

end Numbered
end Node

/-- Writes that a store has carried out as one. -/
structure Performs (now : Nat) (n : Node) (writes : List Write) (n' : Node) (es : List Effect) :
    Prop where
  image : n'.image now = (n.image now).writeAll now writes
  length : es.length = writes.length
  /-- Each has answered on what those before it had left. -/
  answers : ∀ {i : Nat} {w : Write}, writes[i]? = some w →
    es[i]? = some (((n.image now).writeAll now (writes.take i)).effect w)
  /-- What they have renewed is newer than the store was, and so than everything in it. -/
  fresh : ∀ {i : Nat} {w : Write} {effect : Effect} {e : Entry}, writes[i]? = some w →
    es[i]? = some effect → renews w effect = true → n'.live? now w.key = some e →
    n.version < e.version ∧
      (n.Bounded → ∀ key d, n.entries.get? key = some d → d.version < e.version)

/-- What a call for a transaction can come to: it fails for good, nothing of it happens, or all of
it does. -/
inductive Transacts (c : Connection) (s : Server) (now : Nat) (writes : List Write) :
    Connection × Server × Answer → Prop
  | cut (h : c.isCut s = true) :
      Transacts c s now writes (c, s, .now (.error (.unreachable c.endpoint)))
  | aborted (h : c.isCut s = false) (touched : c.isUntouched s.node now = false) :
      Transacts c s now writes ({ c with watched := [] }, s, .now (.ok (.effects none)))
  | committed {n : Node} {es : List Effect} (h : c.isCut s = false)
      (untouched : c.isUntouched s.node now = true) (done : Performs now s.node writes n es) :
      Transacts c s now writes
        ({ c with watched := [] }, { s with node := n }, .now (.ok (.effects (some es))))

theorem Node.performs (n : Node) (now : Nat) (writes : List Write) :
    Performs now n writes (n.applyAll now writes).1 (n.applyAll now writes).2 where
  image := image_applyAll writes
  length := length_applyAll writes
  answers := getElem?_applyAll
  fresh hw heffect hr he := by
    have hlt := version_lt_of_renews hw heffect hr he
    exact ⟨hlt, fun hb key d hd => Nat.lt_of_le_of_lt (hb key d hd) hlt⟩

theorem Connection.transacts (c : Connection) (s : Server) (now : Nat) (writes : List Write) :
    Transacts c s now writes (c.call s now (.exec writes)) := by
  cases hcut : c.isCut s with
  | true =>
    rw [call_cut hcut]
    exact .cut hcut
  | false =>
    cases hu : c.isUntouched s.node now with
    | true =>
      simp only [call, hcut, exec, hu, Bool.false_eq_true, if_false, if_true]
      exact .committed hcut hu (s.node.performs now writes)
    | false =>
      simp only [call, hcut, exec, hu, Bool.false_eq_true, if_false]
      exact .aborted hcut hu

/-- A transaction happens as a whole or not at all, and no two entries that are ever in a store
together have the same version. -/
theorem exec_atomic :
    (∀ (c : Connection) (s : Server) (now : Nat) (writes : List Write),
      Transacts c s now writes (c.call s now (.exec writes))) ∧
    ∀ start w : Scene, start.server.node = {} → Scene.Reachable start w → w.server.node.Numbered :=
  ⟨Connection.transacts, fun _ _ h hw => .of_reachable (h ▸ Node.numbered_empty) hw⟩

/-- Within one transaction a key is there, expires at once, and is there again. -/
def overwriting : List Board.Move :=
  [.connect, .call 0 (.watch [107]), .call 0 (.exec
    [.put [107] [118], .expire [107] 5, .expire [107] 0, .delete [107], .put [107] [119]])]

theorem exec_atomic_overwriting : ∃ w, Scene.empty.run overwriting = some w ∧
    w.server.node.live? w.now [107] = some ⟨[119], 4, none⟩ ∧ w.server.node.Numbered := by
  obtain ⟨w, hw⟩ : ∃ w, Scene.empty.run overwriting = some w := ⟨_, rfl⟩
  refine ⟨w, hw, ?_, exec_atomic.2 Scene.empty w rfl (Scene.run_reachable .refl hw)⟩
  cases hw
  decide

end Holdfast.Memory
