import Holdfast.Proofs.Etcd.Calls
import Holdfast.Proofs.Watching.Latest

namespace Holdfast.Etcd

open Memory (Happening latest?)
open Store

theorem isUnchanged_of_ne {revision : Int} (h : revision ≠ 0) (key : Bytes) :
    isUnchanged (key, revision) = ⟨key, .modRevision, .equal, revision⟩ := by
  unfold isUnchanged
  split
  · next heq =>
    cases heq
    exact absurd rfl h
  · next heq =>
    cases heq
    rfl

/-- A watch that found this revision of a key, and what has happened to the key since. -/
structure Heeds (d : Data) (key : Bytes) (revision : Nat) (present : Bool)
    (later : List Happening) : Prop where
  present : present = true ↔ revision ≠ 0
  seen : revision ≠ 0 → revision ≤ d.revision ∧
    (d.number key .modRevision = revision ↔ .touched key ∉ later)
  absent : revision = 0 → (d.value? key).isSome = true → .touched key ∈ later
  calm : .lapsed key ∉ later

namespace Heeds

variable {d d' : Data} {key : Bytes} {revision : Nat} {present : Bool} {new later : List Happening}

theorem begin (hs : d.Sound) (key : Bytes) :
    Heeds d key (d.number key .modRevision) (d.value? key).isSome [] := by
  rw [Data.isSome_value?]
  cases hrow : d.rows.get? key with
  | none =>
    have hzero : d.number key .modRevision = 0 := by simp [Data.number, hrow]
    refine ⟨by simp [hzero], fun h => absurd hzero h, fun _ hv => ?_, by simp⟩
    rw [Data.isSome_value?, hrow] at hv
    cases hv
  | some row =>
    have hnumber : d.number key .modRevision = row.modRevision := by simp [Data.number, hrow]
    have hr := hs.revision hrow
    rw [hnumber]
    exact ⟨by simp; omega, fun _ => ⟨hr.2, by simp [hnumber]⟩, fun hz => by omega, by simp⟩

/-- A key that is put gets a later revision, and one that is deleted has none. -/
theorem grow (h : Heeds d key revision present later) {ws : List Write} (hw : Wrote d d' ws)
    (ht : .touched key ∈ new ↔ key ∈ Contents.touches d.value? ws) (hl : .lapsed key ∉ new) :
    Heeds d' key revision present (new ++ later) := by
  have hcalm : .lapsed key ∉ new ++ later := by simp [hl, h.calm]
  refine ⟨h.present, ?_, ?_, hcalm⟩
  · intro hr
    obtain ⟨hle, hiff⟩ := h.seen hr
    refine ⟨Nat.le_trans hle hw.changes.counter, ?_⟩
    rw [List.mem_append, not_or, ht, ← hiff]
    by_cases hkey : key ∈ Contents.touches d.value? ws
    · refine iff_of_false ?_ fun hnot => hnot.1 hkey
      unfold Data.number
      cases hrow : d'.rows.get? key with
      | none => exact fun hz => hr hz.symm
      | some row =>
        have hfresh := hw.changes.fresh hkey hrow
        simp only [Option.map_some, Option.getD_some]
        omega
    · rw [Data.number_congr (hw.changes.same hkey)]
      simp [hkey]
  · intro hz hv
    by_cases hkey : key ∈ Contents.touches d.value? ws
    · exact List.mem_append_left _ (ht.mpr hkey)
    · rw [Data.isSome_value?, hw.changes.same hkey, ← Data.isSome_value?] at hv
      exact List.mem_append_right _ (h.absent hz hv)

theorem isWhole_iff (h : Heeds d key revision present later) (hs : d.Sound) :
    isWhole (some (key, (revision : Int))) d = true ↔
      ¬ ((.touched key ∈ later ∨ .lapsed key ∈ later) ∧
        (present = true ∨ (d.value? key).isSome = true)) := by
  have hcalm := h.calm
  by_cases hz : revision = 0
  · subst hz
    have hpresent : present = false := by simpa using h.present
    have habsent := h.absent rfl
    have hmeets : isWhole (some (key, ((0 : Nat) : Int))) d = (d.value? key).isNone := by
      simp [isWhole, isUnchanged, hs.meets_isAbsent]
    rw [hmeets, hpresent]
    cases hv : d.value? key with
    | none => simp
    | some value => simpa [hcalm] using habsent (by simp [hv])
  · obtain ⟨-, hiff⟩ := h.seen hz
    have hpresent : present = true := h.present.mpr hz
    have hmeets : isWhole (some (key, (revision : Int))) d =
        decide (d.number key .modRevision = revision) := by
      simp only [isWhole, Option.toList_some, List.map_cons, List.map_nil, List.all_cons,
        List.all_nil, Bool.and_true, isUnchanged_of_ne (Int.natCast_ne_zero.mpr hz), Data.meets,
        Int.natCast_inj]
    rw [hmeets, decide_eq_true_eq, hiff]
    simp [hpresent, hcalm]

end Heeds

/-- The watch of a connection is the last one that the history tells of. -/
structure Minds (d : Data) (es : List Happening) (id : Nat) (c : Connection) : Prop where
  unwatched : c.watched = none → latest? id es = none
  watched : ∀ {key number}, c.watched = some (key, number) → ∃ revision : Nat, ∃ present later,
    number = revision ∧ latest? id es = some (key, present, later) ∧
      Heeds d key revision present later

namespace Minds

variable {d d' : Data} {es new : List Happening} {id : Nat} {c c' : Connection}

theorem idle (hc : c.watched = none) (hl : latest? id es = none) : Minds d es id c := by
  refine ⟨fun _ => hl, ?_⟩
  intro key number hw
  rw [hc] at hw
  cases hw

theorem watch (hs : d.Sound) (key : Bytes) (id : Nat) (es : List Happening) :
    Minds d (.watched id key (d.value? key).isSome :: es) id
      ⟨some (key, d.number key .modRevision)⟩ := by
  refine ⟨by simp, ?_⟩
  rintro k number ⟨⟩
  exact ⟨_, _, _, rfl, Memory.latest?_watched key _, .begin hs key⟩

theorem grow (h : Minds d es id c) {ws : List Write} (hw : Wrote d d' ws)
    (ht : ∀ key, .touched key ∈ new ↔ key ∈ Contents.touches d.value? ws)
    (hl : ∀ key, .lapsed key ∉ new) (hq : ∀ e ∈ new, e.concerns id = false) :
    Minds d' (new ++ es) id c := by
  refine ⟨?_, ?_⟩
  · intro hc
    rw [Memory.latest?_quiet hq, h.unwatched hc]
    rfl
  · intro key number hc
    obtain ⟨revision, present, later, hn, hlatest, hheeds⟩ := h.watched hc
    refine ⟨revision, present, new ++ later, hn, ?_, hheeds.grow hw (ht key) (hl key)⟩
    rw [Memory.latest?_quiet hq, hlatest]
    rfl

/-- What is touched by a call, with what is noted of it, is told to all other connections. -/
theorem call_other (h : Minds d es id c) {server : Memory.Server} {now other : Nat} {r : Call}
    {a : Memory.Answer} (hne : other ≠ id) (hw : Wrote d d' (Memory.written r a)) :
    Minds d' (Memory.noted server now other r a ++
      (Contents.touches d.value? (Memory.written r a)).map .touched ++ es) id c := by
  have hnoted : ∀ e ∈ Memory.noted server now other r a, e.concerns other = true :=
    fun e he => (Memory.concerns_of_noted he other).trans (decide_eq_true rfl)
  refine h.grow hw ?_ ?_ (Memory.concerns_of_call hne)
  · intro key
    have hnot : .touched key ∉ Memory.noted server now other r a :=
      fun hmem => absurd (hnoted _ hmem) (by simp [Happening.concerns])
    simp [hnot]
  · intro key hmem
    rcases List.mem_append.mp hmem with hmem | hmem
    · exact absurd (hnoted _ hmem) (by simp [Happening.concerns])
    · simp at hmem

/-- A call on a connection begins its watch, ends it or leaves it. -/
theorem call_own (h : Minds d es id c) (hs : d.Sound) {server : Memory.Server} {now : Nat}
    (hv : server.node.value? now = d.value?) {r : Call} {whole : Bool} {a : Memory.Answer}
    (ha : a = .now (.ok (Contents.reply d.value? whole r)))
    (hw : Wrote d d' (Memory.written r a)) :
    Minds d' (Memory.noted server now id r a ++
      (Contents.touches d.value? (Memory.written r a)).map .touched ++ es) id (c.after d r) := by
  subst ha
  have hquiet : Minds d' ((Contents.touches d.value? (Memory.written r
      (.now (.ok (Contents.reply d.value? whole r))))).map .touched ++ es) id c :=
    h.grow hw (by simp) (by simp) (Memory.concerns_touched _ id)
  cases r with
  | watch key =>
    have hlive : (server.node.live? now key).isSome = (d.value? key).isSome := by
      rw [← Memory.Node.isSome_value?, hv]
    have hnone : ∀ k, .touched k ∈ ([] : List Happening) ↔
        k ∈ Contents.touches d.value? (Memory.written (.watch key) (.now (.ok .done))) := by
      simp [Memory.written, Contents.touches]
    have hbegin := (watch hs key id es).grow hw hnone (by simp) (by simp)
    rw [← hlive] at hbegin
    exact hbegin
  | unwatch | exec => exact .idle rfl Memory.latest?_cleared
  | setIfAbsent | get | expire | ping => exact hquiet

theorem isWhole_iff (h : Minds d es id c) (hs : d.Sound) : isWhole c.watched d = true ↔
    ¬ ∃ key present later, latest? id es = some (key, present, later) ∧
      (.touched key ∈ later ∨ .lapsed key ∈ later) ∧
      (present = true ∨ (d.value? key).isSome = true) := by
  cases hc : c.watched with
  | none => simp [isWhole, h.unwatched hc]
  | some watched =>
    obtain ⟨key, number⟩ := watched
    obtain ⟨revision, present, later, rfl, hlatest, hheeds⟩ := h.watched hc
    rw [hheeds.isWhole_iff hs, hlatest]
    constructor
    · rintro hwhole ⟨k, p, l, he, hbroken⟩
      cases he
      exact hwhole hbroken
    · exact fun hwhole hbroken => hwhole ⟨key, present, later, rfl, hbroken⟩

end Minds

end Holdfast.Etcd
