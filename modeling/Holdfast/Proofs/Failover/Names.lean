import Holdfast.Proofs.Failover.Discovery
import Holdfast.Proofs.Failover.Payload
import Holdfast.Proofs.Text.Grammar

namespace Holdfast

open Failover Text

namespace Failover.Announcement

variable {name : String} {old : Option Endpoint} {new : Endpoint}

theorem parse_payload_of_many (hname : (words name.toList).length ≠ 1)
    (hold : ∀ e, old = some e → IsWord e.host.toList) (hnew : IsWord new.host.toList) :
    parse (payload name old new) = .error (.fieldCount ((words name.toList).length + 4)) := by
  have hlength := congrArg List.length (words_payload name hold hnew)
  rw [List.length_append] at hlength
  unfold parse
  split
  · next hfive =>
    rw [hfive] at hlength
    exact absurd (Nat.add_right_cancel hlength.symm) hname
  · rw [hlength]
    rfl

/-- A name with a blank in it is not read back from any payload: a name of one word is read without
the blanks around it. -/
theorem parse_payload_of_broken (hname : ∃ ch ∈ name.toList, isBlank ch = true)
    (hold : ∀ e, old = some e → IsWord e.host.toList) (hnew : IsWord new.host.toList) :
    parse (payload name old new) = .error (.fieldCount ((words name.toList).length + 4)) ∨
      ∃ other, other ≠ name ∧ words name.toList = [other.toList] ∧
        parse (payload name old new) = .ok ⟨other, old.getD nobody, new⟩ := by
  by_cases hone : (words name.toList).length = 1
  · right
    obtain ⟨w, hw⟩ := List.length_eq_one_iff.mp hone
    have hword : IsWord w := (words_eq_iff.mp hw).isWord w List.mem_cons_self
    have hwords : words name.toList = [(String.ofList w).toList] := by rw [hw, String.toList_ofList]
    refine ⟨String.ofList w, ?_, hwords, parse_payload_of_words hwords hold hnew⟩
    rintro rfl
    obtain ⟨ch, hmem, hblank⟩ := hname
    rw [String.toList_ofList] at hmem
    exact absurd (hword.2 ch hmem) (by simp [hblank])
  · exact .inl (parse_payload_of_many hone hold hnew)

end Failover.Announcement

namespace Router

variable {κ : Type}

/-- The master of a shard is `e`, and the shard's pool leads to it. -/
def Site.IsAt (s : Site κ) (i : Nat) (e : Endpoint) : Prop :=
  s.router.topology.master? i = some e ∧
    ∃ id p, s.router.pools[i]? = some id ∧ s.pools[id]? = some p ∧ p.endpoint = e

theorem Site.Staffed.isAt {s : Site κ} {isOpen : Bool} (hs : s.Staffed isOpen) {i : Nat}
    {e : Endpoint} (h : s.router.topology.master? i = some e) : s.IsAt i e := by
  have hi : i < s.router.pools.length := by
    rw [hs.length, ← hs.size]
    exact (List.getElem?_eq_some_iff.mp h).1
  have hid : s.router.pools[i]? = some s.router.pools[i] := List.getElem?_eq_getElem hi
  obtain ⟨e', p, he', hp, hend, -⟩ := hs.pool hid
  cases h.symm.trans he'
  exact ⟨h, _, p, hid, hp, hend⟩

section Heard

variable {s₀ s : Site κ} {isOpen : Bool} {payload : String} {a : Announcement}

/-- Whoever hears of a switch moves the shard that is named, and no other one. -/
theorem Lives.hear_switch (hlife : Lives s₀ s isOpen) (hs₀ : s₀.Sound)
    (hnames : s.router.names.Nodup) (h : Announcement.parse payload = .ok a) :
    (∀ i, s.router.names[i]? = some a.shard → (s.hear payload).IsAt i a.new) ∧
      ∀ i, s.router.names[i]? ≠ some a.shard →
        (s.hear payload).router.topology.master? i = s.router.topology.master? i := by
  by_cases hmem : a.shard ∈ s.router.names
  · have hknown : known? s.router.names payload = some a := by
      unfold known?
      rw [h]
      exact if_pos hmem
    obtain ⟨k, hk, -, heq⟩ := s.hear_news hknown
    obtain ⟨hklt, hkname⟩ := List.getElem?_eq_some_iff.mp hk
    have hsize := (hlife.staffed hs₀).size
    obtain ⟨_, hlife'⟩ := hlife.hear payload
    have htopology := s.topology_update (hsize ▸ hklt) hsize a.new
    rw [← heq] at htopology
    refine ⟨?_, ?_⟩
    · intro i hi
      obtain ⟨hilt, hiname⟩ := List.getElem?_eq_some_iff.mp hi
      obtain rfl : i = k := hnames.getElem_inj_iff.mp (hiname.trans hkname.symm)
      apply (hlife'.staffed hs₀).isAt
      rw [htopology]
      exact List.getElem?_set_self (by rwa [← hsize] at hilt)
    · intro i hi
      have hne : k ≠ i := fun he => hi (he ▸ hk)
      rw [htopology]
      exact List.getElem?_set_ne hne
  · have hnoise : known? s.router.names payload = none := by
      unfold known?
      rw [h]
      exact if_neg hmem
    rw [s.hear_noise hnoise]
    exact ⟨fun i hi => absurd (List.mem_of_getElem? hi) hmem, fun _ _ => rfl⟩

end Heard

/-- A valid configuration may have names with blanks in them, and a switch of such a shard is never
heard: its announcement is no announcement at all, or that of the shard whose name is left without
the blanks around it. The switch of any other shard is announced as what it is, and moves it. -/
theorem switch_heard_iff {c : Config} (hvalid : c.validate = .ok ()) {t : Topology}
    {o : PoolOptions} {b : Store.Backend} {ps₀ ps : Pools κ} {r : Router}
    (hnew : Router.new c.shards t o b ps₀ = .ok (ps, r)) {s s' : Site κ} {isOpen : Bool}
    (hlife : Lives ⟨ps, r⟩ s isOpen) {i : Nat} {name : String} (hi : c.shards[i]? = some name)
    {old : Option Endpoint} {new : Endpoint} (hold : ∀ e, old = some e → IsWord e.host.toList)
    (hhost : IsWord new.host.toList) (hhear : s.hear (Announcement.payload name old new) = s') :
    (Announcement.parse (Announcement.payload name old new) = .ok ⟨name, old.getD nobody, new⟩ ↔
      ∀ ch ∈ name.toList, isBlank ch = false) ∧
    ((∀ ch ∈ name.toList, isBlank ch = false) → s'.IsAt i new ∧
      ∀ j ≠ i, s'.router.topology.master? j = s.router.topology.master? j) ∧
    ((∃ ch ∈ name.toList, isBlank ch = true) →
      s'.router.topology.master? i = s.router.topology.master? i ∧
      ((Announcement.parse (Announcement.payload name old new) =
          .error (.fieldCount ((words name.toList).length + 4)) ∧ s' = s) ∨
        ∃ other, other ≠ name ∧ words name.toList = [other.toList] ∧
          Announcement.parse (Announcement.payload name old new) =
            .ok ⟨other, old.getD nobody, new⟩ ∧
          ∀ j, c.shards[j]? = some other → s'.IsAt j new)) := by
  obtain ⟨hsound, hr⟩ := new_sound hnew
  have hnames : s.router.names = c.shards := hlife.names.trans hr
  have hnodup : s.router.names.Nodup := hnames ▸ Config.nodup_of_validate hvalid
  have hmem : name ∈ c.shards := List.mem_of_getElem? hi
  have hread : (∀ ch ∈ name.toList, isBlank ch = false) → Announcement.parse
      (Announcement.payload name old new) = .ok ⟨name, old.getD nobody, new⟩ := by
    intro hwhole
    obtain ⟨ch, hch, -⟩ := Config.visible_of_validate hvalid hmem
    exact Announcement.parse_payload ⟨List.ne_nil_of_mem hch, hwhole⟩ hold hhost
  have hbreak := @Announcement.parse_payload_of_broken name old new
  rw [← hnames] at hi ⊢
  subst hhear
  refine ⟨⟨?_, hread⟩, ?_, ?_⟩
  · intro hparse
    by_contra hbroken
    rcases hbreak (by simpa using hbroken) hold hhost with herror | ⟨other, hne, -, hok⟩
    · rw [herror] at hparse
      cases hparse
    · rw [hok] at hparse
      exact hne (congrArg Announcement.shard (Except.ok.inj hparse))
  · intro hwhole
    obtain ⟨hmoved, hstay⟩ := hlife.hear_switch hsound hnodup (hread hwhole)
    refine ⟨hmoved i hi, fun j hj => hstay j fun hjname => hj ?_⟩
    obtain ⟨hlt, -⟩ := List.getElem?_eq_some_iff.mp hjname
    exact (List.getElem?_inj hlt hnodup).mp (hjname.trans hi.symm)
  · intro hbroken
    rcases hbreak hbroken hold hhost with herror | ⟨other, hne, hwords, hok⟩
    · have hsame : s.hear (Announcement.payload name old new) = s := by
        apply s.hear_noise
        unfold known?
        rw [herror]
      rw [hsame]
      exact ⟨rfl, .inl ⟨herror, rfl⟩⟩
    · obtain ⟨hmoved, hstay⟩ := hlife.hear_switch hsound hnodup hok
      have hother : s.router.names[i]? ≠ some other := by
        rw [hi]
        exact fun he => hne (Option.some.inj he).symm
      exact ⟨hstay i hother, .inr ⟨other, hne, hwords, hok, hmoved⟩⟩

/-- Two names that differ in a blank, and one that is broken by a blank. -/
def spaced : Config where
  shards := ["a b", "c", " c"]
  masters := .static [⟨"h", 1⟩, ⟨"h", 2⟩, ⟨"h", 3⟩]

theorem switch_heard_iff_spaced : ∃ (ps : Pools Unit) (r : Router),
    Router.new spaced.shards ⟨[⟨"h", 1⟩, ⟨"h", 2⟩, ⟨"h", 3⟩]⟩ {} .memory [] = .ok (ps, r) ∧
    spaced.validate = .ok () ∧
    Site.hear ⟨ps, r⟩ (Announcement.payload "a b" (some ⟨"h", 1⟩) ⟨"n", 9⟩) = ⟨ps, r⟩ ∧
    (Site.hear ⟨ps, r⟩ (Announcement.payload "c" (some ⟨"h", 2⟩) ⟨"n", 9⟩)).IsAt 1 ⟨"n", 9⟩ ∧
    (Site.hear ⟨ps, r⟩ (Announcement.payload " c" (some ⟨"h", 3⟩) ⟨"n", 9⟩)).IsAt 1 ⟨"n", 9⟩ := by
  have hvalid : spaced.validate = .ok () := by decide
  have hnew : @Router.new Unit spaced.shards ⟨[⟨"h", 1⟩, ⟨"h", 2⟩, ⟨"h", 3⟩]⟩ {} .memory [] =
    .ok (_, _) := rfl
  have hold : ∀ (port : UInt16) e, some (⟨"h", port⟩ : Endpoint) = some e →
      IsWord e.host.toList := by
    rintro port _ ⟨⟩
    exact (by decide : IsWord "h".toList)
  have hhost : IsWord (⟨"n", 9⟩ : Endpoint).host.toList := by decide
  obtain ⟨-, -, hbroken⟩ :=
    switch_heard_iff hvalid hnew .here (rfl : spaced.shards[0]? = some "a b") (hold 1) hhost rfl
  obtain ⟨-, hwhole, -⟩ :=
    switch_heard_iff hvalid hnew .here (rfl : spaced.shards[1]? = some "c") (hold 2) hhost rfl
  obtain ⟨-, -, hpadded⟩ :=
    switch_heard_iff hvalid hnew .here (rfl : spaced.shards[2]? = some " c") (hold 3) hhost rfl
  have hword : IsWord "c".toList := by decide
  refine ⟨_, _, hnew, hvalid, ?_, (hwhole hword.2).1, ?_⟩
  · rcases (hbroken ⟨' ', by decide, rfl⟩).2 with ⟨-, hsame⟩ | ⟨other, -, hwords, -⟩
    · exact hsame
    · have htwo : (words "a b".toList).length = 2 := by decide
      rw [hwords] at htwo
      exact absurd htwo (by simp)
  · rcases (hpadded ⟨' ', by decide, rfl⟩).2 with ⟨herror, -⟩ | ⟨other, -, hwords, -, hmoved⟩
    · exact absurd herror (by decide)
    · refine hmoved 1 (congrArg some ?_)
      have hother : other.toList = "c".toList := (List.singleton_inj.mp hwords).symm
      exact (String.toList_inj.mp hother).symm

/-- A switch of a shard with a valid name is not always announced as what it is. -/
theorem spaced_name_unheard : ¬ ∀ (c : Config) (name : String) (old new : Endpoint),
    c.validate = .ok () → name ∈ c.shards → IsWord old.host.toList → IsWord new.host.toList →
    Announcement.parse (Announcement.payload name (some old) new) = .ok ⟨name, old, new⟩ := by
  intro hheard
  have hread := hheard spaced "a b" ⟨"h", 1⟩ ⟨"n", 9⟩ (by decide) (by decide) (by decide) (by decide)
  exact absurd hread (by decide)

end Router
end Holdfast
