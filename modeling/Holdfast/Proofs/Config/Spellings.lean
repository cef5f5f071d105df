import Holdfast.Proofs.Config.Respelled
import Holdfast.Proofs.Config.Roundtrip

namespace Holdfast.Config

open Json (Value)

def poolLayout : Layout :=
  let standard : PoolOptions := {}
  [("max_size", some (writeCount standard.maxSize)),
   ("max_idle", some (writeCount standard.maxIdle)),
   ("checkout_timeout_ms", some (writeCount standard.checkoutTimeout)),
   ("test_on_borrow", some (.bool standard.testOnBorrow))]

def lockLayout : Layout :=
  let standard : Lock.Options := {}
  [("hold_timeout_secs", some (writeInt standard.hold.toInt)),
   ("retry_sleep_ms", some (writeInt standard.sleep.toInt))]

def failoverLayout : Layout :=
  let standard : FailoverOptions := {}
  [("startup_retries", some (writeCount standard.startupRetries)),
   ("startup_backoff_ms", some (writeCount standard.startupBackoff)),
   ("resubscribe_backoff_ms", some (writeCount standard.resubscribeBackoff))]

/-- Only the shards and where their masters come from must be given. -/
def layout : Layout :=
  let standard : Config := { shards := [], masters := .static [] }
  [("shards", none), ("topology", none), ("pool", some standard.pool.write),
   ("connect_timeout_ms", some (writeCount standard.connectTimeout)),
   ("username", some (writeOptional standard.username)),
   ("password", some (writeOptional standard.password)),
   ("database", some (writeInt standard.database.toInt)), ("lock", some standard.lock.write),
   ("failover", some standard.failover.write)]

/-- The options may be written otherwise as records of their own, and the members of a topology in
another order. -/
inductive Within : String → Value → Value → Prop
  | pool {v v' : Value} (h : Respelled poolLayout Nowhere v v') : Within "pool" v v'
  | lock {v v' : Value} (h : Respelled lockLayout Nowhere v v') : Within "lock" v v'
  | failover {v v' : Value} (h : Respelled failoverLayout Nowhere v v') : Within "failover" v v'
  | topology {ms ms' : List (Option String × Value)} (order : ms.Perm ms') (whole : Bool) :
      Within "topology" (.object ms whole) (.object ms' whole)

theorem declares_pool : List.Forall₂ Declares poolSchema.slots poolLayout :=
  .cons (.standing (readCount_write _) rfl) (.cons (.standing (readCount_write _) rfl)
    (.cons (.standing (readCount_write _) rfl) (.cons (.standing (a := true) rfl rfl) .nil)))

theorem declares_lock : List.Forall₂ Declares lockSchema.slots lockLayout :=
  .cons (.standing (readSigned_write _) rfl) (.cons (.standing (readSigned_write _) rfl) .nil)

theorem declares_failover : List.Forall₂ Declares failoverSchema.slots failoverLayout :=
  .cons (.standing (readCount_write _) rfl) (.cons (.standing (readCount_write _) rfl)
    (.cons (.standing (readCount_write _) rfl) .nil))

theorem declares : List.Forall₂ Declares schema.slots layout :=
  .cons (.required _) (.cons (.required _) (.cons (.standing (readPool_write _) rfl)
    (.cons (.standing (readCount_write _) rfl) (.cons (.standing (readOptional_write none) rfl)
      (.cons (.standing (readOptional_write none) rfl) (.cons (.standing (readSigned_write _) rfl)
        (.cons (.standing (readLock_write _) rfl)
          (.cons (.standing (readFailover_write _) rfl) .nil))))))))

theorem readPool_respelled {v v' : Value} (h : Respelled poolLayout Nowhere v v') {o : PoolOptions}
    (hread : readPool v = .ok o) : readPool v' = .ok o := by
  rw [readPool_eq] at hread ⊢
  exact h.read_map declares_pool PoolDraft.finish_congr hread

theorem readLock_respelled {v v' : Value} (h : Respelled lockLayout Nowhere v v') {o : Lock.Options}
    (hread : readLock v = .ok o) : readLock v' = .ok o := by
  rw [readLock_eq] at hread ⊢
  exact h.read_map declares_lock LockDraft.finish_congr hread

theorem readFailover_respelled {v v' : Value} (h : Respelled failoverLayout Nowhere v v')
    {o : FailoverOptions} (hread : readFailover v = .ok o) : readFailover v' = .ok o := by
  rw [readFailover_eq] at hread ⊢
  exact h.read_map declares_failover FailoverDraft.finish_congr hread

theorem eq_slot {s : Slot Draft} (hs : s ∈ slots) (i : Fin slots.length)
    (hname : s.name = slots[i].name) : s = slots[i] :=
  lawful_slots.eq_of_name hs (List.getElem_mem i.isLt) hname

/-- What may be written otherwise within a field has the same content. -/
theorem Within.read {s : Slot Draft} (hs : s ∈ slots) {v v' : Value} (h : Within s.name v v')
    {a : s.Content} (ha : s.read v = .ok a) : s.read v' = .ok a := by
  generalize hname : s.name = key at h
  cases h with
  | pool h =>
    obtain rfl := eq_slot hs ⟨2, by decide⟩ hname
    exact readPool_respelled h ha
  | lock h =>
    obtain rfl := eq_slot hs ⟨7, by decide⟩ hname
    exact readLock_respelled h ha
  | failover h =>
    obtain rfl := eq_slot hs ⟨8, by decide⟩ hname
    exact readFailover_respelled h ha
  | topology order whole =>
    obtain rfl := eq_slot hs ⟨1, by decide⟩ hname
    exact readSource_perm order ha

theorem read_respelled {v v' : Value} (h : Respelled layout Within v v') {c : Config}
    (hread : read v = .ok c) : read v' = .ok c := by
  rw [read_eq, bind_eq_ok] at hread ⊢
  obtain ⟨d, hd, hc⟩ := hread
  obtain ⟨d', hd', hvalues⟩ :=
    h.read declares (fun _ hs _ _ hwithin _ => hwithin.read hs) hd
  exact ⟨d', hd', by rw [Draft.finish_congr hvalues, hc]⟩

/-- A document that is accepted is accepted however else it is written, with the same result; and
where nothing is missing of what is then to be written, it has a text. -/
theorem ofText_respelled {v v' : Value} (h : Respelled layout Within v v') {s : String}
    (hs : Json.Document.parse s = ⟨some v, true⟩) {c : Config} (hok : ofText s = .ok c) :
    (∀ s', Json.Document.parse s' = ⟨some v', true⟩ → ofText s' = .ok c) ∧
      (v'.isPlain = true → ofText v'.render = .ok c) := by
  obtain ⟨hparse, hvalid⟩ := ofText_eq_ok.mp hok
  obtain ⟨w, hw, hread⟩ := parse_eq_ok.mp hparse
  rw [hs] at hw
  cases hw
  have hother : ∀ s', Json.Document.parse s' = ⟨some v', true⟩ → ofText s' = .ok c :=
    fun s' hs' => ofText_eq_ok.mpr ⟨parse_eq_ok.mpr ⟨v', hs', read_respelled h hread⟩, hvalid⟩
  exact ⟨hother, fun hplain => hother _ (Json.Document.parse_render hplain)⟩

def terse : Value :=
  writeObject [("pool", writeObject [("max_idle", writeInt 3)]),
    ("topology", writeObject [("masters", writeArray [writeText "h:1"]),
      ("kind", writeText "static")]),
    ("shards", writeArray [writeText "a"])]

def fullPool : Value := writeArray [writeInt 8, writeInt 3, writeInt 2000, .bool true]

def full : Value :=
  let standard : Config := { shards := [], masters := .static [] }
  writeArray [writeArray [writeText "a"],
    writeObject [("kind", writeText "static"), ("masters", writeArray [writeText "h:1"])],
    fullPool, writeInt 2000, .null, .null, writeInt 0, standard.lock.write,
    standard.failover.write]

theorem respelled_pool :
    Respelled poolLayout Nowhere (writeObject [("max_idle", writeInt 3)]) fullPool :=
  .listed (.cons (.inr ⟨by simp, rfl⟩) (.cons (.inl (by simp)) (.cons (.inr ⟨by simp, rfl⟩)
    (.cons (.inr ⟨by simp, rfl⟩) .nil)))) true

theorem respelled_terse : Respelled layout Within terse full := by
  refine .trans (.member (by decide) (.pool respelled_pool) [] [_, _] true) ?_
  refine .trans (.member (by decide) (.topology (.swap _ _ []) true) [_] [_] true) ?_
  refine .trans (@Respelled.padded _ _ "note" (writeArray [.null]) (by decide) rfl [_] [_, _] true)
    ?_
  refine .trans (.permuted (List.reverse_perm _).symm true) (.listed ?_ true)
  exact .cons (.inl (by simp)) (.cons (.inl (by simp [writeObject])) (.cons (.inl (by simp))
    (.cons (.inr ⟨by simp, rfl⟩) (.cons (.inr ⟨by simp, rfl⟩) (.cons (.inr ⟨by simp, rfl⟩)
      (.cons (.inr ⟨by simp, rfl⟩) (.cons (.inr ⟨by simp, rfl⟩)
        (.cons (.inr ⟨by simp, rfl⟩) .nil))))))))

theorem ofText_respelled_terse :
    ∃ c, ofText terse.render = .ok c ∧ ofText full.render = .ok c := by
  have hok : ofText terse.render =
      .ok { shards := ["a"], masters := .static [⟨"h", 1⟩], pool := { maxIdle := 3 } } := by
    decide +kernel
  have hplain : terse.isPlain = true ∧ full.isPlain = true := by decide +kernel
  exact ⟨_, hok, (ofText_respelled respelled_terse (Json.Document.parse_render hplain.1) hok).2
    hplain.2⟩

end Holdfast.Config
