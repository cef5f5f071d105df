import Holdfast.Config.Reading
import Holdfast.Proofs.Config.Slot

namespace Holdfast.Config

open Json (Value)

/-- The fields of a record, which is empty before it is read. -/
structure Schema (ρ : Type) where
  slots : List (Slot ρ)
  empty : ρ
  lawful : Lawful slots
  blank : ∀ s ∈ slots, s.get empty = none

namespace Schema

variable {ρ : Type} {S : Schema ρ} {d : ρ}

def read (S : Schema ρ) : Reader ρ := readRecord (S.slots.map Slot.field) S.empty

theorem read_object {ms : List (Option String × Value)} {whole : Bool} :
    S.read (.object ms whole) = .ok d ↔ whole = true ∧ Fills S.slots S.empty ms d := by
  rw [← readMembers_iff S.lawful, read, readRecord, bind_eq_ok]
  cases whole <;> simp

theorem read_array {vs : List Value} {whole : Bool} :
    S.read (.array vs whole) = .ok d ↔ whole = true ∧ Lists S.slots S.empty vs d := by
  rw [← readItems_iff, read, readRecord, bind_eq_ok]
  cases whole <;> simp

/-- Whatever stands in a record has been read from some value. -/
theorem read_of_get {v : Value} (h : S.read v = .ok d) {s : Slot ρ} (hs : s ∈ S.slots)
    {a : s.Content} (ha : s.get d = some a) : ∃ w, s.read w = .ok a := by
  have hread : s.get d = s.get S.empty ∨ ∃ w b, s.read w = .ok b ∧ s.get d = some b := by
    cases v with
    | object ms whole => exact (read_object.mp h).2.get_or_read S.lawful hs
    | array vs whole => exact (read_array.mp h).2.get_or_read S.lawful hs
    | _ => cases h
  rcases hread with hkept | ⟨w, b, hw, hb⟩
  · rw [ha, S.blank s hs] at hkept
    cases hkept
  · rw [ha] at hb
    cases hb
    exact ⟨w, hw⟩

end Schema

def poolSlots : List (Slot PoolDraft) :=
  let standard : PoolOptions := {}
  [⟨"max_size", UInt64, readCount, (·.maxSize), fun a d => { d with maxSize := some a },
    some standard.maxSize⟩,
   ⟨"max_idle", UInt64, readCount, (·.maxIdle), fun a d => { d with maxIdle := some a },
    some standard.maxIdle⟩,
   ⟨"checkout_timeout_ms", UInt64, readCount, (·.checkoutTimeout),
    fun a d => { d with checkoutTimeout := some a }, some standard.checkoutTimeout⟩,
   ⟨"test_on_borrow", Bool, readFlag, (·.testOnBorrow),
    fun a d => { d with testOnBorrow := some a }, some standard.testOnBorrow⟩]

theorem lawful_poolSlots : Lawful poolSlots :=
  ⟨by simp [poolSlots, Slot.apart_iff], by simp [poolSlots]⟩

theorem blank_poolSlots : ∀ s ∈ poolSlots, s.get {} = none := by simp [poolSlots]

def poolSchema : Schema PoolDraft := ⟨poolSlots, {}, lawful_poolSlots, blank_poolSlots⟩

theorem readPool_eq (v : Value) : readPool v = PoolDraft.finish <$> poolSchema.read v := rfl

theorem PoolDraft.finish_congr {d d' : PoolDraft} (h : ∀ s ∈ poolSlots, s.value d' = s.value d) :
    d'.finish = d.finish := by
  simpa [poolSlots, Slot.value, PoolDraft.finish] using h

def lockSlots : List (Slot LockDraft) :=
  let standard : Lock.Options := {}
  [⟨"hold_timeout_secs", Int64, readSigned, (·.hold), fun a d => { d with hold := some a },
    some standard.hold⟩,
   ⟨"retry_sleep_ms", Int64, readSigned, (·.sleep), fun a d => { d with sleep := some a },
    some standard.sleep⟩]

theorem lawful_lockSlots : Lawful lockSlots :=
  ⟨by simp [lockSlots, Slot.apart_iff], by simp [lockSlots]⟩

theorem blank_lockSlots : ∀ s ∈ lockSlots, s.get {} = none := by simp [lockSlots]

def lockSchema : Schema LockDraft := ⟨lockSlots, {}, lawful_lockSlots, blank_lockSlots⟩

theorem readLock_eq (v : Value) : readLock v = LockDraft.finish <$> lockSchema.read v := rfl

theorem LockDraft.finish_congr {d d' : LockDraft} (h : ∀ s ∈ lockSlots, s.value d' = s.value d) :
    d'.finish = d.finish := by
  simpa [lockSlots, Slot.value, LockDraft.finish] using h

def failoverSlots : List (Slot FailoverDraft) :=
  let standard : FailoverOptions := {}
  [⟨"startup_retries", UInt64, readCount, (·.startupRetries),
    fun a d => { d with startupRetries := some a }, some standard.startupRetries⟩,
   ⟨"startup_backoff_ms", UInt64, readCount, (·.startupBackoff),
    fun a d => { d with startupBackoff := some a }, some standard.startupBackoff⟩,
   ⟨"resubscribe_backoff_ms", UInt64, readCount, (·.resubscribeBackoff),
    fun a d => { d with resubscribeBackoff := some a }, some standard.resubscribeBackoff⟩]

theorem lawful_failoverSlots : Lawful failoverSlots :=
  ⟨by simp [failoverSlots, Slot.apart_iff], by simp [failoverSlots]⟩

theorem blank_failoverSlots : ∀ s ∈ failoverSlots, s.get {} = none := by simp [failoverSlots]

def failoverSchema : Schema FailoverDraft :=
  ⟨failoverSlots, {}, lawful_failoverSlots, blank_failoverSlots⟩

theorem readFailover_eq (v : Value) :
    readFailover v = FailoverDraft.finish <$> failoverSchema.read v := rfl

theorem FailoverDraft.finish_congr {d d' : FailoverDraft}
    (h : ∀ s ∈ failoverSlots, s.value d' = s.value d) : d'.finish = d.finish := by
  simpa [failoverSlots, Slot.value, FailoverDraft.finish] using h

def slots : List (Slot Draft) :=
  let standard : Config := { shards := [], masters := .static [] }
  [⟨"shards", List String, readList readText, (·.shards), fun a d => { d with shards := some a },
    none⟩,
   ⟨"topology", MasterSource, readSource, (·.masters), fun a d => { d with masters := some a },
    none⟩,
   ⟨"pool", PoolOptions, readPool, (·.pool), fun a d => { d with pool := some a },
    some standard.pool⟩,
   ⟨"connect_timeout_ms", UInt64, readCount, (·.connectTimeout),
    fun a d => { d with connectTimeout := some a }, some standard.connectTimeout⟩,
   ⟨"username", Option String, readOptional readText, (·.username),
    fun a d => { d with username := some a }, some standard.username⟩,
   ⟨"password", Option String, readOptional readText, (·.password),
    fun a d => { d with password := some a }, some standard.password⟩,
   ⟨"database", Int64, readSigned, (·.database), fun a d => { d with database := some a },
    some standard.database⟩,
   ⟨"lock", Lock.Options, readLock, (·.lock), fun a d => { d with lock := some a },
    some standard.lock⟩,
   ⟨"failover", FailoverOptions, readFailover, (·.failover),
    fun a d => { d with failover := some a }, some standard.failover⟩]

theorem lawful_slots : Lawful slots :=
  ⟨by simp [slots, Slot.apart_iff], by simp [slots]⟩

theorem blank_slots : ∀ s ∈ slots, s.get {} = none := by simp [slots]

def schema : Schema Draft := ⟨slots, {}, lawful_slots, blank_slots⟩

theorem read_eq (v : Value) : read v = schema.read v >>= Draft.finish := rfl

theorem Draft.finish_congr {d d' : Draft} (h : ∀ s ∈ slots, s.value d' = s.value d) :
    d'.finish = d.finish := by
  simp only [slots, Slot.value, List.forall_mem_cons, Option.or_none, Option.or_some,
    Option.some.injEq] at h
  simp [Draft.finish, h]

/-- The only field beside the tag of a master source. -/
def endpointsSlot (kind : SourceKind) : Slot (Option (List Endpoint)) :=
  ⟨endpointsName kind, List Endpoint, readList readEndpoint, id, fun a _ => some a, none⟩

theorem endpointsField_eq (kind : SourceKind) : endpointsField kind = (endpointsSlot kind).field :=
  congrArg (Field.mk (endpointsName kind) Option.isSome)
    (funext fun v => funext fun d => ((endpointsSlot kind).field_read v d).symm)

theorem lawful_endpointsSlot (kind : SourceKind) : Lawful [endpointsSlot kind] :=
  ⟨by simp, by simp [endpointsSlot]⟩

theorem blank_endpointsSlot (kind : SourceKind) :
    ∀ s ∈ [endpointsSlot kind], s.get none = none := by simp [endpointsSlot]

end Holdfast.Config
