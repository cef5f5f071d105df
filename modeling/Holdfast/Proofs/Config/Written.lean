import Holdfast.Config.Writing
import Holdfast.Proofs.Config.Source
import Holdfast.Proofs.Json.Number

namespace Holdfast.Config

open Json (Value)

theorem readInt_write (i : Int) : readInt (writeInt i) = .ok i := by
  simp [readInt, writeInt, Json.Number.toInt?_ofInt]

theorem readCount_write (n : UInt64) : readCount (writeCount n) = .ok n := by
  have hlt : (n.toNat : Int) < (UInt64.size : Nat) := Int.ofNat_lt.mpr n.toNat_lt_size
  simp only [readCount, writeCount, readInt_write, bind, Except.bind]
  rw [if_pos ⟨Int.natCast_nonneg _, hlt⟩, Int.toNat_natCast, UInt64.ofNat_toNat]
  rfl

theorem readSigned_write (i : Int64) : readSigned (writeInt i.toInt) = .ok i := by
  have hrange : Int64.minValue.toInt ≤ i.toInt ∧ i.toInt ≤ Int64.maxValue.toInt :=
    ⟨i.minValue_le_toInt, i.toInt_le⟩
  rw [readSigned, readInt_write]
  dsimp only [bind, Except.bind]
  rw [if_pos hrange, Int64.ofInt_toInt]
  rfl

theorem readOptional_write (o : Option String) :
    readOptional readText (writeOptional o) = .ok o := by
  cases o <;> rfl

/-- A list is read back if each of its items is. -/
theorem readList_write {α : Type} {read : Reader α} {write : α → Value} {xs : List α}
    (h : ∀ x ∈ xs, read (write x) = .ok x) :
    readList read (writeArray (xs.map write)) = .ok xs := by
  have hitems : (xs.map write).mapM read = .ok xs := by
    induction xs with
    | nil => rfl
    | cons x xs ih =>
      have hrest := ih fun y hy => h y (List.mem_cons_of_mem _ hy)
      rw [List.map_cons, List.mapM_cons, h x List.mem_cons_self, hrest]
      rfl
  simp [readList, writeArray, hitems]

theorem readEndpoint_write {e : Endpoint} (h : e.Legible) : readEndpoint e.write = .ok e := by
  have htext : readText e.write = .ok e.toText := rfl
  rw [readEndpoint, htext]
  dsimp only [bind, Except.bind]
  rw [Endpoint.parse_toText h]
  rfl

theorem readPool_write (o : PoolOptions) : readPool o.write = .ok o := by
  simp [readPool, readRecord, PoolOptions.write, writeObject, readMembers, poolFields,
    readCount_write, readFlag, Except.bind, Functor.map, Except.map, PoolDraft.finish]

theorem readLock_write (o : Lock.Options) : readLock o.write = .ok o := by
  simp [readLock, readRecord, Lock.Options.write, writeObject, readMembers, lockFields,
    readSigned_write, Except.bind, Functor.map, Except.map, LockDraft.finish]

theorem readFailover_write (o : FailoverOptions) : readFailover o.write = .ok o := by
  simp [readFailover, readRecord, FailoverOptions.write, writeObject, readMembers, failoverFields,
    readCount_write, Except.bind, Functor.map, Except.map, FailoverDraft.finish]

theorem areHoldable_write (room : Nat) (es : List Endpoint) :
    Value.areHoldable room (es.map Endpoint.write) = true := by
  induction es with
  | nil => rfl
  | cons e es ih => simpa [Value.areHoldable, Endpoint.write, writeText, Value.isHoldable] using ih

theorem isHoldable_write (m : MasterSource) : m.write.isHoldable nestingRoom = true := by
  cases m <;>
    simp [MasterSource.write, writeObject, writeText, writeArray, Value.isHoldable,
      Value.membersHoldable, areHoldable_write, nestingRoom]

/-- The field beside the tag is read back. -/
theorem readMembers_write (kind : SourceKind) {es : List Endpoint} (h : ∀ e ∈ es, e.Legible) :
    readMembers [endpointsField kind] none
      [(some (endpointsName kind), writeArray (es.map Endpoint.write))] = .ok (some es) := by
  have hlist : (endpointsSlot kind).read (writeArray (es.map Endpoint.write)) = .ok es :=
    readList_write fun e he => readEndpoint_write (h e he)
  rw [endpointsField_eq]
  exact (readMembers_iff (lawful_endpointsSlot kind)).mpr
    (.put (s := endpointsSlot kind) List.mem_cons_self rfl hlist (.done _))

theorem readSource_write {m : MasterSource} (h : ∀ e ∈ m.endpoints, e.Legible) :
    readSource m.write = .ok m := by
  cases m with
  | sentinel peers =>
    exact readSource_object.mpr ⟨isHoldable_write (.sentinel peers), .sentinel, _, peers, rfl,
      readMembers_write .sentinel h, rfl⟩
  | static masters =>
    exact readSource_object.mpr ⟨isHoldable_write (.static masters), .static, _, masters, rfl,
      readMembers_write .static h, rfl⟩

theorem read_write {c : Config} (h : ∀ e ∈ c.masters.endpoints, e.Legible) :
    read c.write = .ok c := by
  have hshards : readList readText (writeArray (c.shards.map writeText)) = .ok c.shards :=
    readList_write fun _ _ => rfl
  have hread : readRecord fields {} c.write = .ok ⟨some c.shards, some c.masters, some c.pool,
      some c.connectTimeout, some c.username, some c.password, some c.database, some c.lock,
      some c.failover⟩ := by
    simp [readRecord, Config.write, writeObject, readMembers, fields, hshards, readSource_write h,
      readCount_write, readSigned_write, readOptional_write, readPool_write, readLock_write,
      readFailover_write, Except.bind]
  rw [read, hread]
  rfl

theorem arePlain_map {α : Type} {write : α → Value} {xs : List α}
    (h : ∀ x ∈ xs, (write x).isPlain = true) : Value.arePlain (xs.map write) = true := by
  induction xs with
  | nil => rfl
  | cons x xs ih =>
    rw [List.map_cons, Value.arePlain, h x List.mem_cons_self,
      ih fun y hy => h y (List.mem_cons_of_mem _ hy)]
    rfl

@[simp]
theorem isPlain_writeInt (i : Int) : (writeInt i).isPlain = true := by
  simp [writeInt, Value.isPlain, Json.Number.isProper_ofInt]

@[simp]
theorem isPlain_writeText (s : String) : (writeText s).isPlain = true := rfl

theorem isPlain_write (c : Config) : c.write.isPlain = true := by
  have hshards : Value.arePlain (c.shards.map writeText) = true :=
    arePlain_map fun s _ => isPlain_writeText s
  have hmasters : c.masters.write.isPlain = true := by
    have hlist : ∀ es : List Endpoint, Value.arePlain (es.map Endpoint.write) = true :=
      fun es => arePlain_map fun e _ => isPlain_writeText e.toText
    cases c.masters <;>
      simp [MasterSource.write, writeObject, writeArray, Value.isPlain, Value.membersPlain, hlist]
  have hoptional : ∀ o, (writeOptional o).isPlain = true := fun o => by cases o <;> rfl
  simp [Config.write, PoolOptions.write, Lock.Options.write, FailoverOptions.write, writeObject,
    writeArray, writeCount, Value.isPlain, Value.membersPlain, hshards, hmasters, hoptional]

end Holdfast.Config
