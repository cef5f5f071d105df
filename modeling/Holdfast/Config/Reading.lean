import Holdfast.Config
import Holdfast.Config.Field

namespace Holdfast.Config

structure PoolDraft where
  maxSize : Option UInt64 := none
  maxIdle : Option UInt64 := none
  checkoutTimeout : Option UInt64 := none
  testOnBorrow : Option Bool := none

def poolFields : List (Field PoolDraft) :=
  [⟨"max_size", (·.maxSize.isSome), fun v d => return { d with maxSize := some (← readCount v) }⟩,
   ⟨"max_idle", (·.maxIdle.isSome), fun v d => return { d with maxIdle := some (← readCount v) }⟩,
   ⟨"checkout_timeout_ms", (·.checkoutTimeout.isSome),
    fun v d => return { d with checkoutTimeout := some (← readCount v) }⟩,
   ⟨"test_on_borrow", (·.testOnBorrow.isSome),
    fun v d => return { d with testOnBorrow := some (← readFlag v) }⟩]

def PoolDraft.finish (d : PoolDraft) : PoolOptions :=
  let standard : PoolOptions := {}
  ⟨d.maxSize.getD standard.maxSize, d.maxIdle.getD standard.maxIdle,
   d.checkoutTimeout.getD standard.checkoutTimeout, d.testOnBorrow.getD standard.testOnBorrow⟩

def readPool : Reader PoolOptions := fun v => PoolDraft.finish <$> readRecord poolFields {} v

structure LockDraft where
  hold : Option Int64 := none
  sleep : Option Int64 := none

def lockFields : List (Field LockDraft) :=
  [⟨"hold_timeout_secs", (·.hold.isSome),
    fun v d => return { d with hold := some (← readSigned v) }⟩,
   ⟨"retry_sleep_ms", (·.sleep.isSome),
    fun v d => return { d with sleep := some (← readSigned v) }⟩]

def LockDraft.finish (d : LockDraft) : Lock.Options :=
  let standard : Lock.Options := {}
  ⟨d.hold.getD standard.hold, d.sleep.getD standard.sleep⟩

def readLock : Reader Lock.Options := fun v => LockDraft.finish <$> readRecord lockFields {} v

structure FailoverDraft where
  startupRetries : Option UInt64 := none
  startupBackoff : Option UInt64 := none
  resubscribeBackoff : Option UInt64 := none

def failoverFields : List (Field FailoverDraft) :=
  [⟨"startup_retries", (·.startupRetries.isSome),
    fun v d => return { d with startupRetries := some (← readCount v) }⟩,
   ⟨"startup_backoff_ms", (·.startupBackoff.isSome),
    fun v d => return { d with startupBackoff := some (← readCount v) }⟩,
   ⟨"resubscribe_backoff_ms", (·.resubscribeBackoff.isSome),
    fun v d => return { d with resubscribeBackoff := some (← readCount v) }⟩]

def FailoverDraft.finish (d : FailoverDraft) : FailoverOptions :=
  let standard : FailoverOptions := {}
  ⟨d.startupRetries.getD standard.startupRetries, d.startupBackoff.getD standard.startupBackoff,
   d.resubscribeBackoff.getD standard.resubscribeBackoff⟩

def readFailover : Reader FailoverOptions :=
  fun v => FailoverDraft.finish <$> readRecord failoverFields {} v

/-- The two kinds of master source, by the name that tags them. -/
inductive SourceKind
  | sentinel
  | static
deriving DecidableEq, Repr

def readKind : Reader SourceKind := fun v => do
  match ← readText v with
  | "sentinel" => return .sentinel
  | "static" => return .static
  | _ => throw .malformed

/-- The tag of an object may stand at any place, but once. -/
def splitTag (kind : Option SourceKind) (others : List (Option String × Json.Value)) :
    List (Option String × Json.Value) →
      Except ReadError (SourceKind × List (Option String × Json.Value))
  | [] => match kind with
    | some k => .ok (k, others.reverse)
    | none => .error .malformed
  | (some "kind", v) :: rest =>
    if kind.isSome then .error .malformed
    else (readKind v).bind fun k => splitTag (some k) others rest
  | member :: rest => splitTag kind (member :: others) rest

def endpointsName : SourceKind → String
  | .sentinel => "peers"
  | .static => "masters"

def endpointsField (kind : SourceKind) : Field (Option (List Endpoint)) :=
  ⟨endpointsName kind, Option.isSome, fun v _ => some <$> readList readEndpoint v⟩

def SourceKind.source : SourceKind → List Endpoint → MasterSource
  | .sentinel => .sentinel
  | .static => .static

/-- How deep values may be nested where they are held before they are read. -/
def nestingRoom : Nat := 127

/-- The whole value is held before its tag is known, so it must be sound throughout. -/
def readSource : Reader MasterSource := fun v => do
  if !v.isHoldable nestingRoom then throw .malformed
  let (kind, fields) ← match v with
    | .object members _ => do
      let (kind, others) ← splitTag none [] members
      pure (kind, ← readMembers [endpointsField kind] none others)
    | .array (tag :: items) _ => do
      let kind ← readKind tag
      pure (kind, ← readItems none [endpointsField kind] items)
    | _ => throw .malformed
  match fields with
  | some endpoints => return kind.source endpoints
  | none => throw .malformed

structure Draft where
  shards : Option (List String) := none
  masters : Option MasterSource := none
  pool : Option PoolOptions := none
  connectTimeout : Option UInt64 := none
  username : Option (Option String) := none
  password : Option (Option String) := none
  database : Option Int64 := none
  lock : Option Lock.Options := none
  failover : Option FailoverOptions := none

def fields : List (Field Draft) :=
  [⟨"shards", (·.shards.isSome),
    fun v d => return { d with shards := some (← readList readText v) }⟩,
   ⟨"topology", (·.masters.isSome), fun v d => return { d with masters := some (← readSource v) }⟩,
   ⟨"pool", (·.pool.isSome), fun v d => return { d with pool := some (← readPool v) }⟩,
   ⟨"connect_timeout_ms", (·.connectTimeout.isSome),
    fun v d => return { d with connectTimeout := some (← readCount v) }⟩,
   ⟨"username", (·.username.isSome),
    fun v d => return { d with username := some (← readOptional readText v) }⟩,
   ⟨"password", (·.password.isSome),
    fun v d => return { d with password := some (← readOptional readText v) }⟩,
   ⟨"database", (·.database.isSome),
    fun v d => return { d with database := some (← readSigned v) }⟩,
   ⟨"lock", (·.lock.isSome), fun v d => return { d with lock := some (← readLock v) }⟩,
   ⟨"failover", (·.failover.isSome),
    fun v d => return { d with failover := some (← readFailover v) }⟩]

/-- Only the shards and where their masters come from must be given. -/
def Draft.finish (d : Draft) : Except ReadError Config :=
  match d.shards, d.masters with
  | some shards, some masters =>
    let standard : Config := { shards, masters }
    .ok { standard with
      pool := d.pool.getD standard.pool
      connectTimeout := d.connectTimeout.getD standard.connectTimeout
      username := d.username.getD none
      password := d.password.getD none
      database := d.database.getD standard.database
      lock := d.lock.getD standard.lock
      failover := d.failover.getD standard.failover }
  | _, _ => .error .malformed

def read : Reader Config := fun v => do (← readRecord fields {} v).finish

/-- Reads what there is of the document first, so that a fault in it comes before one after it. -/
def readDocument (read : Reader α) (d : Json.Document) : Except ReadError α := do
  match d.root with
  | none => throw .malformed
  | some root =>
    let result ← read root
    if d.clean then return result else throw .malformed

/-- Why a text or a file gives no valid configuration. -/
inductive LoadError
  | missing
  | notText
  | read (e : ReadError)
  | invalid (e : ConfigError)
deriving DecidableEq, Repr

def parse (text : String) : Except ReadError Config := readDocument read (Json.Document.parse text)

def ofText (text : String) : Except LoadError Config :=
  match parse text with
  | .error e => .error (.read e)
  | .ok c => match c.validate with
    | .error e => .error (.invalid e)
    | .ok () => .ok c

/-- Loads the content of a file, which is absent where there is no such file. -/
def ofFile (content : Option ByteArray) : Except LoadError Config :=
  match content with
  | none => .error .missing
  | some bytes => match String.fromUTF8? bytes with
    | none => .error .notText
    | some text => ofText text

end Holdfast.Config
