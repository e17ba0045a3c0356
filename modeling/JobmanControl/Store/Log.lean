import JobmanControl.Store.Agent

/-!
Captured logs. An agent places the bytes of a chunk in its target's log store and commits
a reference; chunks may arrive in any order and more than once. What readers see of a
stream is the prefix of its chunks without a gap, which every commit computes again.
-/

namespace JobmanControl

open Relational

structure LogChunk where
  executionId : Id
  agentId : Id
  stream : LogStream
  sequence : Int
  storeName : String
  storeVersion : Int
  objectKey : String
  byteOffset : Int
  byteLength : Int
  checksum : String
  capturedAt : Time
  complete : Bool
  truncated : Bool
  documentDigest : String
  document : String
  deriving DecidableEq, Repr

def LogChunk.key (chunk : LogChunk) : LogChunkKey :=
  ⟨chunk.executionId, chunk.stream, chunk.sequence⟩

/-- `math.MaxInt64`, also the largest `bigint`. -/
def maxInt64 : Int := 9223372036854775807

/-- The largest `integer` of the server. -/
def maxInt32 : Int := 2147483647

def LogStream.text : LogStream → String
  | .stdout => "stdout"
  | .stderr => "stderr"

/-- `%08d` of a positive number. -/
def eightDigits (n : Int) : String :=
  let digits := Nat.toDigits 10 n.toNat
  String.ofList (List.replicate (8 - digits.length) '0' ++ digits)

/-- Where the bytes of a chunk must be; `uuid` writes an identity. -/
def logObjectKey (uuid : Id → String) (namespaceName : String) (jobId executionId : Id)
    (stream : LogStream) (sequence : Int) : String :=
  "namespaces/" ++ namespaceName ++ "/jobs/" ++ uuid jobId ++ "/executions/" ++ uuid executionId ++
    "/logs/" ++ stream.text ++ "/" ++ eightDigits sequence ++ ".chunk"

def Db.chunksOf (db : Db) (executionId : Id) (stream : LogStream) : List (Int × LogChunkRow) :=
  orderBy (fun a b => a.1 ≤ b.1)
    ((db.logChunks.select fun key _ => key.executionId = executionId && key.stream = stream).map
      fun entry => (entry.1.sequence, entry.2))

structure LogProjection where
  lastSequence : Int
  byteLength : Int
  complete : Bool
  truncated : Bool
  deriving DecidableEq, Repr

def projectChunks : Int → LogProjection → List (Int × LogChunkRow) → Except StoreError LogProjection
  | _, projection, [] => .ok projection
  | expected, projection, (sequence, row) :: rest =>
      if sequence ≠ expected then .ok projection
      else do
        ensure (row.byteOffset = projection.byteLength) .conflict
        let projection : LogProjection :=
          { projection with
            lastSequence := sequence
            byteLength := projection.byteLength + row.byteLength }
        if row.complete then pure { projection with complete := true, truncated := row.truncated }
        else projectChunks (expected + 1) projection rest

def contiguousLogProjection (db : Db) (executionId : Id) (stream : LogStream) :
    Except StoreError LogProjection :=
  projectChunks 1 ⟨0, 0, false, false⟩ (db.chunksOf executionId stream)

structure LogExecution where
  execution : ExecutionRow
  run : RunRow
  namespaceName : String
  generation : GenerationRow
  deriving DecidableEq, Repr

def logExecution (db : Db) (executionId namespaceId : Id) : Option LogExecution := do
  let execution ← db.executions.get? executionId
  guard (execution.namespaceId = namespaceId)
  let run ← db.runs.get? execution.runId
  let namespaceName ← db.namespaces.get? execution.namespaceId
  let generation ← db.generations.get? execution.targetGenerationId
  pure ⟨execution, run, namespaceName, generation⟩

def LogChunk.wellFormed (chunk : LogChunk) : Bool :=
  decide (1 ≤ chunk.sequence ∧ 0 ≤ chunk.byteOffset ∧ 0 ≤ chunk.byteLength ∧
    chunk.byteLength ≤ 262144 ∧ validDigest chunk.checksum = true ∧
    (chunk.byteLength = 0 → chunk.complete = true) ∧
    (chunk.truncated = true → chunk.complete = true))

/-- `INSERT INTO log_streams … ON CONFLICT (execution_id, stream) DO NOTHING`. The check
constraints are tested either way. -/
def openLogStream (identity : AgentIdentity) (chunk : LogChunk) (db : Db) :
    Except StoreError Db := do
  ensure (validStoreName chunk.storeName) (.constraint "log_streams_store_name_format")
  ensure (0 < chunk.storeVersion) (.constraint "log_streams_store_version_positive")
  match db.logStreams.insert? (chunk.executionId, chunk.stream)
      ⟨identity.namespaceId, identity.agentId, chunk.storeName, chunk.storeVersion, .capturing, 0,
        0⟩ with
  | some streams => pure { db with logStreams := streams }
  | none => pure db

/-- The neighbours of a chunk: the end of the one before, the start of the one after, the
largest number and the number of the complete chunk. -/
structure LogNeighbors where
  priorEnd : Option Int
  nextOffset : Option Int
  maximumSequence : Int
  terminalSequence : Option Int
  deriving DecidableEq, Repr

/-- The statement over the neighbours. Its parameter `$3` stands in `$3 - 1` and `$3 + 1`
only, so that the server takes it for an `integer`; a value it cannot hold, or whose
successor it cannot hold, is refused. -/
def inspectNeighbors (db : Db) (key : LogChunkKey) : Except StoreError LogNeighbors := do
  ensure (key.sequence + 1 ≤ maxInt32)
    (.invalid "inspect log chunk neighbors: integer out of range")
  let chunks := db.chunksOf key.executionId key.stream
  pure
    { priorEnd := (db.logChunks.get? { key with sequence := key.sequence - 1 }).map fun row =>
        row.byteOffset + row.byteLength
      nextOffset := (db.logChunks.get? { key with sequence := key.sequence + 1 }).map fun row =>
        row.byteOffset
      maximumSequence := (chunks.getLast?.map Prod.fst).getD 0
      terminalSequence := ((chunks.filter fun entry => entry.2.complete).getLast?).map Prod.fst }

def LogNeighbors.admits (neighbors : LogNeighbors) (chunk : LogChunk) : Bool :=
  decide ((chunk.sequence = 1 → chunk.byteOffset = 0) ∧
    (∀ priorEnd ∈ neighbors.priorEnd, priorEnd = chunk.byteOffset) ∧
    (∀ nextOffset ∈ neighbors.nextOffset, chunk.byteOffset + chunk.byteLength = nextOffset) ∧
    (∀ terminal ∈ neighbors.terminalSequence, chunk.sequence < terminal) ∧
    (chunk.complete = true → neighbors.terminalSequence = none ∧
      neighbors.maximumSequence < chunk.sequence))

def newLogChunkRow (env : Env) (identity : AgentIdentity) (chunk : LogChunk) : LogChunkRow :=
  { namespaceId := identity.namespaceId
    agentId := identity.agentId
    storeName := chunk.storeName
    storeVersion := chunk.storeVersion
    objectKey := chunk.objectKey
    byteOffset := chunk.byteOffset
    byteLength := chunk.byteLength
    checksum := chunk.checksum
    capturedAt := chunk.capturedAt
    complete := chunk.complete
    truncated := chunk.truncated
    committedAt := env.now
    documentDigest := chunk.documentDigest
    document := chunk.document }

def insertLogChunk (env : Env) (identity : AgentIdentity) (chunk : LogChunk) (db : Db) :
    Except StoreError Db := do
  ensure (1 ≤ chunk.objectKey.length ∧ chunk.objectKey.length ≤ 1024)
    (.constraint "log_chunks_object_key_length")
  ensure (validDigest chunk.documentDigest) (.constraint "log_chunks_document_digest_format")
  ensure (!db.logChunks.any fun _ existing =>
      existing.storeName = chunk.storeName && existing.storeVersion = chunk.storeVersion &&
        existing.objectKey = chunk.objectKey)
    (.constraint "log_chunks_store_object_unique")
  let chunks ← need (db.logChunks.insert? chunk.key (newLogChunkRow env identity chunk))
    (.constraint "log_chunks_pkey")
  pure { db with logChunks := chunks }

def advanceLogStream (env : Env) (identity : AgentIdentity) (chunk : LogChunk)
    (projection : LogProjection) (db : Db) : Db :=
  let db : Db :=
    { db with
      logStreams := db.logStreams.modify (chunk.executionId, chunk.stream) fun stream =>
        { stream with
          byteLength := projection.byteLength
          lastSequence := projection.lastSequence
          state := if projection.complete then .complete env.now projection.truncated
            else stream.state } }
  if projection.complete then
    db.appendAudit
      ⟨identity.namespaceId, .agent identity.agentId, .logCompleted, .execution, chunk.executionId,
        some chunk.documentDigest, none⟩
  else db

/-- The statements of a commit after the lock on its stream, for a chunk that was not
found. -/
def appendLogChunk (env : Env) (identity : AgentIdentity) (chunk : LogChunk)
    (stream : LogStreamRow) (db : Db) : Except StoreError Db := do
  ensure (chunk.byteOffset ≤ maxInt64 - chunk.byteLength) .conflict
  ensure (stream.state = .capturing ∧ stream.storeName = chunk.storeName ∧
    stream.storeVersion = chunk.storeVersion) .conflict
  let neighbors ← inspectNeighbors db chunk.key
  ensure (neighbors.admits chunk) .conflict
  let db ← insertLogChunk env identity chunk db
  let projection ← contiguousLogProjection db chunk.executionId chunk.stream
  pure (advanceLogStream env identity chunk projection db)

/-- `CommitLogChunk`. The outer join of the lock statement yields the chunk that has the
same number, as of the moment the statement began. -/
def commitLogChunk (uuid : Id → String) (existing : Db → LogChunkKey → Option LogChunkRow)
    (env : Env) (identity : AgentIdentity) (chunk : LogChunk) :
    Tx StoreError Db Bool := fun db => do
  ensure (chunk.wellFormed) .conflict
  let row ← need (logExecution db chunk.executionId identity.namespaceId) .notFound
  ensure (row.execution.agentId = identity.agentId ∧ chunk.agentId = identity.agentId) .forbidden
  ensure (chunk.storeName = row.generation.logStoreName.getD "" ∧
    chunk.storeVersion = row.generation.logStoreVersion.getD 0) .forbidden
  ensure (row.execution.progress ≠ .live .planned) .conflict
  ensure (chunk.objectKey = logObjectKey uuid row.namespaceName row.run.jobId chunk.executionId
    chunk.stream chunk.sequence) .conflict
  let db ← openLogStream identity chunk db
  let stream ← need (db.logStreams.get? (chunk.executionId, chunk.stream))
    (.invalid "lock log stream")
  match existing db chunk.key with
  | some prior => do
      ensure (prior.documentDigest = chunk.documentDigest) .idempotencyConflict
      pure (true, db)
  | none => do
      let db ← appendLogChunk env identity chunk stream db
      pure (false, db)

def Db.chunkAt (db : Db) (key : LogChunkKey) : Option LogChunkRow := db.logChunks.get? key

/-! What a commit writes. -/

section Writes

variable {uuid : Id → String} {existing : Db → LogChunkKey → Option LogChunkRow} {env : Env}
  {identity : AgentIdentity} {chunk : LogChunk} {db db' : Db}

theorem openLogStream_writes (h : openLogStream identity chunk db = .ok db') :
    ∃ streams, db' = { db with logStreams := streams } := by
  simp only [openLogStream, bind_ok_iff] at h
  obtain ⟨-, -, -, -, h⟩ := h
  split at h <;> cases h
  · exact ⟨_, rfl⟩
  · exact ⟨db.logStreams, rfl⟩

theorem appendLogChunk_writes {stream : LogStreamRow}
    (h : appendLogChunk env identity chunk stream db = .ok db') :
    ∃ streams chunks audit,
      db' = { db with logStreams := streams, logChunks := chunks, audit := audit } := by
  simp only [appendLogChunk, insertLogChunk, bind_ok_iff, pure_ok_iff] at h
  obtain ⟨-, -, -, -, _, -, -, -, _, ⟨-, -, -, -, -, -, chunks, -, rfl⟩, projection, -, rfl⟩ := h
  rw [advanceLogStream]
  dsimp only
  split
  · exact ⟨_, chunks, _, rfl⟩
  · exact ⟨_, chunks, _, rfl⟩

/-- A commit opens the stream, and answers from a chunk it finds or appends a new one. -/
theorem commitLogChunk_writes {replayed : Bool}
    (h : commitLogChunk uuid existing env identity chunk db = .ok (replayed, db')) :
    ∃ streams chunks audit,
      db' = { db with logStreams := streams, logChunks := chunks, audit := audit } := by
  simp only [commitLogChunk, bind_ok_iff] at h
  obtain ⟨-, -, _, -, -, -, -, -, -, -, -, -, _, hopen, stream, -, h⟩ := h
  obtain ⟨streams, rfl⟩ := openLogStream_writes hopen
  split at h <;> simp only [bind_ok_iff, pure_ok_iff, Prod.mk.injEq] at h
  · obtain ⟨-, -, -, rfl⟩ := h
    exact ⟨streams, db.logChunks, db.audit, rfl⟩
  · obtain ⟨_, happend, -, rfl⟩ := h
    obtain ⟨_, chunks, audit, rfl⟩ := appendLogChunk_writes happend
    exact ⟨_, chunks, audit, rfl⟩

end Writes

end JobmanControl
