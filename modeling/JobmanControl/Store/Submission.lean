import JobmanControl.Store.Statement

/-!
The parts submissions share: the submitted values and their checks, placement
on a registered target, the idempotency records, the namespace quota and the
insertion of one accepted job. Authority is decided elsewhere; a transaction
receives the authorization or the error the authority tables yield.
-/

namespace JobmanControl

open Relational

/-- What `authorizeNamespace` yields for the caller. -/
structure Authorization where
  namespaceId : Id
  principalId : Id
  cancelAny : Bool
  deriving DecidableEq, Repr

structure ExecutionFeatures where
  directCommand : Bool
  resources : Bool
  temporaryStorage : Bool
  extensions : Bool
  environmentProfile : Bool
  secrets : Bool
  retryMaxRuns : Int
  schedulerEnvironmentOverride : Bool
  deriving DecidableEq, Repr

structure JobSubmission where
  namespaceName : String
  name : String
  labels : List (String × String)
  target : String
  partition : String
  runtimeKind : String
  operatingSystems : List String
  architectures : List String
  capabilities : List String
  artifactStores : List String
  workloadDigest : String
  workloadDocument : String
  requestDigest : String
  requestDocument : String
  executionFeatures : ExecutionFeatures
  deriving DecidableEq, Repr

structure CollectionSubmission where
  namespaceName : String
  name : String
  labels : List (String × String)
  maxActive : Int
  failurePolicy : FailurePolicy
  arrayPolicy : ArrayPolicy
  requestDigest : String
  requestDocument : String
  items : List JobSubmission
  deriving DecidableEq, Repr

structure GraphEdgeSubmission where
  source : String
  sink : String
  predicate : EdgePredicate
  outcomes : List Outcome
  deriving DecidableEq, Repr

structure GraphSubmission where
  namespaceName : String
  name : String
  labels : List (String × String)
  maxActive : Int
  unsatisfiedPolicy : UnsatisfiedPolicy
  requestDigest : String
  requestDocument : String
  nodes : List JobSubmission
  edges : List GraphEdgeSubmission
  deriving DecidableEq, Repr

structure ResolvedPlacement where
  targetId : Id
  targetGenerationId : Id
  partition : String
  executionBackend : ExecutionBackend
  artifactStores : List ArtifactStore
  deriving DecidableEq, Repr

structure Job where
  id : Id
  row : JobRow
  deriving DecidableEq, Repr

def validIdempotencyKey (value : String) : Bool :=
  1 ≤ value.utf8ByteSize && value.utf8ByteSize ≤ 200 &&
    value.toList.all fun character => 0x21 ≤ character.toNat && character.toNat ≤ 0x7e

/-- `^[a-z0-9](?:[a-z0-9._-]{0,126}[a-z0-9])?$`. -/
def validName (value : String) : Bool :=
  let edge (c : Char) : Bool := ('a' ≤ c && c ≤ 'z') || ('0' ≤ c && c ≤ '9')
  let inner (c : Char) : Bool := edge c || c = '.' || c = '_' || c = '-'
  match value.toList with
  | [] => false
  | first :: rest =>
      edge first && rest.length ≤ 127 && rest.dropLast.all inner &&
        (rest.getLast?.map edge).getD true

def validateSubmission (codec : Codec) (submission : JobSubmission) : Except StoreError Unit := do
  ensure (submission.namespaceName ≠ "" ∧ submission.name ≠ "" ∧ submission.target ≠ "")
    (.invalid "submission identity and target must not be empty")
  ensure (submission.workloadDigest ≠ "" ∧ submission.requestDigest ≠ "")
    (.invalid "submission digests must not be empty")
  ensure (codec.valid submission.workloadDocument ∧ codec.valid submission.requestDocument)
    (.invalid "submission documents must be valid JSON")

/-- The item loop of `validateCollectionSubmission`. -/
def validateCollectionItems (codec : Codec) (namespaceName : String) (seen : List String) :
    List JobSubmission → Except StoreError Unit
  | [] => .ok ()
  | item :: rest => do
      ensure (validName item.name) (.invalid "collection item name is invalid")
      ensure (item.name ∉ seen) (.invalid "collection item name is duplicated")
      ensure (item.namespaceName = namespaceName ∧
          (validateSubmission codec item).toOption = some ())
        (.invalid "collection item submission is invalid")
      validateCollectionItems codec namespaceName (item.name :: seen) rest

def validateCollectionSubmission (codec : Codec) (submission : CollectionSubmission) :
    Except StoreError Unit := do
  ensure (validName submission.namespaceName ∧ validName submission.name ∧
      submission.items.length ≠ 0 ∧ submission.items.length ≤ 10000 ∧
      1 ≤ submission.maxActive ∧ submission.maxActive ≤ submission.items.length ∧
      codec.valid submission.requestDocument ∧ submission.requestDigest ≠ "")
    (.invalid "collection submission is invalid")
  validateCollectionItems codec submission.namespaceName [] submission.items

/-- The node loop of `validateGraphSubmission`. -/
def validateGraphNodes (codec : Codec) (namespaceName : String) (seen : List String) :
    List JobSubmission → Except StoreError Unit
  | [] => .ok ()
  | node :: rest => do
      ensure (validName node.name ∧ node.namespaceName = namespaceName ∧
          (validateSubmission codec node).toOption = some ())
        (.invalid "graph node submission is invalid")
      ensure (node.name ∉ seen) (.invalid "graph node name is duplicated")
      validateGraphNodes codec namespaceName (node.name :: seen) rest

/-- The edge loop of `validateGraphSubmission`. Whether the edges form a cycle is
not asked here. -/
def validateGraphEdges (names : List String) (seen : List (String × String)) :
    List GraphEdgeSubmission → Except StoreError Unit
  | [] => .ok ()
  | edge :: rest => do
      ensure (edge.source ∈ names ∧ edge.sink ∈ names ∧ edge.source ≠ edge.sink)
        (.invalid "graph edge is invalid")
      ensure ((edge.source, edge.sink) ∉ seen) (.invalid "graph edge is duplicated")
      validateGraphEdges names ((edge.source, edge.sink) :: seen) rest

def validateGraphSubmission (codec : Codec) (submission : GraphSubmission) :
    Except StoreError Unit := do
  ensure (validName submission.namespaceName ∧ validName submission.name ∧
      submission.nodes.length ≠ 0 ∧ submission.nodes.length ≤ 10000 ∧
      1 ≤ submission.maxActive ∧ submission.maxActive ≤ submission.nodes.length ∧
      codec.valid submission.requestDocument ∧ submission.requestDigest ≠ "")
    (.invalid "graph submission is invalid")
  validateGraphNodes codec submission.namespaceName [] submission.nodes
  validateGraphEdges (submission.nodes.map (·.name)) [] submission.edges

def containsAll (available required : List String) : Bool :=
  required.all fun value => available.contains value

def validateExecutionFeatures (backend : ExecutionBackend) (features : ExecutionFeatures) :
    Except StoreError Unit := do
  ensure (features.directCommand)
    (.invalidPlacement "this execution slice supports only direct executable commands")
  ensure (!features.extensions)
    (.invalidPlacement "this execution slice does not yet support extensions")
  ensure (!features.environmentProfile ∧ !features.secrets)
    (.invalidPlacement
      "this execution slice does not yet support environment profiles or secrets")
  ensure (features.retryMaxRuns = 1)
    (.invalidPlacement "this execution slice does not yet support retries")
  match backend with
  | .subprocess =>
      ensure (!features.resources)
        (.invalidPlacement "subprocess targets do not yet support resource requests")
  | .slurm =>
      ensure (!features.temporaryStorage)
        (.invalidPlacement "Slurm targets do not yet support temporary storage requests")
      ensure (!features.schedulerEnvironmentOverride)
        (.invalidPlacement "Slurm targets reserve scheduler-provided environment variables")

def resolveArtifactStores (configured : List ArtifactStore) (requested : List String) :
    Except StoreError (List ArtifactStore) := do
  ensure (requested.length ≤ 1)
    (.invalidPlacement "this execution slice supports one artifact store per workload")
  requested.mapM fun name =>
    need (configured.find? fun store => store.name = name)
      (.invalidPlacement ("artifact store " ++ name.quote ++ " is not approved by the target"))

def resolvePartition (db : Db) (generationId : Id) (requested : String) :
    Except StoreError String :=
  if requested ≠ "" then do
    let partition ← need
      ((db.partitions.select fun _ partition =>
        partition.targetGenerationId = generationId && partition.name = requested &&
          partition.state = .active).head?)
      (.invalidPlacement "partition is not active on the selected target")
    pure partition.2.name
  else
    match (db.partitions.select fun _ partition =>
        partition.targetGenerationId = generationId && partition.isDefault &&
          partition.state = .active).head? with
    | some partition => .ok partition.2.name
    | none => .ok ""

def resolveTarget (db : Db) (namespaceId : Id) (submission : JobSubmission) :
    Except StoreError ResolvedPlacement := do
  let target ← need
    ((db.targets.select fun _ target =>
      target.namespaceId = namespaceId && target.name = submission.target).head?)
    (.invalidPlacement "target is not registered")
  let generationId ← need target.2.currentGenerationId
    (.invalidPlacement "target is not registered")
  let generation ← need (db.generations.get? generationId)
    (.invalidPlacement "target is not registered")
  ensure (target.2.state = .active) (.invalidPlacement "target is not active")
  ensure (generation.runtimes.contains submission.runtimeKind ∧
      containsAll generation.operatingSystems submission.operatingSystems ∧
      containsAll generation.architectures submission.architectures ∧
      containsAll generation.capabilities submission.capabilities)
    (.invalidPlacement "target capabilities do not satisfy the workload")
  let artifactStores ← resolveArtifactStores generation.artifactStores submission.artifactStores
  validateExecutionFeatures generation.executionBackend submission.executionFeatures
  let partition ← resolvePartition db generationId submission.partition
  pure ⟨target.1, generationId, partition, generation.executionBackend, artifactStores⟩

/-- `some id` when the key is a completed replay, `none` when it was reserved now. The
length of the operation is checked whether or not the insertion meets a record. -/
def reserveIdempotency (db : Db) (authorization : Authorization)
    (operation : IdempotentOperation) (resourceType : ResourceType)
    (key requestDigest : String) (responseStatus : Nat) :
    Except StoreError (Option Id × Db) := do
  let recordKey : IdempotencyKey :=
    ⟨authorization.namespaceId, authorization.principalId, operation, key⟩
  ensure (operation.text.length ≤ 128) (.constraint "idempotency_records_operation_length")
  match db.idempotency.insert? recordKey ⟨requestDigest, resourceType, none⟩ with
  | some idempotency => .ok (none, { db with idempotency := idempotency })
  | none => do
      let persisted ← need (db.idempotency.get? recordKey) (.invalid "read idempotency key")
      ensure (persisted.requestDigest = requestDigest) .idempotencyConflict
      let response ← need persisted.response (.invalid "idempotency record is incomplete")
      ensure (persisted.resourceType = resourceType ∧ response.status = responseStatus)
        (.invalid "idempotency record is incomplete")
      pure (some response.resourceId, db)

def completeIdempotency (env : Env) (db : Db) (authorization : Authorization)
    (operation : IdempotentOperation) (key : String) (resourceId : Id) (responseStatus : Nat) :
    Except StoreError Db := do
  let recordKey : IdempotencyKey :=
    ⟨authorization.namespaceId, authorization.principalId, operation, key⟩
  let persisted ← need (db.idempotency.get? recordKey)
    (.invalid "idempotency reservation was lost")
  ensure (persisted.response = none) (.invalid "idempotency reservation was lost")
  pure { db with
    idempotency := db.idempotency.modify recordKey fun row =>
      { row with response := some ⟨resourceId, responseStatus, env.now⟩ } }

def queuedJobs (db : Db) (namespaceId : Id) : Nat :=
  db.jobs.count fun _ job => job.namespaceId = namespaceId && !job.progress.isTerminal

/-- The checks of `enforceNamespaceQuota` on the values its one statement returned. -/
def checkNamespaceQuota (policy : PolicyRow)
    (current additionalJobs collectionItems graphNodes : Nat) : Except StoreError Unit := do
  ensure (1 ≤ additionalJobs ∧ current + additionalJobs ≤ policy.maxQueuedJobs)
    (.quotaExceeded s!"queued job limit is {policy.maxQueuedJobs}")
  ensure (collectionItems ≤ policy.maxCollectionItems)
    (.quotaExceeded s!"collection item limit is {policy.maxCollectionItems}")
  ensure (graphNodes ≤ policy.maxGraphNodes)
    (.quotaExceeded s!"graph node limit is {policy.maxGraphNodes}")

/-- One statement locks the policy row and counts. The count is the one of the moment
the statement began, so it is passed in: it is `queuedJobs` unless the lock had to wait. -/
def enforceNamespaceQuota (queued : Db → Id → Nat) (db : Db) (namespaceId : Id)
    (additionalJobs collectionItems graphNodes : Nat) : Except StoreError Unit := do
  let policy ← need (db.policies.get? namespaceId) (.invalid "lock namespace quota")
  checkNamespaceQuota policy (queued db namespaceId) additionalJobs collectionItems graphNodes

def insertWorkloadRevision (codec : Codec) (db : Db) (authorization : Authorization)
    (submission : JobSubmission) : Except StoreError Db :=
  let key := (authorization.namespaceId, submission.workloadDigest)
  match db.workloads.insert? key ⟨submission.workloadDocument, authorization.principalId⟩ with
  | some workloads => .ok { db with workloads := workloads }
  | none => do
      let stored ← need (db.workloads.get? key) (.invalid "verify workload revision")
      ensure (codec.sameDocument stored.document submission.workloadDocument)
        (.invalid "workload digest collision")
      pure db

theorem insertWorkloadRevision_ok {codec : Codec} {db db' : Db} {authorization : Authorization}
    {submission : JobSubmission}
    (h : insertWorkloadRevision codec db authorization submission = .ok db') :
    ∃ t, db' = { db with workloads := t } := by
  simp only [insertWorkloadRevision] at h
  split at h
  · cases h
    exact ⟨_, rfl⟩
  · simp only [bind_ok_iff, pure_ok_iff] at h
    obtain ⟨_, -, _, -, rfl⟩ := h
    exact ⟨db.workloads, rfl⟩

/-- The row `insertJob` writes, before any group binds it. -/
def newJobRow (env : Env) (authorization : Authorization) (submission : JobSubmission)
    (placement : ResolvedPlacement) : JobRow :=
  { namespaceId := authorization.namespaceId
    ownerPrincipalId := authorization.principalId
    name := submission.name
    labels := submission.labels
    progress := .live .accepted
    desiredState := .run
    placementTarget := submission.target
    placementPartition := if placement.partition = "" then none else some placement.partition
    targetId := placement.targetId
    targetGenerationId := placement.targetGenerationId
    resolvedArtifactStores := placement.artifactStores
    workloadDigest := submission.workloadDigest
    requestDigest := submission.requestDigest
    requestDocument := submission.requestDocument
    grouping := .standalone
    imported := none
    startedAt := none
    startedRecordedAt := none
    startedProvenance := none
    completedAt := none
    completedRecordedAt := none
    completedProvenance := none
    revision := 1
    createdAt := env.now
    updatedAt := env.now }

def insertJob (env : Env) (db : Db) (authorization : Authorization) (jobId : Id)
    (submission : JobSubmission) (placement : ResolvedPlacement) : Except StoreError Db := do
  let jobs ← need (db.jobs.insert? jobId (newJobRow env authorization submission placement))
    (.constraint "jobs_pkey")
  pure { db with jobs := jobs }

/-- What scanning the row of a query that returned none yields. -/
def noRows : StoreError := .invalid "no rows in result set"

def getJobById (db : Db) (namespaceId jobId : Id) : Except StoreError Job := do
  let row ← need (db.jobs.get? jobId) noRows
  ensure (row.namespaceId = namespaceId) noRows
  pure ⟨jobId, row⟩

def insertAcceptanceEvidence (env : Env) (db : Db) (authorization : Authorization)
    (idempotencyKey : String) (outboxId jobId : Id) (requestDigest : String) :
    Except StoreError Db :=
  (db.appendAudit
    ⟨authorization.namespaceId, .principal authorization.principalId, .jobAccepted, .job, jobId,
      some requestDigest, some idempotencyKey⟩).insertOutbox env outboxId
        authorization.namespaceId (.jobAccepted jobId)

end JobmanControl
