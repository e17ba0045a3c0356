import JobmanControl.Library.Table
import JobmanControl.Library.Transaction

/-!
The tables of the control store that admission, dispatch, execution, grouping
and monitoring read or write. A row does not repeat its primary key. A check
constraint that ties columns together is carried by the row's type: a phase and
its outcome are one `Progress`, a job belongs to a collection or to a graph but
not to both, and a decided assignment holds its decision.
-/

namespace JobmanControl

open Relational (Table)

/-- A uuid; ties in an ordering are broken by comparing identities. -/
abbrev Id := Nat

/-- A timestamp in microseconds. -/
abbrev Time := Nat

inductive Outcome
  | success | failure | cancelled | timedOut | aborted | lost
  deriving DecidableEq, Repr

inductive DesiredState
  | run | cancel
  deriving DecidableEq, Repr

/-- The phase columns together with what is known only once the phase is terminal. -/
inductive Progress (φ τ : Type)
  | live (phase : φ)
  | terminal (final : τ)
  deriving DecidableEq, Repr

inductive JobPhase
  | accepted | assigning | acceptedExecution | running
  deriving DecidableEq, Repr

inductive RunPhase
  | ready | assigning | accepted | running
  deriving DecidableEq, Repr

inductive ExecutionPhase
  | planned | accepted | running
  deriving DecidableEq, Repr

/-- `executions.process_result`: what an event reported, or the fixed document
written for work that was cancelled before an agent had accepted it. -/
inductive ProcessResult
  | cancelledBeforeLaunch
  | reported (document : String)
  deriving DecidableEq, Repr

structure ExecutionResult where
  outcome : Outcome
  processResult : ProcessResult
  deriving DecidableEq, Repr

inductive GraphDisposition
  | skipped | cancelled | blocked
  deriving DecidableEq, Repr

/-- The grouping columns of a job under `jobs_grouping_exclusive`. -/
inductive Grouping
  | standalone
  | collection (collectionId : Id) (index : Nat)
  | graph (graphId : Id) (index : Nat) (disposition : Option GraphDisposition)
  deriving DecidableEq, Repr

structure ImportSource where
  store : String
  schema : Nat
  jobId : String
  deriving DecidableEq, Repr

inductive EventType
  | processStarted | processCompleted
  | schedulerUncertain | schedulerSubmitted | schedulerObserved | schedulerCompleted
  deriving DecidableEq, Repr

/-- What a lifecycle column was taken from. -/
inductive Provenance
  | event (eventType : EventType)
  | controlTransition
  | historyImport
  deriving DecidableEq, Repr

structure ArtifactStore where
  name : String
  version : Int
  deriving DecidableEq, Repr

structure JobRow where
  namespaceId : Id
  ownerPrincipalId : Id
  name : String
  labels : List (String × String)
  progress : Progress JobPhase Outcome
  desiredState : DesiredState
  placementTarget : String
  placementPartition : Option String
  targetId : Id
  targetGenerationId : Id
  resolvedArtifactStores : List ArtifactStore
  workloadDigest : String
  requestDigest : String
  requestDocument : String
  grouping : Grouping
  imported : Option ImportSource
  startedAt : Option Time
  startedRecordedAt : Option Time
  startedProvenance : Option Provenance
  completedAt : Option Time
  completedRecordedAt : Option Time
  completedProvenance : Option Provenance
  revision : Nat
  createdAt : Time
  updatedAt : Time
  deriving DecidableEq, Repr

structure RunRow where
  namespaceId : Id
  jobId : Id
  runNumber : Nat
  progress : Progress RunPhase Outcome
  desiredState : DesiredState
  deriving DecidableEq, Repr

inductive Confidence
  | current | stale | uncertain | lost
  deriving DecidableEq, Repr

inductive NativeState
  | uncertain | queued | running | suspended | completing | unknown
  | completed | failed | cancelled | timedOut | preempted
  | nodeFailed | outOfMemory | bootFailed | deadline | lost
  deriving DecidableEq, Repr

/-- The native scheduler columns, all null or all set for the one known backend. -/
structure SchedulerStatus where
  state : NativeState
  reason : Option String
  cluster : Option String
  observedAt : Time
  deriving DecidableEq, Repr

structure ExecutionRow where
  namespaceId : Id
  runId : Id
  targetId : Id
  targetGenerationId : Id
  agentId : Id
  progress : Progress ExecutionPhase ExecutionResult
  effectiveSpecDigest : String
  effectiveSpec : String
  revision : Nat
  acceptedAt : Option Time
  lastEventSequence : Nat
  nativeId : Option String
  scheduler : Option SchedulerStatus
  confidence : Confidence
  createdAt : Time
  deriving DecidableEq, Repr

/-- What an agent decided about an offer, as `assignments_decision_consistent` ties it. -/
inductive AssignmentState
  | offered
  | accepted (acceptedAt : Time) (acceptanceDigest : String) (acceptanceDocument : String)
  | rejected (rejectedAt : Time) (rejectionCode : String)
  | withdrawn
  deriving DecidableEq, Repr

structure AssignmentRow where
  namespaceId : Id
  executionId : Id
  agentId : Id
  state : AssignmentState
  document : String
  deliveryCount : Nat
  lastDeliveredAt : Option Time
  createdAt : Time
  deriving DecidableEq, Repr

structure ExecutionEventRow where
  namespaceId : Id
  executionId : Id
  agentId : Id
  sourceSequence : Nat
  eventType : EventType
  observedAt : Time
  ingestedAt : Time
  documentDigest : String
  document : String
  deriving DecidableEq, Repr

structure ArtifactRow where
  namespaceId : Id
  storeName : String
  storeVersion : Int
  objectKey : String
  byteLength : Int
  checksum : String
  publishedAt : Time
  deriving DecidableEq, Repr

/-- The state of a cancellation request, the only action type there is. -/
inductive ActionState
  | pending
  | acknowledged (acknowledgedAt : Time)
  deriving DecidableEq, Repr

structure DesiredActionRow where
  namespaceId : Id
  executionId : Id
  agentId : Id
  revision : Nat
  state : ActionState
  createdAt : Time
  deliveryCount : Nat
  lastDeliveredAt : Option Time
  deriving DecidableEq, Repr

inductive LogStream
  | stdout | stderr
  deriving DecidableEq, Repr

/-- The state columns of a stream under `log_streams_completion_consistent`. -/
inductive LogStreamState
  | capturing
  | complete (completedAt : Time) (truncated : Bool)
  deriving DecidableEq, Repr

structure LogStreamRow where
  namespaceId : Id
  agentId : Id
  storeName : String
  storeVersion : Int
  state : LogStreamState
  byteLength : Int
  lastSequence : Int
  deriving DecidableEq, Repr

/-- `state = 'complete'`. -/
def LogStreamRow.complete (stream : LogStreamRow) : Bool :=
  match stream.state with
  | .capturing => false
  | .complete _ _ => true

structure LogChunkKey where
  executionId : Id
  stream : LogStream
  sequence : Int
  deriving DecidableEq, Repr

structure LogChunkRow where
  namespaceId : Id
  agentId : Id
  storeName : String
  storeVersion : Int
  objectKey : String
  byteOffset : Int
  byteLength : Int
  checksum : String
  capturedAt : Time
  complete : Bool
  truncated : Bool
  committedAt : Time
  documentDigest : String
  document : String
  deriving DecidableEq, Repr

inductive FailurePolicy
  | continueAll | failFast
  deriving DecidableEq, Repr

inductive ArrayPolicy
  | never | prefer | require
  deriving DecidableEq, Repr

inductive ArrayMode
  | individual | slurmArray
  deriving DecidableEq, Repr

structure CollectionRow where
  namespaceId : Id
  ownerPrincipalId : Id
  name : String
  labels : List (String × String)
  requestDigest : String
  requestDocument : String
  maxActive : Nat
  failurePolicy : FailurePolicy
  arrayPolicy : ArrayPolicy
  arrayMode : ArrayMode
  revision : Nat
  createdAt : Time
  updatedAt : Time
  deriving DecidableEq, Repr

/-- One named member of a collection or graph, under the group and its index. -/
structure MemberRow where
  name : String
  jobId : Id
  deriving DecidableEq, Repr

inductive UnsatisfiedPolicy
  | skip | cancel | blocked
  deriving DecidableEq, Repr

structure GraphRow where
  namespaceId : Id
  ownerPrincipalId : Id
  name : String
  labels : List (String × String)
  requestDigest : String
  requestDocument : String
  maxActive : Nat
  unsatisfiedPolicy : UnsatisfiedPolicy
  revision : Nat
  createdAt : Time
  updatedAt : Time
  deriving DecidableEq, Repr

inductive EdgePredicate
  | success | failure | anyTerminal | outcomes
  deriving DecidableEq, Repr

/-- The key of an edge row: two edges of one graph never join the same two jobs. -/
structure EdgeKey where
  graphId : Id
  upstreamJobId : Id
  downstreamJobId : Id
  deriving DecidableEq, Repr

structure EdgeRow where
  predicate : EdgePredicate
  outcomes : List Outcome
  deriving DecidableEq, Repr

inductive TargetState
  | active | draining | disabled | retired
  deriving DecidableEq, Repr

inductive TargetKind
  | host | slurm
  deriving DecidableEq, Repr

structure TargetRow where
  namespaceId : Id
  name : String
  state : TargetState
  currentGenerationId : Option Id
  kind : TargetKind
  revision : Nat
  createdAt : Time
  updatedAt : Time
  deriving DecidableEq, Repr

inductive ExecutionBackend
  | subprocess | slurm
  deriving DecidableEq, Repr

/-- The infrastructure behind a generation; only a cluster of AWS has a region and a name. -/
inductive TargetProvider
  | onPrem
  | awsParallelCluster (region clusterName : String)
  deriving DecidableEq, Repr

structure GenerationRow where
  namespaceId : Id
  targetId : Id
  executionBackend : ExecutionBackend
  runtimes : List String
  operatingSystems : List String
  architectures : List String
  capabilities : List String
  artifactStores : List ArtifactStore
  logStoreName : Option String
  generation : Nat
  logStoreVersion : Option Int
  provider : TargetProvider
  deriving DecidableEq, Repr

structure PartitionRow where
  targetGenerationId : Id
  name : String
  isDefault : Bool
  state : TargetState
  deriving DecidableEq, Repr

structure AgentRow where
  namespaceId : Id
  targetId : Id
  targetGenerationId : Id
  principalId : Id
  status : TargetState
  acceptingAssignments : Bool
  lastCapabilityAt : Option Time
  lastSeenAt : Option Time
  operatingSystem : String
  architecture : String
  executionBackends : List ExecutionBackend
  runtimes : List String
  capabilities : List String
  createdAt : Time
  updatedAt : Time
  agentVersion : String
  protocolVersions : List String
  hostname : String
  executionUser : String
  registrationDigest : String
  capabilityRevision : Nat
  deriving DecidableEq, Repr

structure SessionRow where
  agentId : Id
  expiresAt : Time
  revokedAt : Option Time
  namespaceId : Id
  tokenHash : String
  lastSeenAt : Option Time
  replacedBySessionId : Option Id
  createdAt : Time
  deriving DecidableEq, Repr

/-- When and by which agent a token was used, both or neither. -/
structure TokenUse where
  usedAt : Time
  usedByAgentId : Id
  deriving DecidableEq, Repr

structure EnrollmentTokenRow where
  namespaceId : Id
  targetId : Id
  targetGenerationId : Id
  principalId : Id
  createdByPrincipalId : Id
  expectedUser : String
  tokenHash : String
  requestDigest : String
  expiresAt : Time
  used : Option TokenUse
  deriving DecidableEq, Repr

structure CapabilitySnapshotRow where
  namespaceId : Id
  observedAt : Time
  acceptingAssignments : Bool
  agentVersion : String
  operatingSystem : String
  architecture : String
  hostname : String
  executionUser : String
  executionBackends : List ExecutionBackend
  runtimes : List String
  capabilities : List String
  documentDigest : String
  document : String
  deriving DecidableEq, Repr

structure CertificateRow where
  namespaceId : Id
  agentId : Id
  publicKeyDigest : String
  notAfter : Time
  revokedAt : Option Time
  replacedBySerial : Option String
  deriving DecidableEq, Repr

structure PolicyRow where
  maxActiveJobs : Nat
  maxQueuedJobs : Nat
  maxCollectionItems : Nat
  maxGraphNodes : Nat
  idempotencyRetention : Nat
  publishedOutboxRetention : Nat
  lastDispatchedAt : Option Time
  deriving DecidableEq, Repr

structure RecoveryRow where
  reconciliationHold : Bool
  restoreEpoch : Nat
  deriving DecidableEq, Repr

inductive ResourceType
  | job | collection | graph | execution | target | principal | agentEnrollmentToken | agent
  deriving DecidableEq, Repr

/-- The operations that reserve an idempotency key; two of them are named after a target. -/
inductive IdempotentOperation
  | jobsCreate | collectionsCreate | graphsCreate | jobsCancel | graphsCancel | historyImport
  | targetsCreate | targetsGenerationsCreate (name : String) | targetsState (name : String)
  | membershipsPut | agentEnrollmentTokensCreate
  deriving DecidableEq, Repr

/-- The column `operation` of a record. -/
def IdempotentOperation.text : IdempotentOperation → String
  | .jobsCreate => "jobs.create"
  | .collectionsCreate => "collections.create"
  | .graphsCreate => "graphs.create"
  | .jobsCancel => "jobs.cancel"
  | .graphsCancel => "graphs.cancel"
  | .historyImport => "history.import"
  | .targetsCreate => "targets.create"
  | .targetsGenerationsCreate name => "targets.generations.create" ++ ":" ++ name
  | .targetsState name => "targets.state" ++ ":" ++ name
  | .membershipsPut => "memberships.put"
  | .agentEnrollmentTokensCreate => "agent-enrollment-tokens.create"

structure IdempotencyKey where
  namespaceId : Id
  principalId : Id
  operation : IdempotentOperation
  key : String
  deriving DecidableEq, Repr

/-- What completing a reservation records. -/
structure IdempotentResponse where
  resourceId : Id
  status : Nat
  completedAt : Time
  deriving DecidableEq, Repr

structure IdempotencyRow where
  requestDigest : String
  resourceType : ResourceType
  response : Option IdempotentResponse
  deriving DecidableEq, Repr

/-- The payload the terminal-transition trigger writes. -/
structure TerminalTransition where
  jobId : Id
  runId : Option Id
  runNumber : Option Nat
  ownerPrincipalId : Id
  oldPhase : JobPhase
  outcome : Outcome
  jobRevision : Nat
  observedCompletedAt : Option Time
  recordedAt : Time
  imported : Bool
  reconciliation : Bool
  deriving DecidableEq, Repr

/-- An outbox message; its topic is its constructor. -/
inductive OutboxMessage
  | jobAccepted (jobId : Id)
  | collectionAccepted (collectionId : Id) (items : Nat)
  | graphAccepted (graphId : Id) (nodes edges : Nat)
  | assignmentOffered (executionId deliveryId agentId : Id) (digest : String)
  | historyImported (jobId : Id) (sourceStore sourceJobId : String)
  | observationStale (executionId agentId : Id)
  | jobTerminal (transition : TerminalTransition)
  | targetGenerationCreated (targetId generationId : Id) (generation : Nat)
  | targetStateChanged (targetId : Id) (state : TargetState)
  deriving DecidableEq, Repr

structure OutboxRow where
  namespaceId : Id
  message : OutboxMessage
  createdAt : Time
  publishedAt : Option Time
  deriving DecidableEq, Repr

/-- One published event, under its position. -/
structure FeedRow where
  eventId : Id
  namespaceId : Id
  payload : TerminalTransition
  publishedAt : Time
  deriving DecidableEq, Repr

structure FeedState where
  headPosition : Nat
  retiredThrough : Nat
  retentionSeconds : Nat
  lastPublishedAt : Time
  deriving DecidableEq, Repr

structure WorkloadRow where
  document : String
  createdBy : Id
  deriving DecidableEq, Repr

inductive Actor
  | principal (id : Id)
  | agent (id : Id)
  | system
  deriving DecidableEq, Repr

inductive AuditAction
  | jobAccepted | collectionAccepted | graphAccepted | assignmentOffered | executionAccepted
  | graphNodeUnsatisfied | graphCancelled | historyImported | observationStale
  | targetCreated | targetGenerationCreated | targetStateChanged | membershipPut
  | agentEnrollmentTokenCreated | agentEnrolled | agentCapabilitiesReported | logCompleted
  deriving DecidableEq, Repr

structure AuditRow where
  namespaceId : Id
  actor : Actor
  action : AuditAction
  resourceType : ResourceType
  resourceId : Id
  requestDigest : Option String
  idempotencyKey : Option String
  deriving DecidableEq, Repr

/-- The committed contents of the store. -/
structure Db where
  namespaces : Table Id String
  policies : Table Id PolicyRow
  recovery : RecoveryRow
  targets : Table Id TargetRow
  generations : Table Id GenerationRow
  partitions : Table Id PartitionRow
  agents : Table Id AgentRow
  sessions : Table Id SessionRow
  logStreams : Table (Id × LogStream) LogStreamRow
  workloads : Table (Id × String) WorkloadRow
  jobs : Table Id JobRow
  collections : Table Id CollectionRow
  collectionItems : Table (Id × Nat) MemberRow
  graphs : Table Id GraphRow
  graphNodes : Table (Id × Nat) MemberRow
  graphEdges : Table EdgeKey EdgeRow
  runs : Table Id RunRow
  executions : Table Id ExecutionRow
  assignments : Table Id AssignmentRow
  events : Table Id ExecutionEventRow
  artifacts : Table (Id × String) ArtifactRow
  actions : Table Id DesiredActionRow
  idempotency : Table IdempotencyKey IdempotencyRow
  audit : List AuditRow
  outbox : Table Id OutboxRow
  feedState : FeedState
  feed : Table Nat FeedRow
  targetCatalogClocks : Table Id Time
  logChunks : Table LogChunkKey LogChunkRow
  enrollmentTokens : Table Id EnrollmentTokenRow
  capabilitySnapshots : Table (Id × Nat) CapabilitySnapshotRow
  certificates : Table String CertificateRow

end JobmanControl
