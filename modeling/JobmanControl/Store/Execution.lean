import JobmanControl.Store.Cancellation

/-!
The transactions of an execution after dispatch: its agent accepts the offer,
reports source-ordered events, or goes silent for so long that its observations
are projected as stale.
-/

namespace JobmanControl

open Relational

structure AgentIdentity where
  agentId : Id
  namespaceId : Id
  targetGenerationId : Id
  deriving DecidableEq, Repr

structure Acceptance where
  deliveryId : Id
  executionId : Id
  agentId : Id
  targetGenerationId : Id
  effectiveExecutionDigest : String
  requestDigest : String
  requestDocument : String
  deriving DecidableEq, Repr

structure LaunchAuthorization where
  authorizationId : Id
  executionId : Id
  agentId : Id
  targetGenerationId : Id
  effectiveExecutionDigest : String
  revision : Nat
  acceptedAt : Time
  replayed : Bool
  deriving DecidableEq, Repr

/-- The four rows an acceptance locks: assignment, execution, run and job. -/
structure AssignmentBundle where
  assignment : AssignmentRow
  execution : ExecutionRow
  run : RunRow
  job : JobRow
  deriving DecidableEq, Repr

def assignmentBundle (db : Db) (deliveryId namespaceId : Id) : Option AssignmentBundle := do
  let assignment ← db.assignments.get? deliveryId
  guard (assignment.namespaceId = namespaceId)
  let execution ← db.executions.get? assignment.executionId
  let run ← db.runs.get? execution.runId
  let job ← db.jobs.get? run.jobId
  pure ⟨assignment, execution, run, job⟩

def advanceAccepted (codec : Codec) (env : Env) (acceptance : Acceptance)
    (bundle : AssignmentBundle) (db : Db) : Except StoreError Db := do
  let db : Db :=
    { db with
      assignments := db.assignments.modify acceptance.deliveryId fun assignment =>
        if assignment.state = .offered then
          { assignment with
            state := .accepted env.now acceptance.requestDigest acceptance.requestDocument }
        else assignment }
  let db ← db.updateExecution bundle.assignment.executionId fun execution => .ok
    (if execution.progress = .live .planned then
      { execution with
        progress := .live .accepted
        revision := bundle.execution.revision + 1
        acceptedAt := some env.now }
    else execution)
  let db ← db.updateRun bundle.execution.runId fun run => .ok
    (if run.progress = .live .assigning then { run with progress := .live .accepted } else run)
  db.updateJob codec env bundle.run.jobId fun job => .ok
    (if job.progress = .live .assigning then
      { job with
        progress := .live .acceptedExecution
        revision := job.revision + 1
        updatedAt := env.now }
    else job)

def acceptAssignment (codec : Codec) (env : Env) (identity : AgentIdentity)
    (acceptance : Acceptance) : Tx StoreError Db LaunchAuthorization := fun db => do
  let bundle ← need (assignmentBundle db acceptance.deliveryId identity.namespaceId) .notFound
  let execution := bundle.execution
  ensure (bundle.assignment.executionId = acceptance.executionId ∧
      bundle.assignment.agentId = identity.agentId ∧
      acceptance.agentId = identity.agentId ∧
      execution.targetGenerationId = identity.targetGenerationId ∧
      acceptance.targetGenerationId = execution.targetGenerationId ∧
      acceptance.effectiveExecutionDigest = execution.effectiveSpecDigest)
    .forbidden
  let launch (revision : Nat) (acceptedAt : Time) (replayed : Bool) : LaunchAuthorization :=
    ⟨acceptance.deliveryId, bundle.assignment.executionId, bundle.assignment.agentId,
      execution.targetGenerationId, execution.effectiveSpecDigest, revision, acceptedAt, replayed⟩
  match bundle.assignment.state with
  | .accepted acceptedAt acceptanceDigest _ =>
      ensure (acceptanceDigest = acceptance.requestDigest) .idempotencyConflict
      pure (launch execution.revision acceptedAt true, db)
  | .offered =>
      ensure (bundle.job.desiredState = .run) .conflict
      let db ← advanceAccepted codec env acceptance bundle db
      let db := db.appendAudit
        ⟨identity.namespaceId, .agent identity.agentId, .executionAccepted, .execution,
          bundle.assignment.executionId, some acceptance.requestDigest, none⟩
      pure (launch (execution.revision + 1) env.now false, db)
  | _ => throw .conflict

structure ExecutionObservation where
  eventId : Id
  executionId : Id
  agentId : Id
  sequence : Nat
  observedAt : Time
  type : EventType
  nativeId : String
  outcome : Option Outcome
  schedulerBackend : String
  schedulerState : Option NativeState
  schedulerReason : String
  schedulerCluster : String
  documentDigest : String
  document : String
  deriving DecidableEq, Repr

def schedulerEvent : EventType → Bool
  | .schedulerUncertain | .schedulerSubmitted | .schedulerObserved | .schedulerCompleted => true
  | .processStarted | .processCompleted => false

def completionEvent : EventType → Bool
  | .processCompleted | .schedulerCompleted => true
  | _ => false

def validEventTransition (phase : Progress ExecutionPhase ExecutionResult) : EventType → Bool
  | .processStarted | .schedulerUncertain | .schedulerSubmitted => phase = .live .accepted
  | .processCompleted | .schedulerCompleted | .schedulerObserved =>
      phase = .live .accepted || phase = .live .running

/-- `NULLIF(text, '')`. -/
def nullIfEmpty (text : String) : Option String := if text = "" then none else some text

def insertExecutionEvent (env : Env) (identity : AgentIdentity) (event : ExecutionObservation)
    (db : Db) : Except StoreError Db := do
  ensure (!db.events.any fun _ existing =>
      existing.executionId = event.executionId && existing.agentId = identity.agentId &&
        existing.sourceSequence = event.sequence)
    (.constraint "execution_events_source_sequence_unique")
  let events ← need
    (db.events.insert? event.eventId
      { namespaceId := identity.namespaceId
        executionId := event.executionId
        agentId := identity.agentId
        sourceSequence := event.sequence
        eventType := event.type
        observedAt := event.observedAt
        ingestedAt := env.now
        documentDigest := event.documentDigest
        document := event.document })
    (.constraint "execution_events_pkey")
  pure { db with events := events }

def insertArtifact (identity : AgentIdentity) (event : ExecutionObservation) (db : Db)
    (artifact : PublishedArtifact) : Except StoreError Db := do
  ensure (0 < artifact.storeVersion) (.constraint "execution_artifacts_store_version_positive")
  ensure (0 ≤ artifact.byteLength) (.constraint "execution_artifacts_byte_length_nonnegative")
  let artifacts ← need
    (db.artifacts.insert? (event.executionId, artifact.name)
      ⟨identity.namespaceId, artifact.storeName, artifact.storeVersion, artifact.objectKey,
        artifact.byteLength, artifact.checksum, event.observedAt⟩)
    (.constraint "execution_artifacts_pkey")
  pure { db with artifacts := artifacts }

/-- `phase = 'running'` on a row whose outcome column is left alone. -/
def enterRunning (codec : Codec) (env : Env) (runId jobId : Id) (db : Db) :
    Except StoreError Db := do
  let db ← db.updateRun runId fun run => do
    let progress ← run.progress.enter "runs_terminal_consistent" .running
    pure { run with progress := progress }
  db.updateJob codec env jobId fun job => do
    let progress ← job.progress.enter "jobs_terminal_consistent" .running
    pure { job with progress := progress, revision := job.revision + 1, updatedAt := env.now }

def recordProcessStarted (codec : Codec) (env : Env) (event : ExecutionObservation)
    (runId jobId : Id) (db : Db) : Except StoreError Db := do
  let db ← db.updateExecution event.executionId fun execution => do
    let progress ← execution.progress.enter "executions_terminal_consistent" .running
    pure
      { execution with
        progress := progress
        nativeId := some event.nativeId
        lastEventSequence := event.sequence
        revision := execution.revision + 1 }
  enterRunning codec env runId jobId db

def observedScheduler (event : ExecutionObservation) : Except StoreError SchedulerStatus := do
  let state ← need event.schedulerState (.constraint "executions_native_state_known")
  pure ⟨state, nullIfEmpty event.schedulerReason, nullIfEmpty event.schedulerCluster,
    event.observedAt⟩

def finishWork (codec : Codec) (env : Env) (runId jobId : Id) (outcome : Outcome) (db : Db) :
    Except StoreError Db := do
  let db ← db.updateRun runId fun run => .ok { run with progress := .terminal outcome }
  db.updateJob codec env jobId fun job => .ok
    { job with
      progress := .terminal outcome
      revision := job.revision + 1
      updatedAt := env.now }

def recordCompleted (codec : Codec) (env : Env) (event : ExecutionObservation)
    (runId jobId : Id) (outcome : Outcome) (db : Db) : Except StoreError Db := do
  let result ← need (codec.processResult event.document)
    (.constraint "executions_terminal_consistent")
  let db ← db.updateExecution event.executionId fun execution =>
    if event.type = .schedulerCompleted then do
      let scheduler ← observedScheduler event
      pure
        { execution with
          progress := .terminal ⟨outcome, .reported result⟩
          nativeId := some event.nativeId
          scheduler := some scheduler
          lastEventSequence := event.sequence
          revision := execution.revision + 1 }
    else pure
      { execution with
        progress := .terminal ⟨outcome, .reported result⟩
        lastEventSequence := event.sequence
        revision := execution.revision + 1 }
  finishWork codec env runId jobId outcome db

/-- The updates of the three scheduler observations that do not complete the work. -/
def recordScheduler (codec : Codec) (env : Env) (event : ExecutionObservation)
    (runId jobId : Id) (db : Db) : Except StoreError Db := do
  let scheduler ← observedScheduler event
  let db ← db.updateExecution event.executionId fun execution => do
    let progress ←
      if event.schedulerState = some .running then
        execution.progress.enter "executions_terminal_consistent" .running
      else .ok execution.progress
    pure
      { execution with
        progress := progress
        nativeId := if event.nativeId = "" then execution.nativeId else some event.nativeId
        scheduler := some scheduler
        lastEventSequence := event.sequence
        revision := execution.revision + 1 }
  if event.schedulerState = some .running then do
    let db ← db.updateRun runId fun run => .ok
      (if run.progress = .live .accepted then { run with progress := .live .running } else run)
    db.updateJob codec env jobId fun job => do
      let progress ← job.progress.enter "jobs_terminal_consistent" .running
      pure { job with progress := progress, revision := job.revision + 1, updatedAt := env.now }
  else
    db.updateJob codec env jobId fun job => .ok
      { job with revision := job.revision + 1, updatedAt := env.now }

def observedConfidence (event : ExecutionObservation) : Confidence :=
  if event.type = .schedulerUncertain then .uncertain
  else if event.outcome = some .lost ∨ event.schedulerState = some .lost then .lost
  else .current

def checkExecutionEvent (codec : Codec) (db : Db) (execution : ExecutionRow)
    (generation : GenerationRow) (event : ExecutionObservation) : Except StoreError Unit := do
  ensure (event.sequence = execution.lastEventSequence + 1) .conflict
  ensure ((generation.executionBackend = .slurm ↔ schedulerEvent event.type) ∧
      (schedulerEvent event.type → event.schedulerBackend = "slurm")) .conflict
  ensure (validEventTransition execution.progress event.type) .conflict
  ensure (completionEvent event.type →
      codec.validateArtifactPublication execution.effectiveSpec event.document) .conflict
  ensure (completionEvent event.type → generation.logStoreName.isSome →
      (db.logStreams.count fun key stream =>
        key.1 = event.executionId && stream.complete) = 2) .conflict

def recordTransition (codec : Codec) (env : Env) (event : ExecutionObservation)
    (runId jobId : Id) (db : Db) : Except StoreError Db :=
  match event.type with
  | .processStarted => recordProcessStarted codec env event runId jobId db
  | .schedulerUncertain | .schedulerSubmitted | .schedulerObserved =>
      recordScheduler codec env event runId jobId db
  | .processCompleted | .schedulerCompleted => do
      let outcome ← need event.outcome (.constraint "executions_terminal_consistent")
      recordCompleted codec env event runId jobId outcome db

/-- What a completion does to the job's group, in the same transaction. -/
def completeGroup (codec : Codec) (env : Env) (view : GroupView) (namespaceId jobId : Id)
    (event : ExecutionObservation) (db : Db) : Except StoreError Db :=
  if completionEvent event.type then do
    let outcome ← need event.outcome (.constraint "executions_terminal_consistent")
    let db ← applyCollectionCompletion codec env view namespaceId jobId outcome db
    applyGraphCompletion codec env view namespaceId jobId db
  else .ok db

def recordExecutionEvent (codec : Codec) (env : Env) (view : GroupView)
    (identity : AgentIdentity) (event : ExecutionObservation) :
    Tx StoreError Db Bool := fun db => do
  let execution ← need (db.executions.get? event.executionId) .notFound
  ensure (execution.namespaceId = identity.namespaceId) .notFound
  let run ← need (db.runs.get? execution.runId) .notFound
  let generation ← need (db.generations.get? execution.targetGenerationId) .notFound
  ensure (execution.agentId = identity.agentId ∧ event.agentId = identity.agentId) .forbidden
  let prior := (db.events.get? event.eventId).filter fun existing =>
    existing.executionId = event.executionId
  match prior with
  | some existing =>
      ensure (existing.documentDigest = event.documentDigest) .idempotencyConflict
      pure (true, db)
  | none =>
      checkExecutionEvent codec db execution generation event
      let db ← insertExecutionEvent env identity event db
      let db ←
        if completionEvent event.type then
          (codec.publishedArtifacts event.document).foldlM (insertArtifact identity event) db
        else .ok db
      let db ← recordTransition codec env event execution.runId run.jobId db
      let db ← completeGroup codec env view identity.namespaceId run.jobId event db
      let db ← db.updateExecution event.executionId fun execution => .ok
        { execution with confidence := observedConfidence event }
      pure (false, db)

def AgentRow.lastSeen (agent : AgentRow) : Time := agent.lastSeenAt.getD agent.updatedAt

/-- The claim of one stale execution: its run and its agent come from inner joins. -/
def staleExecution (env : Env) (staleAfter : Nat) (db : Db) :
    Option (((Id × ExecutionRow) × RunRow) × AgentRow) :=
  firstBy
    (fun a b => a.2.lastSeen < b.2.lastSeen ||
      (a.2.lastSeen = b.2.lastSeen && a.1.1.1 ≤ b.1.1.1))
    ((db.executions.select fun _ execution =>
      (execution.progress = .live .accepted || execution.progress = .live .running) &&
        execution.confidence = .current).filterMap fun entry => do
      let run ← db.runs.get? entry.2.runId
      let agent ← db.agents.get? entry.2.agentId
      guard (agent.lastSeen + staleAfter < env.now)
      pure ((entry, run), agent))

/-- One iteration of `ReconcileStaleExecutions`. Its outbox statement uses one
parameter both as a uuid and as text; `mixedParameter` says whether the server
resolves that or refuses the statement. -/
def reconcileStaleExecution (codec : Codec) (env : Env) (mixedParameter : Bool)
    (staleAfter : Nat) (outboxId : Id) : Tx StoreError Db Bool := fun db =>
  match staleExecution env staleAfter db with
  | none => .ok (false, db)
  | some (((executionId, execution), run), _) => do
      let db ← db.updateExecution executionId fun row => .ok
        (if row.confidence = .current then
          { row with confidence := .stale, revision := row.revision + 1 }
        else row)
      let db ← db.updateJob codec env run.jobId fun job => .ok
        { job with revision := job.revision + 1, updatedAt := env.now }
      let db := db.appendAudit
        ⟨execution.namespaceId, .system, .observationStale, .execution, executionId, none, none⟩
      ensure (mixedParameter) (.invalid "inconsistent types deduced for parameter $3")
      let db ← db.insertOutbox env outboxId execution.namespaceId
        (.observationStale executionId execution.agentId)
      pure (true, db)

end JobmanControl
