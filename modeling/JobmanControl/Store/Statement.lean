import JobmanControl.Library.Query
import JobmanControl.Store.Schema

/-!
The statements transactions are built from. Documents are text here: the store
reads them only through the functions collected in `Codec`, so what is proved
about the store holds for every document format. An `UPDATE` of a job runs the
two row triggers; an `UPDATE` that would leave an outcome on a row whose phase
is not terminal is refused by a check constraint, as is a taken unique key.
-/

namespace JobmanControl

open Relational

/-- Why a transaction rolled back. -/
inductive StoreError
  | forbidden
  | unauthenticated
  | authorizationUnavailable
  | notFound
  | conflict
  | idempotencyConflict
  | eventCursorInvalid
  | eventCursorExpired
  | eventRecoveryChanged
  | eventScopeChanged
  | quotaExceeded (message : String)
  | invalidPlacement (reason : String)
  | invalid (message : String)
  | constraint (name : String)
  deriving DecidableEq, Repr

/-- The values one transaction draws from its surroundings: its start time, for
each job the uuid and the clock reading the terminal trigger takes when it fires
for that job, and for each execution the identity of a cancel action. -/
structure Env where
  now : Time
  eventId : Id → Id
  recordedAt : Id → Time
  actionId : Id → Id

/-- What dispatch reads from a stored workload document by JSON path. -/
structure Requirements where
  runtimeKind : Option String
  operatingSystems : List String
  architectures : List String
  capabilities : List String
  deriving DecidableEq, Repr

structure PublishedArtifact where
  name : String
  storeName : String
  storeVersion : Int
  objectKey : String
  byteLength : Int
  checksum : String
  deriving DecidableEq, Repr

structure AssignmentCandidate where
  jobId : Id
  namespaceId : Id
  namespaceName : String
  targetId : Id
  targetGenerationId : Id
  targetName : String
  partition : String
  executionBackend : ExecutionBackend
  agentId : Id
  workloadDigest : String
  workloadDocument : String
  artifactStores : List ArtifactStore
  collectionId : Option Id
  collectionIndex : Option Nat
  collectionCount : Nat
  collectionArrayMode : Option ArrayMode
  collectionMaxActive : Nat
  deriving DecidableEq, Repr

/-- Which task of which array an execution is; a missing index is -1. -/
structure SlurmArrayBinding where
  collectionId : Option Id
  taskIndex : Int
  taskCount : Nat
  maxParallel : Nat
  deriving DecidableEq, Repr

structure EffectiveExecution where
  executionId : Id
  runId : Id
  jobId : Id
  namespaceName : String
  slurmArray : Option SlurmArrayBinding
  workloadDigest : String
  workload : String
  targetId : Id
  targetGenerationId : Id
  target : String
  partition : String
  executionBackend : ExecutionBackend
  artifactStores : List ArtifactStore
  deriving DecidableEq, Repr

structure SealedEffectiveExecution where
  document : EffectiveExecution
  digest : String
  deriving DecidableEq, Repr

structure AgentAssignment where
  deliveryId : Id
  agentId : Id
  effectiveExecutionDigest : String
  effectiveExecution : EffectiveExecution
  deriving DecidableEq, Repr

structure SealedAgentAssignment where
  document : AgentAssignment
  canonicalJson : String
  deriving DecidableEq, Repr

/-- How the store looks into the documents it keeps. -/
structure Codec where
  valid : String → Bool
  sameDocument : String → String → Bool
  requirements : String → Requirements
  resources : String → Option String
  schedulerState : String → Option NativeState
  processResult : String → Option String
  publishedArtifacts : String → List PublishedArtifact
  validateArtifactPublication : String → String → Bool
  decodeWorkload : String → Option String
  sealEffectiveExecution : EffectiveExecution → Option SealedEffectiveExecution
  sealAgentAssignment : AgentAssignment → Option SealedAgentAssignment
  encodeEffectiveExecution : EffectiveExecution → String

namespace Progress

variable {φ τ : Type}

def isTerminal : Progress φ τ → Bool
  | live _ => false
  | terminal _ => true

/-- `SET phase = p` with the outcome column left alone. -/
def enter (name : String) (p : φ) : Progress φ τ → Except StoreError (Progress φ τ)
  | live _ => .ok (live p)
  | terminal _ => .error (.constraint name)

@[simp] theorem enter_ok_iff (name : String) (p : φ) (old new : Progress φ τ) :
    old.enter name p = .ok new ↔ (∃ q, old = live q) ∧ new = live p := by
  cases old <;> simp [enter, eq_comm]

@[simp] theorem isTerminal_live (p : φ) : (live p : Progress φ τ).isTerminal = false := rfl

@[simp] theorem isTerminal_terminal (x : τ) : (terminal x : Progress φ τ).isTerminal = true := rfl

theorem isTerminal_iff (p : Progress φ τ) : p.isTerminal = true ↔ ∃ x, p = terminal x := by
  cases p <;> simp

theorem not_isTerminal_iff (p : Progress φ τ) : p.isTerminal = false ↔ ∃ x, p = live x := by
  cases p <;> simp

end Progress

namespace Grouping

def collectionId : Grouping → Option Id
  | collection id _ => some id
  | _ => none

def collectionIndex : Grouping → Option Nat
  | collection _ index => some index
  | _ => none

def graphId : Grouping → Option Id
  | graph id _ _ => some id
  | _ => none

def graphIndex : Grouping → Option Nat
  | graph _ index _ => some index
  | _ => none

def graphDisposition : Grouping → Option GraphDisposition
  | graph _ _ disposition => disposition
  | _ => none

/-- `SET graph_disposition = d`, which only a graph node may carry. -/
def dispose (d : GraphDisposition) : Grouping → Except StoreError Grouping
  | graph id index _ => .ok (graph id index (some d))
  | _ => .error (.constraint "jobs_graph_binding_complete")

end Grouping

namespace JobRow

def outcome (job : JobRow) : Option Outcome :=
  match job.progress with
  | .live _ => none
  | .terminal o => some o

def isAccepted (job : JobRow) : Bool := job.progress = .live .accepted

/-- `phase NOT IN ('accepted', 'terminal')`. -/
def isActive (job : JobRow) : Bool := !job.isAccepted && !job.progress.isTerminal

end JobRow

def CollectionRow.touch (env : Env) (row : CollectionRow) : CollectionRow :=
  { row with revision := row.revision + 1, updatedAt := env.now }

def GraphRow.touch (env : Env) (row : GraphRow) : GraphRow :=
  { row with revision := row.revision + 1, updatedAt := env.now }

namespace Db

/-- The executions of a job, each with its run; both joins are inner. -/
def executionsOf (db : Db) (jobId : Id) : List ((Id × RunRow) × (Id × ExecutionRow)) :=
  (db.runs.select fun _ run => run.jobId = jobId).flatMap fun run =>
    (db.executions.select fun _ execution => execution.runId = run.1).map fun execution =>
      (run, execution)

/-- The recorded events of a job that a lifecycle query asks for, with their run numbers. -/
def observationsOf (db : Db) (jobId : Id) (p : ExecutionEventRow → Bool) :
    List (Nat × ExecutionEventRow) :=
  (db.executionsOf jobId).flatMap fun (run, execution) =>
    (db.events.select fun _ event => event.executionId = execution.1 && p event).map fun event =>
      (run.2.runNumber, event.2)

/-- The event that put a job into its running phase. -/
def startObservation (codec : Codec) (db : Db) (jobId : Id) : Option ExecutionEventRow :=
  (firstBy (fun a b => a.1 > b.1 || (a.1 = b.1 && a.2.sourceSequence ≤ b.2.sourceSequence))
    (db.observationsOf jobId fun event =>
      event.eventType = .processStarted ||
        ((event.eventType = .schedulerObserved || event.eventType = .schedulerSubmitted) &&
          codec.schedulerState event.document = some .running))).map Prod.snd

def completionObservation (db : Db) (jobId : Id) : Option ExecutionEventRow :=
  (firstBy (fun a b => a.1 > b.1 || (a.1 = b.1 && a.2.sourceSequence ≥ b.2.sourceSequence))
    (db.observationsOf jobId fun event =>
      event.eventType = .processCompleted || event.eventType = .schedulerCompleted)).map Prod.snd

/-- The first transition into running is stamped with the event that caused it, or
with the transaction's time. -/
def stampStarted (codec : Codec) (env : Env) (db : Db) (id : Id) (old new : JobRow) : JobRow :=
  if old.progress ≠ .live .running ∧ new.progress = .live .running ∧
      new.startedRecordedAt = none then
    match db.startObservation codec id with
    | some event =>
        { new with
          startedAt := some event.observedAt
          startedRecordedAt := some event.ingestedAt
          startedProvenance := some (.event event.eventType) }
    | none =>
        { new with
          startedRecordedAt := some env.now
          startedProvenance := some .controlTransition }
  else new

/-- The transition into terminal is stamped with the completion event if there is one. -/
def stampCompleted (env : Env) (db : Db) (id : Id) (old new : JobRow) : JobRow :=
  if old.progress.isTerminal = false ∧ new.progress.isTerminal = true then
    match new.imported, db.completionObservation id with
    | some _, _ =>
        { new with
          completedProvenance := some .historyImport
          completedRecordedAt := some env.now }
    | none, some event =>
        { new with
          completedAt := some event.observedAt
          completedRecordedAt := some event.ingestedAt
          completedProvenance := some (.event event.eventType) }
    | none, none =>
        { new with
          completedAt := some env.now
          completedRecordedAt := some env.now
          completedProvenance := some .controlTransition }
  else new

def recordJobLifecycle (codec : Codec) (env : Env) (db : Db) (id : Id) (old new : JobRow) :
    JobRow :=
  db.stampCompleted env id old (db.stampStarted codec env id old new)

/-- The monitoring trigger, after the row is written: one outbox message for a
transition from a phase that was not terminal into the terminal one. -/
def enqueueMonitoringTerminalTransition (env : Env) (db : Db) (id : Id) (old new : JobRow) :
    Except StoreError Db :=
  match old.progress, new.progress with
  | .live phase, .terminal outcome =>
      let current := firstBy (fun a b => a.2.runNumber ≥ b.2.runNumber)
        (db.runs.select fun _ run => run.jobId = id && run.namespaceId = new.namespaceId)
      let transition : TerminalTransition :=
        { jobId := id
          runId := current.map Prod.fst
          runNumber := current.map fun run => run.2.runNumber
          ownerPrincipalId := new.ownerPrincipalId
          oldPhase := phase
          outcome := outcome
          jobRevision := new.revision
          observedCompletedAt := new.completedAt
          recordedAt := env.recordedAt id
          imported := new.imported.isSome
          reconciliation := db.recovery.reconciliationHold }
      let row : OutboxRow :=
        { namespaceId := new.namespaceId
          message := .jobTerminal transition
          createdAt := env.recordedAt id
          publishedAt := none }
      match db.outbox.insert? (env.eventId id) row with
      | some outbox => .ok { db with outbox := outbox }
      | none => .error (.constraint "outbox_pkey")
  | _, _ => .ok db

/-- `UPDATE jobs SET … WHERE id = $1`, with both triggers. -/
def updateJob (codec : Codec) (env : Env) (db : Db) (id : Id)
    (f : JobRow → Except StoreError JobRow) : Except StoreError Db :=
  match db.jobs.get? id with
  | none => .ok db
  | some old => do
      let changed ← f old
      let new := db.recordJobLifecycle codec env id old changed
      enqueueMonitoringTerminalTransition env
        { db with jobs := db.jobs.modify id fun _ => new } id old new

def updateRun (db : Db) (id : Id) (f : RunRow → Except StoreError RunRow) :
    Except StoreError Db :=
  match db.runs.get? id with
  | none => .ok db
  | some old => do
      let new ← f old
      pure { db with runs := db.runs.modify id fun _ => new }

def updateExecution (db : Db) (id : Id) (f : ExecutionRow → Except StoreError ExecutionRow) :
    Except StoreError Db :=
  match db.executions.get? id with
  | none => .ok db
  | some old => do
      let new ← f old
      pure { db with executions := db.executions.modify id fun _ => new }

def appendAudit (db : Db) (row : AuditRow) : Db := { db with audit := db.audit ++ [row] }

def insertOutbox (env : Env) (db : Db) (id namespaceId : Id) (message : OutboxMessage) :
    Except StoreError Db := do
  let outbox ← need (db.outbox.insert? id ⟨namespaceId, message, env.now, none⟩)
    (.constraint "outbox_pkey")
  pure { db with outbox := outbox }

end Db
end JobmanControl
