import JobmanControl.Library.System
import JobmanControl.Store.Admission
import JobmanControl.Store.Execution

/-!
The store as a transition system. One step takes one call, with the values its
transaction drew, and either commits all its writes or leaves the store as it
was. Administration may replace the tables the lifecycle only reads at any time.
-/

namespace JobmanControl

open Relational

/-- The tables that administration fills and the lifecycle reads. -/
structure Configuration where
  namespaces : Table Id String
  policies : Table Id PolicyRow
  recovery : RecoveryRow
  targets : Table Id TargetRow
  generations : Table Id GenerationRow
  partitions : Table Id PartitionRow
  agents : Table Id AgentRow
  sessions : Table Id SessionRow
  logStreams : Table (Id × LogStream) LogStreamRow

def Db.configure (db : Db) (configuration : Configuration) : Db :=
  { db with
    namespaces := configuration.namespaces
    policies := configuration.policies
    recovery := configuration.recovery
    targets := configuration.targets
    generations := configuration.generations
    partitions := configuration.partitions
    agents := configuration.agents
    sessions := configuration.sessions
    logStreams := configuration.logStreams }

/-- A store after its migrations: no rows, and the singleton rows at their defaults. -/
def Db.empty : Db where
  namespaces := .empty
  policies := .empty
  recovery := ⟨false, 1⟩
  targets := .empty
  generations := .empty
  partitions := .empty
  agents := .empty
  sessions := .empty
  logStreams := .empty
  workloads := .empty
  jobs := .empty
  collections := .empty
  collectionItems := .empty
  graphs := .empty
  graphNodes := .empty
  graphEdges := .empty
  runs := .empty
  executions := .empty
  assignments := .empty
  events := .empty
  artifacts := .empty
  actions := .empty
  idempotency := .empty
  audit := []
  outbox := .empty
  feedState := ⟨0, 0, 2592000, 0⟩
  feed := .empty
  targetCatalogClocks := .empty
  logChunks := .empty
  enrollmentTokens := .empty
  capabilitySnapshots := .empty
  certificates := .empty

/-- The calls that change jobs, with their arguments. -/
inductive Operation
  | configure (configuration : Configuration)
  | submitJob (authorization : Except StoreError Authorization) (idempotencyKey : String)
      (jobId outboxId : Id) (submission : JobSubmission)
  | submitCollection (authorization : Except StoreError Authorization) (idempotencyKey : String)
      (ids : GroupIds) (submission : CollectionSubmission)
  | submitGraph (authorization : Except StoreError Authorization) (idempotencyKey : String)
      (ids : GroupIds) (submission : GraphSubmission)
  | reconcileOneAssignment (ids : DispatchIds)
  | acceptAssignment (identity : AgentIdentity) (acceptance : Acceptance)
  | recordExecutionEvent (identity : AgentIdentity) (event : ExecutionObservation)
  | cancelJob (authorization : Except StoreError Authorization) (jobId : Id)
      (idempotencyKey requestDigest : String)
  | cancelGraph (authorization : Except StoreError Authorization) (graphId : Id)
      (idempotencyKey requestDigest : String)
  | reconcileStaleExecution (mixedParameter : Bool) (staleAfter : Nat) (outboxId : Id)
  | importCompletedHistory (authorization : Except StoreError Authorization)
      (idempotencyKey : String) (dryRun : Bool) (jobId outboxId : Id)
      (request : CompletedHistoryImport)

structure Call where
  env : Env
  operation : Operation

/-- The store after a call: its writes, or nothing if it was refused. -/
def Call.apply (codec : Codec) (call : Call) (db : Db) : Db :=
  match call.operation with
  | .configure configuration => db.configure configuration
  | .submitJob authorization key jobId outboxId submission =>
      atomically
        (submitJob codec call.env queuedJobs authorization key jobId outboxId submission) db
  | .submitCollection authorization key ids submission =>
      atomically (submitCollection codec call.env queuedJobs authorization key ids submission) db
  | .submitGraph authorization key ids submission =>
      atomically (submitGraph codec call.env queuedJobs authorization key ids submission) db
  | .reconcileOneAssignment ids => atomically (reconcileOneAssignment codec call.env ids) db
  | .acceptAssignment identity acceptance =>
      atomically (acceptAssignment codec call.env identity acceptance) db
  | .recordExecutionEvent identity event =>
      atomically (recordExecutionEvent codec call.env .alone identity event) db
  | .cancelJob authorization jobId key digest =>
      atomically (cancelJob codec call.env .alone authorization jobId key digest) db
  | .cancelGraph authorization graphId key digest =>
      atomically (cancelGraph codec call.env .alone authorization graphId key digest) db
  | .reconcileStaleExecution mixedParameter staleAfter outboxId =>
      atomically (reconcileStaleExecution codec call.env mixedParameter staleAfter outboxId) db
  | .importCompletedHistory authorization key dryRun jobId outboxId request =>
      atomically
        (importCompletedHistory codec call.env authorization key dryRun jobId outboxId request) db

def Db.Step (codec : Codec) (db : Db) (call : Call) (db' : Db) : Prop :=
  call.apply codec db = db'

/-- The stores any sequence of calls leads to. -/
abbrev Db.Later (codec : Codec) (db db' : Db) : Prop := Transition.Reachable (Db.Step codec) db db'

/-- The stores that can arise. -/
abbrev Db.Arises (codec : Codec) (db : Db) : Prop := Db.Later codec Db.empty db

def Db.run (codec : Codec) (db : Db) (calls : List Call) : Db :=
  calls.foldl (fun db call => call.apply codec db) db

theorem Db.later_run (codec : Codec) (db : Db) (calls : List Call) :
    Db.Later codec db (db.run codec calls) := by
  induction calls generalizing db with
  | nil => exact .refl
  | cons call rest ih => exact (Transition.Reaches.tail call .refl trivial rfl).trans (ih _)

def Db.admits (codec : Codec) (allowed : Db → Call → Bool) : Db → List Call → Bool
  | _, [] => true
  | db, call :: rest => allowed db call && Db.admits codec allowed (call.apply codec db) rest

theorem Db.reaches_run (codec : Codec) (allowed : Db → Call → Bool) (db : Db) (calls : List Call)
    (h : Db.admits codec allowed db calls = true) :
    Transition.Reaches (Db.Step codec) (fun db call => allowed db call = true) db
      (db.run codec calls) := by
  induction calls generalizing db with
  | nil => exact .refl
  | cons call rest ih =>
      rw [Db.admits, Bool.and_eq_true] at h
      exact (Transition.Reaches.tail call .refl h.1 rfl).trans (ih _ h.2)

/-! A small installation to run the store on: one namespace, one target, one agent. -/

namespace Sample

def object (members : String) : String := "\x7b" ++ members ++ "\x7d"

def text (value : String) : String := "\"" ++ value ++ "\""

/-- A workload for a runtime and at most one operating system. -/
def workload (runtime : String) (operatingSystem : Option String) : String :=
  object ("\"spec\":" ++ object ("\"runtime\":" ++ object ("\"kind\":" ++ text runtime) ++
    ",\"requirements\":" ++ object ("\"operatingSystems\":[" ++
      (operatingSystem.map text).getD "" ++ "]")))

def result (outcome : String) : String := object ("\"outcome\":" ++ text outcome)

def report (outcome : String) : String :=
  object ("\"spec\":" ++ object ("\"result\":" ++ result outcome))

def outcomeText : Outcome → String
  | .success => "success"
  | _ => "failure"

def workloads : List (String × Option String) :=
  [("process", none), ("native", none), ("native", some "linux"), ("native", some "darwin")]

def digest (executionId : Id) : String := "sha256:" ++ executionId.repr

/-- The documents of the installation are the empty one, the workloads and the reports. -/
def codec : Codec where
  valid document := document = "{}" || workloads.any fun (runtime, system) =>
    workload runtime system = document
  sameDocument a b := a = b
  requirements document :=
    match workloads.find? fun (runtime, system) => workload runtime system = document with
    | some (runtime, system) => ⟨some runtime, system.toList, [], []⟩
    | none => ⟨none, [], [], []⟩
  resources document :=
    if workloads.any fun (runtime, system) => workload runtime system = document then some "{}"
    else none
  schedulerState _ := none
  processResult document :=
    (["success", "failure"].find? fun outcome => report outcome = document).map result
  publishedArtifacts _ := []
  validateArtifactPublication _ document :=
    ["success", "failure"].any fun outcome => report outcome = document
  decodeWorkload document :=
    if workloads.any fun (runtime, system) => workload runtime system = document then some document
    else none
  sealEffectiveExecution execution := some ⟨execution, digest execution.executionId⟩
  sealAgentAssignment assignment := some ⟨assignment,
    object ("\"digest\":" ++ text assignment.effectiveExecutionDigest)⟩
  encodeEffectiveExecution execution :=
    object ("\"digest\":" ++ text execution.workloadDigest ++ ",\"document\":" ++
      execution.workload)

def single {κ ρ : Type} (k : κ) (r : ρ) : Table κ ρ := ⟨[(k, r)], List.nodup_singleton k⟩

def policy : PolicyRow := ⟨4, 4, 4, 4, 0, 0, none⟩

def configuration : Configuration where
  namespaces := single 1 "research"
  policies := single 1 policy
  recovery := ⟨false, 1⟩
  targets := single 3 ⟨1, "cluster", .active, some 4, .host, 1, 0, 0⟩
  generations := single 4 ⟨1, 3, .subprocess, ["process"], [], [], [], [], none, 1, none, .onPrem⟩
  partitions := .empty
  agents := single 5 ⟨1, 3, 4, 2, .active, true, some 0, none, "linux", "amd64", [.subprocess],
    ["process"], [], 0, 0, "1.0", ["jobman/v1alpha1"], "node", "user", "registration", 0⟩
  sessions := single 6 ⟨5, 1000, none, 1, "session", none, none, 0⟩
  logStreams := .empty

def env (now : Time) : Env := ⟨now, fun j => 1000 + j, fun _ => now, fun e => 2000 + e⟩

def authorization : Except StoreError Authorization := .ok ⟨1, 2, false⟩

def submission (name : String) : JobSubmission where
  namespaceName := "research"
  name := name
  labels := []
  target := "cluster"
  partition := ""
  runtimeKind := "process"
  operatingSystems := []
  architectures := []
  capabilities := []
  artifactStores := []
  workloadDigest := "workload"
  workloadDocument := workload "process" none
  requestDigest := "request"
  requestDocument := "{}"
  executionFeatures := ⟨true, false, false, false, false, false, 1, false⟩

/-- Two nodes, the second to run only when the first succeeded. -/
def graph : GraphSubmission where
  namespaceName := "research"
  name := "pair"
  labels := []
  maxActive := 2
  unsatisfiedPolicy := .skip
  requestDigest := "request"
  requestDocument := "{}"
  nodes := [submission "first", submission "second"]
  edges := [⟨"first", "second", .success, []⟩]

def graphIds : GroupIds := ⟨20, fun i => 10 + i, fun i => 30 + i⟩

def identity : AgentIdentity := ⟨5, 1, 4⟩

def completion (executionId : Id) (outcome : Outcome) : ExecutionObservation where
  eventId := 60 + executionId
  executionId := executionId
  agentId := 5
  sequence := 1
  observedAt := 4
  type := .processCompleted
  nativeId := ""
  outcome := some outcome
  schedulerBackend := ""
  schedulerState := none
  schedulerReason := ""
  schedulerCluster := ""
  documentDigest := "event"
  document := report (outcomeText outcome)

def installed : Db := Db.empty.run codec [⟨env 0, .configure configuration⟩]

def submitted : Db :=
  installed.run codec [⟨env 1, .submitGraph authorization "submit-graph-1" graphIds graph⟩]

def offered : Db := submitted.run codec [⟨env 2, .reconcileOneAssignment ⟨40, 41, 42, 43⟩⟩]

def acceptance : Acceptance := ⟨42, 41, 5, 4, digest 41, "accept", "{}"⟩

/-- The first node is dispatched, accepted and completed. -/
def firstNode (outcome : Outcome) : List Call :=
  [⟨env 2, .reconcileOneAssignment ⟨40, 41, 42, 43⟩⟩,
    ⟨env 3, .acceptAssignment identity acceptance⟩,
    ⟨env 4, .recordExecutionEvent identity (completion 41 outcome)⟩]

end Sample

end JobmanControl
