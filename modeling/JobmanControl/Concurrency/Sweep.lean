import JobmanControl.Concurrency.Committed
import JobmanControl.Library.Session

/-!
The two transactions that cancel a whole group, interleaved with all the others:
`CancelGraph`, and a completion that triggers fail-fast. Their listing joins each
job with its run and execution but locks only the job. A row that had to wait for
its lock is re-read as far as the job is concerned, and keeps the run and execution
columns of the moment the statement began.
-/

namespace JobmanControl

open Relational Interleaving

inductive SweepRequest
  | cancelGraph (authorization : Except StoreError Authorization) (graphId : Id)
      (idempotencyKey requestDigest : String)
  | recordExecutionEvent (identity : AgentIdentity) (event : ExecutionObservation)

inductive SweepStage
  | opening
  | grouping
  | listing
  /-- The listing waits for the first of the pending rows. -/
  | locking (pending listed : List CollectionSibling)
  /-- The members are listed and graph propagation has skipped the locked rows. -/
  | ready (listed : List CollectionSibling) (skipped : Id → Bool)

structure Sweep where
  env : Env
  request : SweepRequest
  stage : SweepStage

namespace SweepRequest

def opens (db : Db) : SweepRequest → List RowKey
  | .cancelGraph _ graphId _ _ => [.graph graphId]
  | .recordExecutionEvent _ event =>
      ((db.reportingJob event).map fun entry => RowKey.job entry.1).toList

/-- The row `applyCollectionCompletion` locks. -/
def groups (db : Db) : SweepRequest → List RowKey
  | .cancelGraph _ _ _ _ => []
  | .recordExecutionEvent _ event =>
      ((db.reportingJob event).bind fun entry =>
        entry.2.grouping.collectionId.map RowKey.collection).toList

def failsFast (db : Db) (event : ExecutionObservation) (collectionId : Id) : Bool :=
  completionEvent event.type && event.outcome ≠ some .success &&
    (db.collections.get? collectionId).any fun collection => collection.failurePolicy = .failFast

def lists (db : Db) : SweepRequest → List CollectionSibling
  | .cancelGraph _ graphId _ _ => graphCancellationNodes db graphId
  | .recordExecutionEvent _ event =>
      match db.reportingJob event with
      | none => []
      | some (jobId, job) =>
          match job.grouping.collectionId with
          | none => []
          | some collectionId =>
              if failsFast db event collectionId then failFastSiblings db collectionId jobId else []

def run (codec : Codec) (env : Env) (view : GroupView) (db : Db) : SweepRequest → Option Db
  | .cancelGraph authorization graphId key digest =>
      committed (JobmanControl.cancelGraph codec env view authorization graphId key digest) db
  | .recordExecutionEvent identity event =>
      committed (JobmanControl.recordExecutionEvent codec env view identity event) db

end SweepRequest

/-- The listing has the lock of its first pending row. A job that has finished
meanwhile no longer meets the condition of the listing. -/
def grantRow (db : Db) (row : CollectionSibling) (listed : List CollectionSibling) :
    List CollectionSibling :=
  match db.jobs.get? row.jobId with
  | none => listed
  | some job =>
      if job.progress.isTerminal then listed else listed ++ [{ row with phase := job.progress }]

def Sweep.wants (db : Db) (sweep : Sweep) : List RowKey :=
  match sweep.stage with
  | .opening => sweep.request.opens db
  | .grouping => sweep.request.groups db
  | .locking (row :: _) _ => [.job row.jobId]
  | .listing | .locking [] _ | .ready _ _ => []

def Sweep.advance (locked : RowKey → Bool) (db : Db) (sweep : Sweep) : Sweep :=
  { sweep with
    stage :=
      match sweep.stage with
      | .opening => .grouping
      | .grouping => .listing
      | .listing => .locking (sweep.request.lists db) []
      | .locking (row :: rest) listed => .locking rest (grantRow db row listed)
      | .locking [] listed => .ready listed fun j => locked (.job j)
      | .ready listed skipped => .ready listed skipped }

def Sweep.commit (codec : Codec) (sweep : Sweep) (db : Db) : Option Db :=
  match sweep.stage with
  | .ready listed skipped =>
      sweep.request.run codec sweep.env ⟨fun _ _ _ => listed, fun _ _ => listed, skipped⟩ db
  | _ => none

/-- Sweeps as sessions among transactions that take one step. -/
def sweeping (codec : Codec) : Protocol Db Sweep (Env × SweepRequest) Call RowKey where
  call := Call.apply codec
  start request := ⟨request.1, request.2, .opening⟩
  wants _ db sweep := sweep.wants db
  advance locked db sweep := sweep.advance locked db
  commit sweep db := sweep.commit codec db
  same key db db' := db.sameRow key db'

abbrev SweepWorld := World Db Sweep RowKey

/-- When the listing gets the lock of an unfinished job, a join made now would
return the run and execution columns the listing began with. -/
def undisturbed (w : SweepWorld) : Action (Env × SweepRequest) Call → Bool
  | .advance i =>
      match (w.sessions.get? i).map fun s => s.state.stage with
      | some (SweepStage.locking (row :: _) _) =>
          match w.committed.jobs.get? row.jobId with
          | some job => job.progress.isTerminal ||
              (siblingRows w.committed row.jobId job).map (·.execution) = [row.execution]
          | none => true
      | _ => true
  | _ => true

theorem undisturbed_row {w : SweepWorld} {i : Nat} {s : Session Sweep RowKey}
    {row : CollectionSibling} {rest listed : List CollectionSibling} {job : JobRow}
    (h : undisturbed w (.advance i) = true) (hs : w.sessions.get? i = some s)
    (hstage : s.state.stage = .locking (row :: rest) listed)
    (hjob : w.committed.jobs.get? row.jobId = some job)
    (hlive : job.progress.isTerminal = false) :
    (siblingRows w.committed row.jobId job).map (·.execution) = [row.execution] := by
  simpa [undisturbed, hs, hstage, hjob, hlive] using h

namespace Sample

/-- The graph is cancelled after the agent has accepted the offer. -/
def earlyAcceptance : List (Action (Env × SweepRequest) Call) :=
  [.call ⟨env 3, .acceptAssignment identity acceptance⟩,
    .start 0 (env 4, .cancelGraph authorization 20 "cancel-graph-1" "cancel"), .advance 0,
    .advance 0, .advance 0, .advance 0, .advance 0, .advance 0, .commit 0]

/-- The graph is cancelled while the agent accepts the offer: the listing begins
before the acceptance commits and gets the lock of the job afterwards. -/
def lateAcceptance : List (Action (Env × SweepRequest) Call) :=
  [.start 0 (env 3, .cancelGraph authorization 20 "cancel-graph-1" "cancel"), .advance 0,
    .advance 0, .advance 0, .call ⟨env 4, .acceptAssignment identity acceptance⟩, .advance 0,
    .advance 0, .advance 0, .commit 0]

end Sample

end JobmanControl
