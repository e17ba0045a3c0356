import JobmanControl.Store.GroupReadout

/-!
Cancellation and what a completion does to the rest of its group: fail-fast
cancels the siblings of a failed collection member, and propagation settles the
nodes of a graph whose dependencies can no longer be satisfied.
-/

namespace JobmanControl

open Relational

/-- The execution columns of a listed group member; all of them come from one
left-joined row, so they are null together. -/
structure SiblingExecution where
  executionId : Id
  runId : Id
  agentId : Id
  phase : Progress ExecutionPhase ExecutionResult
  deriving DecidableEq, Repr

structure CollectionSibling where
  jobId : Id
  phase : Progress JobPhase Outcome
  execution : Option SiblingExecution
  deriving DecidableEq, Repr

/-- `jobs AS j LEFT JOIN runs AS r … LEFT JOIN executions AS e …` for one job. -/
def siblingRows (db : Db) (jobId : Id) (job : JobRow) : List CollectionSibling :=
  match db.runs.select fun _ run => run.jobId = jobId with
  | [] => [⟨jobId, job.progress, none⟩]
  | runs => runs.flatMap fun run =>
      match db.executions.select fun _ execution => execution.runId = run.1 with
      | [] => [⟨jobId, job.progress, none⟩]
      | executions => executions.map fun execution =>
          ⟨jobId, job.progress,
            some ⟨execution.1, run.1, execution.2.agentId, execution.2.progress⟩⟩

/-- `UPDATE jobs SET phase = 'terminal', desired_state = 'cancel', outcome = 'cancelled'`. -/
def cancelJobRow (codec : Codec) (env : Env) (jobId : Id) (db : Db) : Except StoreError Db :=
  db.updateJob codec env jobId fun job => .ok
    { job with
      progress := .terminal .cancelled
      desiredState := .cancel
      revision := job.revision + 1
      updatedAt := env.now }

/-- `UPDATE assignments SET state = 'withdrawn' WHERE execution_id = $1 AND state = 'offered'`. -/
def withdrawAssignment (executionId : Id) (db : Db) : Db :=
  { db with
    assignments := db.assignments.updateWhere
      (fun _ assignment => assignment.executionId = executionId && assignment.state = .offered)
      (fun _ assignment => { assignment with state := .withdrawn }) }

def withdrawPlanned (codec : Codec) (env : Env) (jobId : Id) (sibling : SiblingExecution)
    (db : Db) : Except StoreError Db := do
  let db := withdrawAssignment sibling.executionId db
  let db ← db.updateExecution sibling.executionId fun execution => .ok
    { execution with
      progress := .terminal ⟨.cancelled, .cancelledBeforeLaunch⟩
      revision := execution.revision + 1 }
  let db ← db.updateRun sibling.runId fun run => .ok
    { run with progress := .terminal .cancelled, desiredState := .cancel }
  cancelJobRow codec env jobId db

/-- `INSERT INTO desired_actions … ON CONFLICT (execution_id, action_type) DO NOTHING`. -/
def insertCancelAction (env : Env) (namespaceId executionId agentId : Id) (db : Db) :
    Except StoreError Db :=
  if db.actions.any fun _ action => action.executionId = executionId then .ok db
  else do
    let actions ← need
      (db.actions.insert? (env.actionId executionId)
        ⟨namespaceId, executionId, agentId, 1, .pending, env.now, 0, none⟩)
      (.constraint "desired_actions_pkey")
    pure { db with actions := actions }

def requestCancellation (codec : Codec) (env : Env) (namespaceId jobId : Id)
    (sibling : SiblingExecution) (db : Db) : Except StoreError Db := do
  let db ← insertCancelAction env namespaceId sibling.executionId sibling.agentId db
  let db ← db.updateRun sibling.runId fun run => .ok { run with desiredState := .cancel }
  db.updateJob codec env jobId fun job => .ok
    { job with
      desiredState := .cancel
      revision := job.revision + 1
      updatedAt := env.now }

/-- The three-way switch of `cancelCollectionSibling`, decided by the listed row. -/
def cancelCollectionSibling (codec : Codec) (env : Env) (namespaceId : Id) (db : Db)
    (sibling : CollectionSibling) : Except StoreError Db :=
  match sibling.execution with
  | none => cancelJobRow codec env sibling.jobId db
  | some execution =>
      if execution.phase = .live .planned then
        withdrawPlanned codec env sibling.jobId execution db
      else requestCancellation codec env namespaceId sibling.jobId execution db

def indexOrder (index : JobRow → Option Nat) (a b : Id × JobRow) : Bool :=
  match index a.2, index b.2 with
  | some i, some j => i ≤ j
  | some _, none => true
  | none, some _ => false
  | none, none => true

def failFastSiblings (db : Db) (collectionId completedJobId : Id) : List CollectionSibling :=
  (orderBy (indexOrder fun job => job.grouping.collectionIndex)
    (db.jobs.select fun jobId job =>
      job.grouping.collectionId = some collectionId && jobId ≠ completedJobId &&
        !job.progress.isTerminal)).flatMap fun entry => siblingRows db entry.1 entry.2

def graphCancellationNodes (db : Db) (graphId : Id) : List CollectionSibling :=
  (orderBy (indexOrder fun job => job.grouping.graphIndex)
    (db.jobs.select fun _ job =>
      job.grouping.graphId = some graphId && !job.progress.isTerminal)).flatMap fun entry =>
    siblingRows db entry.1 entry.2

/-- What the statements of a transaction that concern a whole group return: the two
listings, and which rows another transaction has locked. -/
structure GroupView where
  siblings : Db → Id → Id → List CollectionSibling
  nodes : Db → Id → List CollectionSibling
  locked : Id → Bool

def GroupView.alone : GroupView := ⟨failFastSiblings, graphCancellationNodes, fun _ => false⟩

def applyCollectionCompletion (codec : Codec) (env : Env) (view : GroupView)
    (namespaceId completedJobId : Id) (outcome : Outcome) (db : Db) : Except StoreError Db :=
  match db.jobs.get? completedJobId with
  | none => .ok db
  | some job =>
      if job.namespaceId ≠ namespaceId then .ok db
      else
        match job.grouping.collectionId with
        | none => .ok db
        | some collectionId =>
            match db.collections.get? collectionId with
            | none => .ok db
            | some collection => do
                let db ←
                  if collection.failurePolicy = .failFast ∧ outcome ≠ .success then
                    (view.siblings db collectionId completedJobId).foldlM
                      (cancelCollectionSibling codec env namespaceId) db
                  else .ok db
                pure { db with
                  collections := db.collections.modify collectionId (CollectionRow.touch env) }

def isStuck (db : Db) (jobId : Id) (job : JobRow) : Bool :=
  job.isAccepted &&
    (db.graphEdges.any fun key _ => key.downstreamJobId = jobId) &&
    (!(db.incomingEdges jobId).any fun (_, upstream) => !upstream.progress.isTerminal) &&
    (db.incomingEdges jobId).any fun (edge, upstream) => (edge.2.unsatisfied upstream).holds

/-- The propagation query; rows locked by other transactions are skipped. -/
def propagationCandidate (locked : Id → Bool) (graphId : Id) (db : Db) : Option Id :=
  (firstBy (indexOrder fun job => job.grouping.graphIndex)
    (db.jobs.select fun jobId job =>
      job.grouping.graphId = some graphId && isStuck db jobId job && !locked jobId)).map Prod.fst

def unsatisfiedDisposition : UnsatisfiedPolicy → GraphDisposition × Outcome × DesiredState
  | .skip => (.skipped, .aborted, .run)
  | .cancel => (.cancelled, .cancelled, .cancel)
  | .blocked => (.blocked, .aborted, .run)

def disposeNode (codec : Codec) (env : Env) (namespaceId : Id) (policy : UnsatisfiedPolicy)
    (jobId : Id) (db : Db) : Except StoreError Db := do
  let (disposition, outcome, desiredState) := unsatisfiedDisposition policy
  let db ← db.updateJob codec env jobId fun job => do
    let grouping ← job.grouping.dispose disposition
    pure
      { job with
        progress := .terminal outcome
        desiredState := desiredState
        grouping := grouping
        revision := job.revision + 1
        updatedAt := env.now }
  pure (db.appendAudit ⟨namespaceId, .system, .graphNodeUnsatisfied, .job, jobId, none, none⟩)

def propagate (codec : Codec) (env : Env) (locked : Id → Bool) (namespaceId graphId : Id)
    (policy : UnsatisfiedPolicy) : Nat → Db → Except StoreError Db
  | 0, db => .ok db
  | fuel + 1, db =>
      match propagationCandidate locked graphId db with
      | none => .ok db
      | some jobId => do
          let db ← disposeNode codec env namespaceId policy jobId db
          propagate codec env locked namespaceId graphId policy fuel db

def applyGraphCompletion (codec : Codec) (env : Env) (view : GroupView)
    (namespaceId completedJobId : Id) (db : Db) : Except StoreError Db :=
  match db.jobs.get? completedJobId with
  | none => .ok db
  | some job =>
      if job.namespaceId ≠ namespaceId then .ok db
      else
        match job.grouping.graphId with
        | none => .ok db
        | some graphId =>
            match db.graphs.get? graphId with
            | none => .ok db
            | some graph => do
                -- One iteration settles one job row, so the number of rows bounds the loop.
                let db ← propagate codec env view.locked namespaceId graphId graph.unsatisfiedPolicy
                  db.jobs.entries.length db
                pure { db with graphs := db.graphs.modify graphId (GraphRow.touch env) }

def cancelJobExecution (codec : Codec) (env : Env) (namespaceId jobId : Id) (db : Db) :
    Except StoreError Db :=
  match (db.executionsOf jobId).head? with
  | none => cancelJobRow codec env jobId db
  | some (run, execution) =>
      let row : SiblingExecution :=
        ⟨execution.1, run.1, execution.2.agentId, execution.2.progress⟩
      if execution.2.progress = .live .planned then withdrawPlanned codec env jobId row db
      else requestCancellation codec env namespaceId jobId row db

def cancelJob (codec : Codec) (env : Env) (view : GroupView)
    (authorization : Except StoreError Authorization) (jobId : Id)
    (idempotencyKey requestDigest : String) : Tx StoreError Db Job := fun db => do
  let authorization ← authorization
  let job ← need (db.jobs.get? jobId) .notFound
  ensure (job.namespaceId = authorization.namespaceId) .notFound
  ensure (job.ownerPrincipalId = authorization.principalId ∨ authorization.cancelAny) .forbidden
  let (replayed, db) ← reserveIdempotency db authorization .jobsCancel .job idempotencyKey
    requestDigest 200
  match replayed with
  | some replayedJobId =>
      ensure (replayedJobId = jobId) .idempotencyConflict
      let job ← getJobById db authorization.namespaceId jobId
      pure (job, db)
  | none =>
      if job.progress.isTerminal ∨ job.desiredState = .cancel then
        let db ← completeIdempotency env db authorization .jobsCancel idempotencyKey jobId 200
        let job ← getJobById db authorization.namespaceId jobId
        pure (job, db)
      else
        let db ← cancelJobExecution codec env authorization.namespaceId jobId db
        let db ← completeIdempotency env db authorization .jobsCancel idempotencyKey jobId 200
        let job ← getJobById db authorization.namespaceId jobId
        let db ←
          if job.row.progress.isTerminal then
            applyGraphCompletion codec env view authorization.namespaceId jobId db
          else .ok db
        pure (job, db)

def cancelGraph (codec : Codec) (env : Env) (view : GroupView)
    (authorization : Except StoreError Authorization) (graphId : Id)
    (idempotencyKey requestDigest : String) : Tx StoreError Db Graph := fun db => do
  let authorization ← authorization
  let graph ← need (db.graphs.get? graphId) .notFound
  ensure (graph.namespaceId = authorization.namespaceId) .notFound
  ensure (graph.ownerPrincipalId = authorization.principalId ∨ authorization.cancelAny) .forbidden
  let (replayed, db) ← reserveIdempotency db authorization .graphsCancel .graph idempotencyKey
    requestDigest 200
  match replayed with
  | some resourceId =>
      ensure (resourceId = graphId) .idempotencyConflict
      let graph ← getGraphById db authorization.namespaceId graphId
      pure (graph, db)
  | none =>
      let db ← (view.nodes db graphId).foldlM
        (cancelCollectionSibling codec env authorization.namespaceId) db
      let db : Db := { db with graphs := db.graphs.modify graphId (GraphRow.touch env) }
      let db := db.appendAudit
        ⟨authorization.namespaceId, .principal authorization.principalId, .graphCancelled, .graph,
          graphId, some requestDigest, some idempotencyKey⟩
      let db ← completeIdempotency env db authorization .graphsCancel idempotencyKey graphId 200
      let graph ← getGraphById db authorization.namespaceId graphId
      pure (graph, db)

end JobmanControl
