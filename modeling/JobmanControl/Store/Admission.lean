import JobmanControl.Store.GroupReadout

/-!
The transactions that create jobs: one job, a collection, a dependency graph,
and the import of a job that completed elsewhere. Each either commits every row
it describes or none of them.
-/

namespace JobmanControl

open Relational

structure SubmitResult where
  job : Job
  replayed : Bool
  deriving DecidableEq, Repr

structure CollectionResult where
  collection : Collection
  replayed : Bool
  deriving DecidableEq, Repr

structure GraphResult where
  graph : Graph
  replayed : Bool
  deriving DecidableEq, Repr

/-- The identities a submission draws before its transaction begins. -/
structure GroupIds where
  groupId : Id
  jobId : Nat → Id
  outboxId : Nat → Id

def submitJob (codec : Codec) (env : Env) (queued : Db → Id → Nat)
    (authorization : Except StoreError Authorization) (idempotencyKey : String)
    (jobId outboxId : Id) (submission : JobSubmission) :
    Tx StoreError Db SubmitResult := fun db => do
  ensure (validIdempotencyKey idempotencyKey) (.invalid "invalid idempotency key")
  validateSubmission codec submission
  let authorization ← authorization
  let (replayed, db) ← reserveIdempotency db authorization .jobsCreate .job idempotencyKey
    submission.requestDigest 201
  match replayed with
  | some replayedJobId =>
      let job ← getJobById db authorization.namespaceId replayedJobId
      pure (⟨job, true⟩, db)
  | none =>
      enforceNamespaceQuota queued db authorization.namespaceId 1 0 0
      let placement ← resolveTarget db authorization.namespaceId submission
      let db ← insertWorkloadRevision codec db authorization submission
      let db ← insertJob env db authorization jobId submission placement
      let job ← getJobById db authorization.namespaceId jobId
      let db ← completeIdempotency env db authorization .jobsCreate idempotencyKey jobId 201
      let db ← insertAcceptanceEvidence env db authorization idempotencyKey outboxId jobId
        submission.requestDigest
      pure (⟨job, false⟩, db)

/-- The compatibility loop of `resolveCollectionArrayMode`, which stops at the first
item that does not fit. -/
def arrayCompatible (codec : Codec) (first : ResolvedPlacement) (resources : Option String) :
    List (ResolvedPlacement × JobSubmission) → Except StoreError Bool
  | [] => .ok true
  | (placement, item) :: rest =>
      if placement.executionBackend ≠ .slurm ∨
          placement.targetGenerationId ≠ first.targetGenerationId ∨
          placement.partition ≠ first.partition then
        .ok false
      else do
        let encoded ← need (codec.resources item.workloadDocument)
          (.invalid "decode collection item resources")
        match resources with
        | none => arrayCompatible codec first (some encoded) rest
        | some expected =>
            if encoded ≠ expected then .ok false
            else arrayCompatible codec first resources rest

def resolveCollectionArrayMode (codec : Codec) (submission : CollectionSubmission)
    (placements : List ResolvedPlacement) : Except StoreError ArrayMode :=
  if submission.arrayPolicy = .never then .ok .individual
  else do
    let compatible ← match placements with
      | first :: _ :: _ => arrayCompatible codec first none (placements.zip submission.items)
      | _ => .ok false
    if compatible then pure .slurmArray
    else if submission.arrayPolicy = .require then
      throw (.invalidPlacement "collection cannot be compiled as one Slurm array")
    else pure .individual

/-- One member of a group: its workload, its job, and the job's binding to the group. -/
def insertBoundJob (codec : Codec) (env : Env) (authorization : Authorization) (jobId : Id)
    (item : JobSubmission) (placement : ResolvedPlacement) (grouping : Grouping) (db : Db) :
    Except StoreError Db := do
  let db ← insertWorkloadRevision codec db authorization item
  let db ← insertJob env db authorization jobId item placement
  pure { db with jobs := db.jobs.modify jobId fun job => { job with grouping := grouping } }

def insertCollectionItem (codec : Codec) (env : Env) (authorization : Authorization)
    (idempotencyKey : String) (ids : GroupIds) (db : Db)
    (entry : (JobSubmission × ResolvedPlacement) × Nat) : Except StoreError Db := do
  let ((item, placement), index) := entry
  let jobId := ids.jobId index
  let db ← insertBoundJob codec env authorization jobId item placement
    (.collection ids.groupId index) db
  let items ← need (db.collectionItems.insert? (ids.groupId, index) ⟨item.name, jobId⟩)
    (.constraint "collection_items_pkey")
  insertAcceptanceEvidence env { db with collectionItems := items } authorization idempotencyKey
    (ids.outboxId (index + 1)) jobId item.requestDigest

def submitCollection (codec : Codec) (env : Env) (queued : Db → Id → Nat)
    (authorization : Except StoreError Authorization) (idempotencyKey : String) (ids : GroupIds)
    (submission : CollectionSubmission) : Tx StoreError Db CollectionResult := fun db => do
  ensure (validIdempotencyKey idempotencyKey) (.invalid "invalid idempotency key")
  validateCollectionSubmission codec submission
  let authorization ← authorization
  let (replayed, db) ← reserveIdempotency db authorization .collectionsCreate .collection
    idempotencyKey submission.requestDigest 201
  match replayed with
  | some collectionId =>
      let collection ← getCollectionById db authorization.namespaceId collectionId
      pure (⟨collection, true⟩, db)
  | none =>
      let size := submission.items.length
      enforceNamespaceQuota queued db authorization.namespaceId size size 0
      let placements ← submission.items.mapM (resolveTarget db authorization.namespaceId)
      let arrayMode ← resolveCollectionArrayMode codec submission placements
      let collections ← need
        (db.collections.insert? ids.groupId
          { namespaceId := authorization.namespaceId
            ownerPrincipalId := authorization.principalId
            name := submission.name
            labels := submission.labels
            requestDigest := submission.requestDigest
            requestDocument := submission.requestDocument
            maxActive := submission.maxActive.toNat
            failurePolicy := submission.failurePolicy
            arrayPolicy := submission.arrayPolicy
            arrayMode := arrayMode
            revision := 1
            createdAt := env.now
            updatedAt := env.now })
        (.constraint "collections_pkey")
      let db ← (submission.items.zip placements).zipIdx.foldlM
        (insertCollectionItem codec env authorization idempotencyKey ids)
        { db with collections := collections }
      let db ← completeIdempotency env db authorization .collectionsCreate idempotencyKey
        ids.groupId 201
      let db ← (db.appendAudit
        ⟨authorization.namespaceId, .principal authorization.principalId, .collectionAccepted,
          .collection, ids.groupId, some submission.requestDigest,
          some idempotencyKey⟩).insertOutbox env (ids.outboxId 0) authorization.namespaceId
          (.collectionAccepted ids.groupId size)
      let collection ← getCollectionById db authorization.namespaceId ids.groupId
      pure (⟨collection, false⟩, db)

def insertGraphNode (codec : Codec) (env : Env) (authorization : Authorization)
    (idempotencyKey : String) (ids : GroupIds) (db : Db)
    (entry : (JobSubmission × ResolvedPlacement) × Nat) : Except StoreError Db := do
  let ((node, placement), index) := entry
  let jobId := ids.jobId index
  let db ← insertBoundJob codec env authorization jobId node placement
    (.graph ids.groupId index none) db
  let nodes ← need (db.graphNodes.insert? (ids.groupId, index) ⟨node.name, jobId⟩)
    (.constraint "graph_nodes_pkey")
  insertAcceptanceEvidence env { db with graphNodes := nodes } authorization idempotencyKey
    (ids.outboxId (index + 1)) jobId node.requestDigest

/-- `jobsByName`: the job inserted for each node name. -/
def jobByName (ids : GroupIds) (nodes : List JobSubmission) (name : String) : Option Id :=
  (nodes.zipIdx.find? fun entry => entry.1.name = name).map fun entry => ids.jobId entry.2

def insertGraphEdge (ids : GroupIds) (nodes : List JobSubmission) (db : Db)
    (edge : GraphEdgeSubmission) : Except StoreError Db := do
  let upstream ← need (jobByName ids nodes edge.source) (.invalid "insert graph edge")
  let downstream ← need (jobByName ids nodes edge.sink) (.invalid "insert graph edge")
  ensure (upstream ≠ downstream) (.constraint "graph_edges_no_self_reference")
  ensure (edge.predicate = .outcomes ↔ edge.outcomes ≠ [])
    (.constraint "graph_edges_outcomes_known")
  let edges ← need
    (db.graphEdges.insert? ⟨ids.groupId, upstream, downstream⟩ ⟨edge.predicate, edge.outcomes⟩)
    (.constraint "graph_edges_pkey")
  pure { db with graphEdges := edges }

def submitGraph (codec : Codec) (env : Env) (queued : Db → Id → Nat)
    (authorization : Except StoreError Authorization) (idempotencyKey : String) (ids : GroupIds)
    (submission : GraphSubmission) : Tx StoreError Db GraphResult := fun db => do
  ensure (validIdempotencyKey idempotencyKey) (.invalid "invalid idempotency key")
  validateGraphSubmission codec submission
  let authorization ← authorization
  let (replayed, db) ← reserveIdempotency db authorization .graphsCreate .graph
    idempotencyKey submission.requestDigest 201
  match replayed with
  | some graphId =>
      let graph ← getGraphById db authorization.namespaceId graphId
      pure (⟨graph, true⟩, db)
  | none =>
      let size := submission.nodes.length
      enforceNamespaceQuota queued db authorization.namespaceId size 0 size
      let placements ← submission.nodes.mapM (resolveTarget db authorization.namespaceId)
      let graphs ← need
        (db.graphs.insert? ids.groupId
          { namespaceId := authorization.namespaceId
            ownerPrincipalId := authorization.principalId
            name := submission.name
            labels := submission.labels
            requestDigest := submission.requestDigest
            requestDocument := submission.requestDocument
            maxActive := submission.maxActive.toNat
            unsatisfiedPolicy := submission.unsatisfiedPolicy
            revision := 1
            createdAt := env.now
            updatedAt := env.now })
        (.constraint "graphs_pkey")
      let db ← (submission.nodes.zip placements).zipIdx.foldlM
        (insertGraphNode codec env authorization idempotencyKey ids) { db with graphs := graphs }
      let db ← submission.edges.foldlM (insertGraphEdge ids submission.nodes) db
      let db ← completeIdempotency env db authorization .graphsCreate idempotencyKey ids.groupId 201
      let db ← (db.appendAudit
        ⟨authorization.namespaceId, .principal authorization.principalId, .graphAccepted,
          .graph, ids.groupId, some submission.requestDigest, some idempotencyKey⟩).insertOutbox
          env (ids.outboxId 0) authorization.namespaceId
          (.graphAccepted ids.groupId size submission.edges.length)
      let graph ← getGraphById db authorization.namespaceId ids.groupId
      pure (⟨graph, false⟩, db)

structure CompletedHistoryImport where
  job : JobSubmission
  outcome : Outcome
  completedAt : Option Time
  sourceStore : String
  sourceSchema : Int
  sourceJobId : String
  requestDigest : String
  requestDocument : String
  deriving DecidableEq, Repr

structure HistoryImportResult where
  job : Option Job
  dryRun : Bool
  replayed : Bool
  deriving DecidableEq, Repr

/-- The characters `strings.TrimSpace` removes. -/
def isSpace (c : Char) : Bool :=
  let n := c.toNat
  (9 ≤ n && n ≤ 13) || n = 0x20 || n = 0x85 || n = 0xa0 || n = 0x1680 ||
    (0x2000 ≤ n && n ≤ 0x200a) || n = 0x2028 || n = 0x2029 || n = 0x202f || n = 0x205f ||
    n = 0x3000

def validateCompletedHistoryImport (codec : Codec) (request : CompletedHistoryImport) :
    Except StoreError Unit :=
  ensure ((validateSubmission codec request.job).toOption = some () ∧ request.requestDigest ≠ "" ∧
      codec.valid request.requestDocument ∧ request.completedAt ≠ none ∧
      request.sourceStore = "sqlite" ∧ 1 ≤ request.sourceSchema ∧
      !request.sourceJobId.toList.all isSpace ∧ request.sourceJobId.utf8ByteSize ≤ 128)
    (.invalid "completed history import is invalid")

/-- `UPDATE jobs SET phase = 'terminal', … WHERE id = $1 AND phase = 'accepted'`. -/
def importTerminal (env : Env) (request : CompletedHistoryImport) (job : JobRow) : JobRow :=
  if job.isAccepted then
    { job with
      progress := .terminal request.outcome
      imported := some ⟨request.sourceStore, request.sourceSchema.toNat, request.sourceJobId⟩
      completedAt := request.completedAt
      revision := job.revision + 1
      updatedAt := env.now }
  else job

def importCompletedHistory (codec : Codec) (env : Env)
    (authorization : Except StoreError Authorization) (idempotencyKey : String) (dryRun : Bool)
    (jobId outboxId : Id) (request : CompletedHistoryImport) :
    Tx StoreError Db HistoryImportResult := fun db => do
  validateCompletedHistoryImport codec request
  ensure (dryRun ∨ validIdempotencyKey idempotencyKey) (.invalid "invalid idempotency key")
  let authorization ← authorization
  let placement ← resolveTarget db authorization.namespaceId request.job
  if dryRun then pure (⟨none, true, false⟩, db)
  else
    let (replayed, db) ← reserveIdempotency db authorization .historyImport .job idempotencyKey
      request.requestDigest 201
    match replayed with
    | some resourceId =>
        let job ← getJobById db authorization.namespaceId resourceId
        pure (⟨some job, false, true⟩, db)
    | none =>
        ensure (!db.jobs.any fun _ job =>
            job.namespaceId = authorization.namespaceId &&
              (job.imported.map fun source =>
                source.store = request.sourceStore &&
                  source.jobId = request.sourceJobId).getD false)
          .conflict
        let db ← insertWorkloadRevision codec db authorization request.job
        let db ← insertJob env db authorization jobId request.job placement
        let db ← db.updateJob codec env jobId fun job => .ok (importTerminal env request job)
        let db ← completeIdempotency env db authorization .historyImport idempotencyKey jobId 201
        let db ← (db.appendAudit
          ⟨authorization.namespaceId, .principal authorization.principalId, .historyImported, .job,
            jobId, some request.requestDigest, some idempotencyKey⟩).insertOutbox env outboxId
            authorization.namespaceId
            (.historyImported jobId request.sourceStore request.sourceJobId)
        let job ← getJobById db authorization.namespaceId jobId
        pure (⟨some job, false, false⟩, db)

end JobmanControl
