import JobmanControl.Store.Idempotency
import JobmanControl.Store.Operation
import JobmanControl.Store.Report

/-!
What the job transactions write, said once. A relation between stores that every
statement of these transactions keeps relates the store before a transaction to the
store after it. The tables such relations speak about are the outbox, the monitoring
feed, the idempotency records, the target catalog, the jobs with their groups, the
dispatched work and the agents with their logs; everything else is written elsewhere.
A row keeps the columns that say what it belongs to, and a new row belongs to rows that
are there. A transaction that reserves a key is walked once: it replays, or its
statements stand around the completion of the record.
-/

namespace JobmanControl

open Relational

variable {codec : Codec} {env : Env} {requestDigest idempotencyKey key digest : String}
  {items : List JobSubmission} {sibling : SiblingExecution} {policy : UnsatisfiedPolicy}
  {acceptance : Acceptance} {submission item : JobSubmission}
  {namespaceId jobId outboxId runId id : Id} {grouping : Grouping} {view : GroupView}
  {event : ExecutionObservation} {ids : GroupIds} {asked : JobSubmission → Grouping → Prop}

def Db.catalog (db : Db) : Table Id String × Table Id TargetRow × Table Id GenerationRow ×
    Table Id PartitionRow × Table Id Time :=
  (db.namespaces, db.targets, db.generations, db.partitions, db.targetCatalogClocks)

/-- The tables of the agents and their logs. -/
structure AgentTables where
  agents : Table Id AgentRow
  sessions : Table Id SessionRow
  enrollmentTokens : Table Id EnrollmentTokenRow
  capabilitySnapshots : Table (Id × Nat) CapabilitySnapshotRow
  certificates : Table String CertificateRow
  logStreams : Table (Id × LogStream) LogStreamRow
  logChunks : Table LogChunkKey LogChunkRow

def Db.agentTables (db : Db) : AgentTables :=
  ⟨db.agents, db.sessions, db.enrollmentTokens, db.capabilitySnapshots, db.certificates,
    db.logStreams, db.logChunks⟩

/-- The tables that relations speak about. -/
structure WatchedTables where
  outbox : Table Id OutboxRow
  feed : Table Nat FeedRow
  feedState : FeedState
  idempotency : Table IdempotencyKey IdempotencyRow
  catalog : Table Id String × Table Id TargetRow × Table Id GenerationRow × Table Id PartitionRow ×
    Table Id Time
  workloads : Table (Id × String) WorkloadRow
  jobs : Table Id JobRow
  collections : Table Id CollectionRow
  graphs : Table Id GraphRow
  collectionItems : Table (Id × Nat) MemberRow
  graphNodes : Table (Id × Nat) MemberRow
  runs : Table Id RunRow
  executions : Table Id ExecutionRow
  assignments : Table Id AssignmentRow
  events : Table Id ExecutionEventRow
  artifacts : Table (Id × String) ArtifactRow
  agentTables : AgentTables
  policies : Table Id PolicyRow
  recovery : RecoveryRow

def Db.watched (db : Db) : WatchedTables :=
  ⟨db.outbox, db.feed, db.feedState, db.idempotency, db.catalog, db.workloads, db.jobs,
    db.collections, db.graphs, db.collectionItems, db.graphNodes, db.runs, db.executions,
    db.assignments, db.events, db.artifacts, db.agentTables, db.policies, db.recovery⟩

structure JobIdentity where
  namespaceId : Id
  ownerPrincipalId : Id
  targetId : Id
  targetGenerationId : Id
  collectionId : Option Id
  graphId : Option Id
  deriving DecidableEq

/-- The columns of a job that are written when it is admitted. -/
def JobRow.identity (row : JobRow) : JobIdentity :=
  ⟨row.namespaceId, row.ownerPrincipalId, row.targetId, row.targetGenerationId,
    row.grouping.collectionId, row.grouping.graphId⟩

structure JobPlacement where
  placementTarget : String
  placementPartition : Option String
  resolvedArtifactStores : List ArtifactStore
  workloadDigest : String
  collectionIndex : Option Nat
  createdAt : Time
  deriving DecidableEq

def JobRow.placement (row : JobRow) : JobPlacement :=
  ⟨row.placementTarget, row.placementPartition, row.resolvedArtifactStores, row.workloadDigest,
    row.grouping.collectionIndex, row.createdAt⟩

/-- What every `UPDATE` of a job leaves alone. -/
structure JobRow.Keeps (row row' : JobRow) : Prop where
  identity : row'.identity = row.identity
  placement : row'.placement = row.placement

variable {queued : Db → Id → Nat}

theorem JobRow.Keeps.refl (row : JobRow) : row.Keeps row := ⟨rfl, rfl⟩

theorem JobRow.Keeps.trans {row₁ row₂ row₃ : JobRow} (h : row₁.Keeps row₂) (h' : row₂.Keeps row₃) :
    row₁.Keeps row₃ :=
  ⟨h'.identity.trans h.identity, h'.placement.trans h.placement⟩

theorem JobRow.Keeps.columns {row row' : JobRow} (h : row.Keeps row') :
    row'.namespaceId = row.namespaceId ∧ row'.targetGenerationId = row.targetGenerationId ∧
      row'.placementPartition = row.placementPartition ∧
      row'.workloadDigest = row.workloadDigest := by
  have hidentity := h.identity
  have hplacement := h.placement
  simp only [JobRow.identity, JobRow.placement, JobIdentity.mk.injEq, JobPlacement.mk.injEq]
    at hidentity hplacement
  exact ⟨hidentity.1, hidentity.2.2.2.1, hplacement.2.1, hplacement.2.2.2.1⟩

structure RunIdentity where
  namespaceId : Id
  jobId : Id
  deriving DecidableEq

def RunRow.identity (row : RunRow) : RunIdentity := ⟨row.namespaceId, row.jobId⟩

/-- A target that takes work. -/
def Db.ActiveTarget (db : Db) (targetId : Id) : Prop :=
  ∃ target, db.targets.get? targetId = some target ∧ target.state = .active

def Db.HasCollection (namespaceId collectionId : Id) (db : Db) : Prop :=
  ∃ collection, db.collections.get? collectionId = some collection ∧
    collection.namespaceId = namespaceId

def Db.HasGraph (namespaceId graphId : Id) (db : Db) : Prop :=
  ∃ graph, db.graphs.get? graphId = some graph ∧ graph.namespaceId = namespaceId

/-- A job that may be admitted: its target is active, and its group is there. -/
structure JobRow.Admissible (row : JobRow) (db : Db) : Prop where
  target : db.ActiveTarget row.targetId
  collection : ∀ c, row.grouping.collectionId = some c → db.HasCollection row.namespaceId c
  graph : ∀ g, row.grouping.graphId = some g → db.HasGraph row.namespaceId g

/-- A generation that meets the requirements of a submission. -/
structure GenerationRow.Meets (generation : GenerationRow) (submission : JobSubmission) : Prop where
  runtime : submission.runtimeKind ∈ generation.runtimes
  operatingSystems : containsAll generation.operatingSystems submission.operatingSystems = true
  architectures : containsAll generation.architectures submission.architectures = true
  capabilities : containsAll generation.capabilities submission.capabilities = true

def Db.HasPartition (db : Db) (generationId : Id) (name : String) : Prop :=
  ∃ p partition, db.partitions.get? p = some partition ∧
    partition.targetGenerationId = generationId ∧ partition.name = name

structure ResolvedPlacement.Found (placement : ResolvedPlacement) (submission : JobSubmission)
    (db : Db) : Prop where
  target : db.ActiveTarget placement.targetId
  generation : ∃ generation, db.generations.get? placement.targetGenerationId = some generation ∧
    generation.executionBackend = placement.executionBackend ∧ generation.Meets submission
  partition : placement.partition ≠ "" →
    db.HasPartition placement.targetGenerationId placement.partition

theorem ResolvedPlacement.Found.congr {placement : ResolvedPlacement} {db db' : Db}
    (h : placement.Found submission db) (hsame : db'.catalog = db.catalog) :
    placement.Found submission db' := by
  simp only [Db.catalog, Prod.mk.injEq] at hsame
  obtain ⟨-, htargets, hgenerations, hpartitions, -⟩ := hsame
  refine ⟨?_, ?_, ?_⟩
  · unfold Db.ActiveTarget
    rw [htargets]
    exact h.target
  · rw [hgenerations]
    exact h.generation
  · unfold Db.HasPartition
    rw [hpartitions]
    exact h.partition

/-- A job that stands where its submission may be placed. -/
structure JobRow.Placed (row : JobRow) (codec : Codec) (submission : JobSubmission) (db : Db) :
    Prop where
  workload : ∃ stored, db.workloads.get? (row.namespaceId, row.workloadDigest) = some stored ∧
    (stored.document = submission.workloadDocument ∨
      codec.sameDocument stored.document submission.workloadDocument = true)
  generation : ∃ generation, db.generations.get? row.targetGenerationId = some generation ∧
    generation.Meets submission
  partition : ∀ name, row.placementPartition = some name →
    db.HasPartition row.targetGenerationId name

/-- A job that is admitted for one of the submissions that were asked for. -/
structure JobRow.Admitted (row : JobRow) (codec : Codec) (asked : JobSubmission → Grouping → Prop)
    (db : Db) : Prop extends JobRow.Admissible row db where
  placed : ∃ submission, asked submission row.grouping ∧ row.Placed codec submission db

def Db.HasJob (db : Db) (jobId namespaceId : Id) : Prop :=
  ∃ job, db.jobs.get? jobId = some job ∧ job.namespaceId = namespaceId

/-- An execution that was just dispatched. -/
structure ExecutionRow.Fresh (row : ExecutionRow) : Prop where
  planned : row.progress = .live .planned
  unreported : row.lastEventSequence = 0
  current : row.confidence = .current

/-- An execution that may be dispatched: to an agent of its active target. -/
structure ExecutionRow.Dispatched (row : ExecutionRow) (db : Db) : Prop extends
    ExecutionRow.Fresh row where
  run : ∃ run, db.runs.get? row.runId = some run ∧ run.namespaceId = row.namespaceId
  agent : ∃ agent, db.agents.get? row.agentId = some agent ∧ agent.namespaceId = row.namespaceId ∧
    agent.targetId = row.targetId ∧ agent.targetGenerationId = row.targetGenerationId
  target : db.ActiveTarget row.targetId

/-- An assignment that may be offered: to the agent of its execution. -/
structure AssignmentRow.Offers (row : AssignmentRow) (db : Db) : Prop where
  offered : row.state = .offered
  execution : ∃ execution, db.executions.get? row.executionId = some execution ∧
    execution.namespaceId = row.namespaceId ∧ execution.agentId = row.agentId ∧
    db.ActiveTarget execution.targetId

/-- What one statement, other than the report of an agent, does to an execution. -/
inductive ExecutionRow.Follows : ExecutionRow → ExecutionRow → Prop
  | same (row : ExecutionRow) : Follows row row
  | withdrawn (row : ExecutionRow) : Follows row
      { row with
        progress := .terminal ⟨.cancelled, .cancelledBeforeLaunch⟩
        revision := row.revision + 1 }
  | accepted (row : ExecutionRow) (revision : Nat) (now : Time) : row.progress = .live .planned →
      Follows row
        { row with progress := .live .accepted, revision := revision, acceptedAt := some now }
  | stale (row : ExecutionRow) : row.confidence = .current → row.progress ≠ .live .planned →
      Follows row { row with confidence := .stale, revision := row.revision + 1 }

/-- What one statement does to an assignment. -/
inductive AssignmentRow.Follows : AssignmentRow → AssignmentRow → Prop
  | same (row : AssignmentRow) : Follows row row
  | withdrawn (row : AssignmentRow) : row.state = .offered →
      Follows row { row with state := .withdrawn }
  | accepted (row : AssignmentRow) (now : Time) (digest document : String) : row.state = .offered →
      Follows row { row with state := .accepted now digest document }

theorem importTerminal_keeps (env : Env) (request : CompletedHistoryImport) (job : JobRow) :
    job.Keeps (importTerminal env request job) := by
  unfold importTerminal
  split <;> exact ⟨rfl, rfl⟩

/-- A statement rewrites rows it finds, each as it rewrites rows, and adds none. -/
structure RowsUpdate {ρ : Type} (follows : ρ → ρ → Prop) (t t' : Table Id ρ) : Prop where
  kept : ∀ id row, t.get? id = some row → ∃ row', t'.get? id = some row' ∧ follows row row'
  absent : ∀ id, t.get? id = none → t'.get? id = none

/-- A preorder kept by the statements on rows that are there. -/
structure WorkFootprint (codec : Codec) (env : Env) (R : Db → Db → Prop) : Prop where
  refl : ∀ db, R db db
  trans : ∀ {a b c : Db}, R a b → R b c → R a c
  updateJob : ∀ {db db' : Db} {id : Id} {f : JobRow → Except StoreError JobRow},
    (∀ job job', f job = .ok job' → job.Keeps job') →
    db.updateJob codec env id f = .ok db' → R db db'
  updateRun : ∀ {db db' : Db} {id : Id} {f : RunRow → Except StoreError RunRow},
    (∀ run run', f run = .ok run' → run'.identity = run.identity) →
    db.updateRun id f = .ok db' → R db db'
  insertOutbox : ∀ {db db' : Db} {id namespaceId : Id} {message : OutboxMessage},
    db.insertOutbox env id namespaceId message = .ok db' →
    (∀ transition, message ≠ .jobTerminal transition) → R db db'
  touchCollection : ∀ (db : Db) (id : Id),
    R db { db with collections := db.collections.modify id (CollectionRow.touch env) }
  touchGraph : ∀ (db : Db) (id : Id),
    R db { db with graphs := db.graphs.modify id (GraphRow.touch env) }
  updateExecutions : ∀ {db : Db} {t : Table Id ExecutionRow},
    RowsUpdate ExecutionRow.Follows db.executions t → R db { db with executions := t }
  updateAssignments : ∀ {db : Db} {t : Table Id AssignmentRow},
    RowsUpdate AssignmentRow.Follows db.assignments t → R db { db with assignments := t }
  elsewhere : ∀ {db db' : Db}, db'.watched = db.watched → R db db'

/-- A footprint that the statements of an admission keep as well. -/
structure AdmissionFootprint (codec : Codec) (env : Env) (asked : JobSubmission → Grouping → Prop)
    (R : Db → Db → Prop) : Prop extends WorkFootprint codec env R where
  insertWorkload : ∀ {db : Db} {key : Id × String} {row : WorkloadRow}
    {t : Table (Id × String) WorkloadRow},
    db.workloads.insert? key row = some t → R db { db with workloads := t }
  insertCollection : ∀ {db : Db} {id : Id} {row : CollectionRow} {t : Table Id CollectionRow},
    db.collections.insert? id row = some t → R db { db with collections := t }
  insertGraph : ∀ {db : Db} {id : Id} {row : GraphRow} {t : Table Id GraphRow},
    db.graphs.insert? id row = some t → R db { db with graphs := t }
  insertJob : ∀ {db : Db} {id : Id} {row : JobRow} {t : Table Id JobRow},
    db.jobs.get? id = none → (∀ k, t.get? k = if k = id then some row else db.jobs.get? k) →
    row.Admitted codec asked db → R db { db with jobs := t }
  insertItem : ∀ {db : Db} {c : Id} {i : Nat} {submission : JobSubmission} {row : MemberRow}
    {t : Table (Id × Nat) MemberRow}, asked submission (.collection c i) →
    db.collectionItems.insert? (c, i) row = some t → R db { db with collectionItems := t }
  insertNode : ∀ {db : Db} {g : Id} {i : Nat} {submission : JobSubmission} {row : MemberRow}
    {t : Table (Id × Nat) MemberRow}, asked submission (.graph g i none) →
    (∃ job, db.jobs.get? row.jobId = some job) →
    db.graphNodes.insert? (g, i) row = some t → R db { db with graphNodes := t }

/-- A footprint that the statements of a dispatch keep as well. -/
structure DispatchFootprint (codec : Codec) (env : Env) (R : Db → Db → Prop) : Prop
    extends WorkFootprint codec env R where
  insertRun : ∀ {db : Db} {id : Id} {row : RunRow} {t : Table Id RunRow},
    db.runs.insert? id row = some t → db.HasJob row.jobId row.namespaceId →
    R db { db with runs := t }
  insertExecution : ∀ {db : Db} {id : Id} {row : ExecutionRow} {t : Table Id ExecutionRow},
    db.executions.insert? id row = some t → row.Dispatched db → R db { db with executions := t }
  insertAssignment : ∀ {db : Db} {id : Id} {row : AssignmentRow} {t : Table Id AssignmentRow},
    db.assignments.insert? id row = some t → row.Offers db → R db { db with assignments := t }
  touchPolicy : ∀ (db : Db) (id : Id), R db { db with
    policies := db.policies.modify id fun policy =>
      { policy with lastDispatchedAt := some env.now } }

/-- A footprint that the statements of a report keep as well. -/
structure ReportFootprint (codec : Codec) (env : Env) (R : Db → Db → Prop) : Prop
    extends WorkFootprint codec env R where
  writeEvents : ∀ {db : Db} {t : Table Id ExecutionEventRow}, R db { db with events := t }
  writeArtifacts : ∀ {db : Db} {t : Table (Id × String) ArtifactRow},
    R db { db with artifacts := t }
  reportExecution : ∀ {db : Db} {t : Table Id ExecutionRow},
    (∀ id, (t.get? id).map ExecutionRow.columns =
      (db.executions.get? id).map ExecutionRow.columns) → R db { db with executions := t }

section RowsUpdate

variable {ρ : Type} {follows : ρ → ρ → Prop} {t t' : Table Id ρ}

theorem rowsUpdate_of_map {f : Id → ρ → ρ}
    (hget : ∀ k, t'.get? k = (t.get? k).map (f k))
    (hf : ∀ k row, t.get? k = some row → follows row (f k row)) :
    RowsUpdate follows t t' := by
  constructor
  · intro k old hold
    refine ⟨f k old, ?_, hf k old hold⟩
    rw [hget, hold]
    rfl
  · intro k hnone
    rw [hget, hnone]
    rfl

theorem rowsUpdate_modify {f : ρ → ρ} (hsame : ∀ row, follows row row)
    (hf : ∀ row, t.get? id = some row → follows row (f row)) :
    RowsUpdate follows t (t.modify id f) := by
  refine rowsUpdate_of_map (f := fun k row => if k = id then f row else row) ?_ ?_
  · intro k
    rw [Table.get?_modify]
    split
    · rfl
    · rw [Option.map_id']
  · intro k row hrow
    split
    · rename_i hk
      exact hf row (hk ▸ hrow)
    · exact hsame row

end RowsUpdate

variable {R : Db → Db → Prop} {db db' : Db} {placement : ResolvedPlacement}
  {identity : AgentIdentity}

/-- What a transaction under an idempotency key did. It either answered from a completed
record and wrote nothing, or it reserved the key, completed it with its resource, and
wrote what else it writes before and after that. -/
inductive Keyed (R : Db → Db → Prop) (env : Env) (granted : Authorization)
    (operation : IdempotentOperation) (type : ResourceType) (status : Nat) (key digest : String)
    (resource : Id) : Bool → Db → Db → Prop
  | replay {db db' : Db} : reserveIdempotency db granted operation type key digest status =
      .ok (some resource, db') →
      Keyed R env granted operation type status key digest resource true db db'
  | perform {db db₁ db₂ db₃ db' : Db} :
      reserveIdempotency db granted operation type key digest status = .ok (none, db₁) →
      R db₁ db₂ → completeIdempotency env db₂ granted operation key resource status = .ok db₃ →
      R db₃ db' → Keyed R env granted operation type status key digest resource false db db'

section Members

variable {authorization : Authorization} {entry : (JobSubmission × ResolvedPlacement) × Nat}

theorem resolvePartition_found {generationId : Id} {requested partition : String}
    (h : resolvePartition db generationId requested = .ok partition) (hsome : partition ≠ "") :
    db.HasPartition generationId partition := by
  unfold resolvePartition at h
  split at h
  · simp only [bind_ok_iff, need_ok_iff, pure_ok_iff] at h
    obtain ⟨row, hrow, rfl⟩ := h
    obtain ⟨hget, hpartition⟩ := (Table.mem_select _ _ _ _).mp (List.mem_of_head? hrow)
    simp only [Bool.and_eq_true, decide_eq_true_eq] at hpartition
    exact ⟨row.1, row.2, hget, hpartition.1.1, rfl⟩
  · split at h
    · rename_i row hrow
      cases h
      obtain ⟨hget, hpartition⟩ := (Table.mem_select _ _ _ _).mp (List.mem_of_head? hrow)
      simp only [Bool.and_eq_true, decide_eq_true_eq] at hpartition
      exact ⟨row.1, row.2, hget, hpartition.1.1, rfl⟩
    · cases h
      exact absurd rfl hsome

theorem resolveTarget_found (h : resolveTarget db namespaceId submission = .ok placement) :
    placement.Found submission db := by
  simp only [resolveTarget, bind_ok_iff, need_ok_iff, ensure_ok_iff, pure_ok_iff,
    List.contains_iff_mem] at h
  obtain ⟨target, htarget, g, -, generation, hgeneration, _, hactive, -, ⟨hr, hos, ha, hc⟩, _, -, _,
    -, _, hpartition, rfl⟩ := h
  exact ⟨⟨target.2, ((Table.mem_select _ _ _ _).mp (List.mem_of_head? htarget)).1, hactive⟩,
    ⟨generation, hgeneration, rfl, hr, hos, ha, hc⟩, resolvePartition_found hpartition⟩

theorem placements_found {placements : List ResolvedPlacement}
    (h : items.mapM (resolveTarget db namespaceId) = .ok placements) {i : Nat}
    (hmem : ((item, placement), i) ∈ (items.zip placements).zipIdx) :
    items[i]? = some item ∧ placement.Found item db := by
  obtain ⟨hi, hplacement⟩ := mapM_ok_zipIdx _ h hmem
  exact ⟨hi, resolveTarget_found hplacement⟩

theorem insertWorkloadRevision_stored
    (h : insertWorkloadRevision codec db authorization submission = .ok db') :
    ∃ stored, db'.workloads.get? (authorization.namespaceId, submission.workloadDigest) =
      some stored ∧ (stored.document = submission.workloadDocument ∨
        codec.sameDocument stored.document submission.workloadDocument = true) := by
  unfold insertWorkloadRevision at h
  dsimp only at h
  split at h
  · rename_i workloads hinsert
    cases h
    exact ⟨_, (Table.get?_insert hinsert _).trans (if_pos rfl), Or.inl rfl⟩
  · simp only [bind_ok_iff, need_ok_iff, ensure_ok_iff, pure_ok_iff] at h
    obtain ⟨stored, hstored, -, hsame, rfl⟩ := h
    exact ⟨stored, hstored, Or.inr hsame⟩

theorem newJobRow_placed (hfound : placement.Found submission db)
    (hstored : ∃ stored, db.workloads.get? (authorization.namespaceId, submission.workloadDigest) =
      some stored ∧ (stored.document = submission.workloadDocument ∨
        codec.sameDocument stored.document submission.workloadDocument = true)) :
    ({ newJobRow env authorization submission placement with grouping := grouping } :
      JobRow).Placed codec submission db := by
  obtain ⟨generation, hgeneration, -, hmeets⟩ := hfound.generation
  refine ⟨hstored, ⟨generation, hgeneration, hmeets⟩, fun name hname => ?_⟩
  simp only [newJobRow, Option.ite_none_left_eq_some, Option.some.injEq] at hname
  obtain ⟨hsome, rfl⟩ := hname
  exact hfound.partition hsome

theorem insertBoundJob_writes
    (h : insertBoundJob codec env authorization jobId item placement grouping db = .ok db') :
    ∃ workloads jobs, db' = { db with workloads := workloads, jobs := jobs } := by
  simp only [insertBoundJob, insertJob, bind_ok_iff, pure_ok_iff] at h
  obtain ⟨_, hworkload, _, ⟨jobs, -, rfl⟩, rfl⟩ := h
  obtain ⟨workloads, rfl⟩ := insertWorkloadRevision_ok hworkload
  exact ⟨workloads, _, rfl⟩

theorem insertBoundJob_row
    (h : insertBoundJob codec env authorization jobId item placement grouping db = .ok db') :
    ∃ row, db'.jobs.get? jobId = some row := by
  simp only [insertBoundJob, insertJob, bind_ok_iff, need_ok_iff, pure_ok_iff] at h
  obtain ⟨_, -, _, ⟨jobs, hinsert, rfl⟩, rfl⟩ := h
  exact ⟨_, by rw [Table.get?_modify, if_pos rfl, Table.get?_insert hinsert, if_pos rfl]; rfl⟩

theorem insertAcceptanceEvidence_writes
    (h : insertAcceptanceEvidence env db authorization idempotencyKey outboxId jobId requestDigest =
      .ok db') : ∃ audit outbox, db' = { db with audit := audit, outbox := outbox } := by
  obtain ⟨outbox, rfl⟩ := insertOutbox_ok h
  exact ⟨_, outbox, rfl⟩

theorem insertCollectionItem_writes
    (h : insertCollectionItem codec env authorization idempotencyKey ids db entry = .ok db') :
    ∃ workloads jobs items audit outbox, db' = { db with
      workloads := workloads, jobs := jobs, collectionItems := items, audit := audit
      outbox := outbox } := by
  simp only [insertCollectionItem, bind_ok_iff] at h
  obtain ⟨_, hjob, items, -, hevidence⟩ := h
  obtain ⟨workloads, jobs, rfl⟩ := insertBoundJob_writes hjob
  obtain ⟨audit, outbox, rfl⟩ := insertAcceptanceEvidence_writes hevidence
  exact ⟨workloads, jobs, items, audit, outbox, rfl⟩

theorem insertGraphNode_writes
    (h : insertGraphNode codec env authorization idempotencyKey ids db entry = .ok db') :
    ∃ workloads jobs nodes audit outbox, db' = { db with
      workloads := workloads, jobs := jobs, graphNodes := nodes, audit := audit
      outbox := outbox } := by
  simp only [insertGraphNode, bind_ok_iff] at h
  obtain ⟨_, hjob, nodes, -, hevidence⟩ := h
  obtain ⟨workloads, jobs, rfl⟩ := insertBoundJob_writes hjob
  obtain ⟨audit, outbox, rfl⟩ := insertAcceptanceEvidence_writes hevidence
  exact ⟨workloads, jobs, nodes, audit, outbox, rfl⟩

end Members

namespace WorkFootprint

variable (F : WorkFootprint codec env R)

include F

theorem rewriteJob {g : JobRow → JobRow}
    (h : db.updateJob codec env id (fun job => .ok (g job)) = .ok db')
    (hg : ∀ job : JobRow, job.Keeps (g job)) : R db db' := by
  refine F.updateJob ?_ h
  intro job job' hjob
  cases hjob
  exact hg job

theorem rewriteRun {g : RunRow → RunRow} (h : db.updateRun id (fun run => .ok (g run)) = .ok db')
    (hg : ∀ run, (g run).identity = run.identity) : R db db' := by
  refine F.updateRun ?_ h
  intro run run' hrun
  cases hrun
  exact hg run

/-- A conditional `UPDATE executions`. -/
theorem updateExecution {g : ExecutionRow → ExecutionRow}
    (hg : ∀ row, db.executions.get? id = some row → row.Follows (g row))
    (h : db.updateExecution id (fun row => .ok (g row)) = .ok db') : R db db' := by
  unfold Db.updateExecution at h
  split at h
  · cases h
    exact F.refl db
  · rename_i old hold
    simp only [bind_ok_iff, pure_ok_iff] at h
    obtain ⟨_, hok, rfl⟩ := h
    cases hok
    refine F.updateExecutions (rowsUpdate_modify .same ?_)
    intro row hrow
    cases hold.symm.trans hrow
    exact hg old hold

theorem foldlM {γ : Type} {f : Db → γ → Except StoreError Db} {l : List γ}
    (hf : ∀ {d x d'}, f d x = .ok d' → R d d') (h : l.foldlM f db = .ok db') : R db db' :=
  foldlM_ok_induction (P := R db) l (fun _ _ _ _ hd hx => F.trans hd (hf hx)) (F.refl db) h

/-! Cancelling, and what a completion does to its group. -/

theorem withdrawAssignment (executionId : Id) (db : Db) :
    R db (withdrawAssignment executionId db) := by
  refine F.updateAssignments (rowsUpdate_of_map (fun k => Table.get?_updateWhere _ _ _ k) ?_)
  intro k row _
  split
  · rename_i hoffered
    simp only [Bool.and_eq_true, decide_eq_true_eq] at hoffered
    exact .withdrawn row hoffered.2
  · exact .same row

theorem withdrawPlanned (h : withdrawPlanned codec env jobId sibling db = .ok db') : R db db' := by
  simp only [JobmanControl.withdrawPlanned, bind_ok_iff] at h
  obtain ⟨_, hexecution, _, hrun, hjob⟩ := h
  exact F.trans (F.trans (F.trans (F.withdrawAssignment _ db)
    (F.updateExecution (fun row _ => .withdrawn row) hexecution)) (F.rewriteRun hrun fun _ => rfl))
    (F.rewriteJob hjob fun _ => ⟨rfl, rfl⟩)

theorem requestCancellation
    (h : requestCancellation codec env namespaceId jobId sibling db = .ok db') : R db db' := by
  simp only [JobmanControl.requestCancellation, bind_ok_iff] at h
  obtain ⟨_, haction, _, hrun, hjob⟩ := h
  refine F.trans (F.trans ?_ (F.rewriteRun hrun fun _ => rfl))
    (F.rewriteJob hjob fun _ => ⟨rfl, rfl⟩)
  unfold insertCancelAction at haction
  split at haction
  · cases haction
    exact F.refl db
  · simp only [bind_ok_iff, pure_ok_iff] at haction
    obtain ⟨_, -, rfl⟩ := haction
    exact F.elsewhere rfl

theorem cancelCollectionSibling {sibling : CollectionSibling}
    (h : cancelCollectionSibling codec env namespaceId db sibling = .ok db') : R db db' := by
  unfold JobmanControl.cancelCollectionSibling at h
  split at h
  · exact F.rewriteJob h fun _ => ⟨rfl, rfl⟩
  · split at h
    · exact F.withdrawPlanned h
    · exact F.requestCancellation h

theorem applyCollectionCompletion {completedJobId : Id} {outcome : Outcome}
    (h : applyCollectionCompletion codec env view namespaceId completedJobId outcome db =
      .ok db') : R db db' := by
  unfold JobmanControl.applyCollectionCompletion at h
  split at h
  · cases h
    exact F.refl db
  split at h
  · cases h
    exact F.refl db
  split at h
  · cases h
    exact F.refl db
  split at h
  · cases h
    exact F.refl db
  split at h
  · simp only [bind_ok_iff, pure_ok_iff] at h
    obtain ⟨_, hsiblings, rfl⟩ := h
    exact F.trans (F.foldlM F.cancelCollectionSibling hsiblings) (F.touchCollection _ _)
  · cases h
    exact F.touchCollection _ _

theorem disposeNode (h : disposeNode codec env namespaceId policy jobId db = .ok db') :
    R db db' := by
  simp only [JobmanControl.disposeNode, bind_ok_iff, pure_ok_iff] at h
  obtain ⟨_, hjob, rfl⟩ := h
  refine F.trans (F.updateJob ?_ hjob) (F.elsewhere rfl)
  intro job job' hdisposed
  simp only [bind_ok_iff, pure_ok_iff] at hdisposed
  obtain ⟨grouping, hgrouping, rfl⟩ := hdisposed
  cases hgroup : job.grouping with
  | standalone | collection _ _ =>
      rw [hgroup] at hgrouping
      cases hgrouping
  | graph _ _ _ =>
      rw [hgroup] at hgrouping
      cases hgrouping
      constructor <;> simp [JobRow.identity, JobRow.placement, hgroup, Grouping.collectionId,
        Grouping.collectionIndex, Grouping.graphId]

theorem propagate {locked : Id → Bool} {graphId : Id} {fuel : Nat}
    (h : propagate codec env locked namespaceId graphId policy fuel db = .ok db') : R db db' := by
  induction fuel generalizing db with
  | zero =>
      cases h
      exact F.refl _
  | succ fuel ih =>
      unfold JobmanControl.propagate at h
      split at h
      · cases h
        exact F.refl _
      · obtain ⟨_, hnode, hrest⟩ := (bind_ok_iff _ _ _).mp h
        exact F.trans (F.disposeNode hnode) (ih hrest)

theorem applyGraphCompletion {completedJobId : Id}
    (h : applyGraphCompletion codec env view namespaceId completedJobId db = .ok db') :
    R db db' := by
  unfold JobmanControl.applyGraphCompletion at h
  split at h
  · cases h
    exact F.refl db
  split at h
  · cases h
    exact F.refl db
  split at h
  · cases h
    exact F.refl db
  split at h
  · cases h
    exact F.refl db
  simp only [bind_ok_iff, pure_ok_iff] at h
  obtain ⟨_, hloop, rfl⟩ := h
  exact F.trans (F.propagate hloop) (F.touchGraph _ _)

theorem cancelJobExecution (h : cancelJobExecution codec env namespaceId jobId db = .ok db') :
    R db db' := by
  unfold JobmanControl.cancelJobExecution at h
  split at h
  · exact F.rewriteJob h fun _ => ⟨rfl, rfl⟩
  · dsimp only at h
    split at h
    · exact F.withdrawPlanned h
    · exact F.requestCancellation h

theorem auditedOutbox {row : AuditRow} {message : OutboxMessage}
    (h : (db.appendAudit row).insertOutbox env id namespaceId message = .ok db')
    (hmessage : ∀ transition, message ≠ .jobTerminal transition) : R db db' := by
  refine F.trans ?_ (F.insertOutbox h hmessage)
  exact F.elsewhere rfl

theorem insertAcceptanceEvidence {authorization : Authorization}
    (h : insertAcceptanceEvidence env db authorization idempotencyKey outboxId jobId
      requestDigest = .ok db') : R db db' :=
  F.auditedOutbox h fun _ heq => by cases heq

/-! Accepting and reporting. -/

theorem assignJob (h : assignJob codec env db jobId = .ok db') :
    R db db' := by
  simp only [JobmanControl.assignJob, bind_ok_iff] at h
  obtain ⟨-, -, -, -, hjob⟩ := h
  exact F.rewriteJob hjob fun _ => ⟨rfl, rfl⟩

theorem advanceAccepted {bundle : AssignmentBundle}
    (h : advanceAccepted codec env acceptance bundle db = .ok db') : R db db' := by
  simp only [JobmanControl.advanceAccepted, bind_ok_iff] at h
  obtain ⟨_, hexecution, _, hrun, hjob⟩ := h
  have haccept : R db _ := F.updateAssignments (t := db.assignments.modify acceptance.deliveryId
    fun row => if row.state = .offered then
      { row with state := .accepted env.now acceptance.requestDigest acceptance.requestDocument }
    else row) (rowsUpdate_modify .same (by
      intro row _
      split
      · rename_i hoffered
        exact .accepted row _ _ _ hoffered
      · exact .same row))
  refine F.trans (F.trans (F.trans haccept (F.updateExecution ?_ hexecution))
    (F.rewriteRun hrun ?_)) (F.rewriteJob hjob ?_)
  · intro row _
    split
    · rename_i hplanned
      exact .accepted row _ _ hplanned
    · exact .same row
  · intro run
    split <;> rfl
  · intro job
    split <;> exact ⟨rfl, rfl⟩

theorem completeGroup (h : completeGroup codec env view namespaceId jobId event db = .ok db') :
    R db db' := by
  unfold JobmanControl.completeGroup at h
  split at h
  · simp only [bind_ok_iff] at h
    obtain ⟨_, -, _, hcollection, hgraph⟩ := h
    exact F.trans (F.applyCollectionCompletion hcollection) (F.applyGraphCompletion hgraph)
  · cases h
    exact F.refl db

/-! The cancellations. -/

variable {authorization : Except StoreError Authorization}

theorem cancelJob {job : Job} (h : cancelJob codec env view authorization jobId key digest db =
      .ok (job, db')) : ∃ granted, authorization = .ok granted ∧
      ∃ replayed, Keyed R env granted .jobsCancel .job 200 key digest jobId replayed db db' := by
  simp only [JobmanControl.cancelJob, bind_ok_iff, Prod.exists] at h
  obtain ⟨granted, rfl, _, -, -, -, -, -, _, db₁, hreserve, h⟩ := h
  refine ⟨granted, rfl, ?_⟩
  split at h
  · simp only [bind_ok_iff, ensure_ok_iff, pure_ok_iff, Prod.mk.injEq] at h
    obtain ⟨-, rfl, _, -, -, rfl⟩ := h
    exact ⟨true, .replay hreserve⟩
  refine ⟨false, ?_⟩
  split at h
  · simp only [bind_ok_iff, pure_ok_iff, Prod.mk.injEq] at h
    obtain ⟨_, hcomplete, _, -, -, rfl⟩ := h
    exact .perform hreserve (F.refl _) hcomplete (F.refl _)
  · simp only [bind_ok_iff] at h
    obtain ⟨_, hcancel, _, hcomplete, _, -, h⟩ := h
    refine .perform hreserve (F.cancelJobExecution hcancel) hcomplete ?_
    split at h
    · simp only [bind_ok_iff, pure_ok_iff, Prod.mk.injEq] at h
      obtain ⟨_, hgraph, -, rfl⟩ := h
      exact F.applyGraphCompletion hgraph
    · cases h
      exact F.refl _

theorem cancelGraph {graphId : Id} {graph : Graph}
    (h : cancelGraph codec env view authorization graphId key digest db = .ok (graph, db')) :
    ∃ granted, authorization = .ok granted ∧
      ∃ replayed,
        Keyed R env granted .graphsCancel .graph 200 key digest graphId replayed db db' := by
  simp only [JobmanControl.cancelGraph, bind_ok_iff, Prod.exists] at h
  obtain ⟨granted, rfl, _, -, -, -, -, -, _, db₁, hreserve, h⟩ := h
  refine ⟨granted, rfl, ?_⟩
  split at h
  · simp only [bind_ok_iff, ensure_ok_iff, pure_ok_iff, Prod.mk.injEq] at h
    obtain ⟨-, rfl, _, -, -, rfl⟩ := h
    exact ⟨true, .replay hreserve⟩
  · simp only [bind_ok_iff, pure_ok_iff, Prod.mk.injEq] at h
    obtain ⟨_, hnodes, _, hcomplete, _, -, -, rfl⟩ := h
    have htouched := F.trans (F.foldlM F.cancelCollectionSibling hnodes) (F.touchGraph _ graphId)
    refine ⟨false, .perform hreserve (F.trans htouched ?_) hcomplete (F.refl _)⟩
    exact F.elsewhere rfl

end WorkFootprint

theorem DispatchFootprint.offerAssignment (F : DispatchFootprint codec env R) {ids : DispatchIds}
    {candidate : AssignmentCandidate} (hclaimed : candidate.Claimed db)
    (h : offerAssignment codec env ids candidate db = .ok db') : R db db' := by
  simp only [JobmanControl.offerAssignment, JobmanControl.insertRun, JobmanControl.insertExecution,
    JobmanControl.insertAssignment, bind_ok_iff, need_ok_iff, pure_ok_iff] at h
  obtain ⟨⟨document, digest⟩, -, _, ⟨-, -, runs, hrun, rfl⟩, _, ⟨-, -, executions, hexecution, rfl⟩,
    _, ⟨-, -, assignments, hassignment, rfl⟩, _, hjob, houtbox⟩ := h
  obtain ⟨job, hrow, hns, -⟩ := hclaimed.job
  have hrunRow := (Table.get?_insert hrun ids.runId).trans (if_pos rfl)
  have hexecutionRow := (Table.get?_insert hexecution ids.executionId).trans (if_pos rfl)
  have hrows := F.trans
    (F.trans (F.insertRun hrun ⟨job, hrow, hns⟩) (F.insertExecution hexecution
      ⟨⟨rfl, rfl, rfl⟩, ⟨_, hrunRow, rfl⟩, hclaimed.agent, hclaimed.target⟩))
    (F.insertAssignment hassignment ⟨rfl, _, hexecutionRow, rfl, rfl, hclaimed.target⟩)
  exact F.trans (F.trans (F.trans hrows (F.assignJob hjob)) (F.touchPolicy _ _))
    (F.auditedOutbox houtbox fun _ heq => by cases heq)

namespace AdmissionFootprint

variable {authorization : Authorization}

variable (F : AdmissionFootprint codec env asked R)

include F

theorem insertWorkloadRevision
    (h : insertWorkloadRevision codec db authorization submission = .ok db') : R db db' := by
  unfold JobmanControl.insertWorkloadRevision at h
  dsimp only at h
  split at h
  · rename_i workloads hinsert
    cases h
    exact F.insertWorkload hinsert
  · simp only [bind_ok_iff, pure_ok_iff] at h
    obtain ⟨-, -, -, -, rfl⟩ := h
    exact F.refl db

theorem insertStandaloneJob {db₁ : Db} (hasked : asked submission .standalone)
    (hfound : placement.Found submission db)
    (hworkload : JobmanControl.insertWorkloadRevision codec db authorization submission = .ok db₁)
    (h : JobmanControl.insertJob env db₁ authorization jobId submission placement = .ok db') :
    R db db' := by
  have hstored := insertWorkloadRevision_stored hworkload
  have hworkloads := F.insertWorkloadRevision hworkload
  obtain ⟨workloads, rfl⟩ := insertWorkloadRevision_ok hworkload
  have hfound₁ : placement.Found submission { db with workloads := workloads } := hfound.congr rfl
  simp only [JobmanControl.insertJob, bind_ok_iff, need_ok_iff, pure_ok_iff] at h
  obtain ⟨jobs, hinsert, rfl⟩ := h
  exact F.trans hworkloads (F.insertJob (Table.insert?_free hinsert)
    (fun k => Table.get?_insert hinsert k)
    ⟨⟨hfound₁.target, fun _ hc => (by cases hc), fun _ hg => (by cases hg)⟩,
      submission, hasked, newJobRow_placed hfound₁ hstored⟩)

/-- A member of a group is one new row, bound to the group. -/
theorem insertBoundJob (hasked : asked item grouping) (hfound : placement.Found item db)
    (hbound : (({ newJobRow env authorization item placement with grouping := grouping } :
      JobRow)).Admissible db)
    (h : insertBoundJob codec env authorization jobId item placement grouping db = .ok db') :
    R db db' := by
  simp only [JobmanControl.insertBoundJob, JobmanControl.insertJob, bind_ok_iff, need_ok_iff,
    pure_ok_iff] at h
  obtain ⟨db₁, hworkload, _, ⟨jobs, hinsert, rfl⟩, rfl⟩ := h
  have hstored := insertWorkloadRevision_stored hworkload
  have hworkloads := F.insertWorkloadRevision hworkload
  obtain ⟨workloads, rfl⟩ := insertWorkloadRevision_ok hworkload
  have hfound₁ : placement.Found item { db with workloads := workloads } := hfound.congr rfl
  refine F.trans hworkloads (F.insertJob (Table.insert?_free hinsert) ?_
    ⟨⟨hbound.target, hbound.collection, hbound.graph⟩, item, hasked,
      newJobRow_placed hfound₁ hstored⟩)
  intro k
  rw [Table.get?_modify, Table.get?_insert hinsert]
  split
  · rfl
  · rfl

theorem insertCollectionItem {entry : (JobSubmission × ResolvedPlacement) × Nat}
    (hasked : asked entry.1.1 (.collection ids.groupId entry.2))
    (hfound : entry.1.2.Found entry.1.1 db)
    (hgroup : db.HasCollection authorization.namespaceId ids.groupId)
    (h : insertCollectionItem codec env authorization idempotencyKey ids db entry = .ok db') :
    R db db' := by
  simp only [JobmanControl.insertCollectionItem, bind_ok_iff, need_ok_iff] at h
  obtain ⟨_, hjob, _, hitem, hevidence⟩ := h
  refine F.trans (F.trans (F.insertBoundJob hasked hfound
    ⟨hfound.target, fun c hc => ?_, fun _ hg => by cases hg⟩ hjob) (F.insertItem hasked hitem))
    (F.insertAcceptanceEvidence hevidence)
  cases hc
  exact hgroup

theorem insertGraphNode {entry : (JobSubmission × ResolvedPlacement) × Nat}
    (hasked : asked entry.1.1 (.graph ids.groupId entry.2 none))
    (hfound : entry.1.2.Found entry.1.1 db)
    (hgroup : db.HasGraph authorization.namespaceId ids.groupId)
    (h : insertGraphNode codec env authorization idempotencyKey ids db entry = .ok db') :
    R db db' := by
  simp only [JobmanControl.insertGraphNode, bind_ok_iff, need_ok_iff] at h
  obtain ⟨_, hjob, _, hnode, hevidence⟩ := h
  refine F.trans (F.trans (F.insertBoundJob hasked hfound
    ⟨hfound.target, fun _ hc => (by cases hc), fun g hg => ?_⟩ hjob)
    (F.insertNode hasked (insertBoundJob_row hjob) hnode)) (F.insertAcceptanceEvidence hevidence)
  cases hg
  exact hgroup

theorem insertMembers {f : Db → (JobSubmission × ResolvedPlacement) × Nat → Except StoreError Db}
    (home : Db → Prop) (bind : Nat → Grouping) {placements : List ResolvedPlacement}
    (h : (items.zip placements).zipIdx.foldlM f db = .ok db') (hhome : home db)
    (hasked : ∀ i item, items[i]? = some item → asked item (bind i))
    (hplacements : ∀ item placement i, ((item, placement), i) ∈ (items.zip placements).zipIdx →
      items[i]? = some item ∧ placement.Found item db)
    (hkept : ∀ {d d' entry}, f d entry = .ok d' → d'.catalog = d.catalog ∧ (home d → home d'))
    (hf : ∀ {d d' entry}, asked entry.1.1 (bind entry.2) → entry.1.2.Found entry.1.1 d → home d →
      f d entry = .ok d' → R d d') : R db db' := by
  refine (foldlM_ok_induction (P := fun d => R db d ∧ d.catalog = db.catalog ∧ home d) _ ?_
    ⟨F.refl db, rfl, hhome⟩ h).1
  rintro d ⟨⟨item, placement⟩, i⟩ d' hentry ⟨hd, hcatalog, hhome⟩ hstep
  obtain ⟨hi, hfound⟩ := hplacements item placement i hentry
  obtain ⟨hcatalog', hhome'⟩ := hkept hstep
  exact ⟨F.trans hd (hf (hasked i item hi) (hfound.congr hcatalog) hhome hstep),
    hcatalog'.trans hcatalog, hhome' hhome⟩

theorem insertGraphEdge {nodes : List JobSubmission} {edge : GraphEdgeSubmission}
    (h : insertGraphEdge ids nodes db edge = .ok db') : R db db' := by
  simp only [JobmanControl.insertGraphEdge, bind_ok_iff, pure_ok_iff] at h
  obtain ⟨_, -, _, -, -, -, -, -, _, -, rfl⟩ := h
  exact F.elsewhere rfl

/-! The submissions. -/

variable {authorization : Except StoreError Authorization}

theorem submitJob {result : SubmitResult} (hasked : asked submission .standalone)
    (h : submitJob codec env queued authorization key jobId outboxId submission db =
      .ok (result, db')) : ∃ granted, authorization = .ok granted ∧
      Keyed R env granted .jobsCreate .job 201 key submission.requestDigest result.job.id
        result.replayed db db' := by
  simp only [JobmanControl.submitJob, bind_ok_iff, Prod.exists] at h
  obtain ⟨-, -, -, -, granted, rfl, _, db₁, hreserve, h⟩ := h
  refine ⟨granted, rfl, ?_⟩
  split at h
  · simp only [bind_ok_iff, pure_ok_iff, Prod.mk.injEq] at h
    obtain ⟨job, hjob, rfl, rfl⟩ := h
    cases getJobById_id hjob
    exact .replay hreserve
  · simp only [bind_ok_iff, pure_ok_iff, Prod.mk.injEq] at h
    obtain ⟨-, -, _, hplacement, _, hworkload, _, hjob, _, hget, _, hcomplete, _, hevidence, rfl,
      rfl⟩ := h
    cases getJobById_id hget
    obtain ⟨records, rfl⟩ := reserveIdempotency_ok hreserve
    exact .perform hreserve
      (F.insertStandaloneJob hasked (resolveTarget_found hplacement) hworkload hjob)
      hcomplete (F.insertAcceptanceEvidence hevidence)

theorem submitCollection {submission : CollectionSubmission} {result : CollectionResult}
    (hasked : ∀ i item, submission.items[i]? = some item → asked item (.collection ids.groupId i))
    (h : submitCollection codec env queued authorization key ids submission db =
      .ok (result, db')) : ∃ granted, authorization = .ok granted ∧
      Keyed R env granted .collectionsCreate .collection 201 key submission.requestDigest
        result.collection.id result.replayed db db' := by
  simp only [JobmanControl.submitCollection, bind_ok_iff, Prod.exists] at h
  obtain ⟨-, -, -, -, granted, rfl, _, db₁, hreserve, h⟩ := h
  refine ⟨granted, rfl, ?_⟩
  split at h
  · simp only [bind_ok_iff, pure_ok_iff, Prod.mk.injEq] at h
    obtain ⟨_, hget, rfl, rfl⟩ := h
    cases getCollectionById_id hget
    exact .replay hreserve
  · simp only [bind_ok_iff, need_ok_iff, pure_ok_iff, Prod.mk.injEq] at h
    obtain ⟨-, -, _, hplacements, _, -, _, hcollection, _, hitems, _, hcomplete, _, houtbox, _,
      hget, rfl, rfl⟩ := h
    simp only [getCollectionById_id hget]
    have hhome := (Table.get?_insert hcollection ids.groupId).trans (if_pos rfl)
    have hmembers := F.insertMembers (Db.HasCollection granted.namespaceId ids.groupId)
      (.collection ids.groupId) hitems ⟨_, hhome, rfl⟩ hasked
      (fun _ _ _ hmem => (placements_found hplacements hmem).imp_right fun h => h.congr rfl)
      (fun hstep => by
        obtain ⟨workloads, jobs, items, audit, outbox, rfl⟩ := insertCollectionItem_writes hstep
        exact ⟨rfl, id⟩)
      F.insertCollectionItem
    exact .perform hreserve (F.trans (F.insertCollection hcollection) hmembers) hcomplete
      (F.auditedOutbox houtbox fun _ heq => by cases heq)

theorem submitGraph {submission : GraphSubmission} {result : GraphResult}
    (hasked : ∀ i node, submission.nodes[i]? = some node → asked node (.graph ids.groupId i none))
    (h : submitGraph codec env queued authorization key ids submission db = .ok (result, db')) :
    ∃ granted, authorization = .ok granted ∧
      Keyed R env granted .graphsCreate .graph 201 key submission.requestDigest
        result.graph.id result.replayed db db' := by
  simp only [JobmanControl.submitGraph, bind_ok_iff, Prod.exists] at h
  obtain ⟨-, -, -, -, granted, rfl, _, db₁, hreserve, h⟩ := h
  refine ⟨granted, rfl, ?_⟩
  split at h
  · simp only [bind_ok_iff, pure_ok_iff, Prod.mk.injEq] at h
    obtain ⟨_, hget, rfl, rfl⟩ := h
    cases getGraphById_id hget
    exact .replay hreserve
  · simp only [bind_ok_iff, need_ok_iff, pure_ok_iff, Prod.mk.injEq] at h
    obtain ⟨-, -, _, hplacements, _, hgraph, _, hnodes, _, hedges, _, hcomplete, _, houtbox, _,
      hget, rfl, rfl⟩ := h
    simp only [getGraphById_id hget]
    have hhome := (Table.get?_insert hgraph ids.groupId).trans (if_pos rfl)
    have hjobs := F.insertMembers (Db.HasGraph granted.namespaceId ids.groupId)
      (.graph ids.groupId · none) hnodes ⟨_, hhome, rfl⟩ hasked
      (fun _ _ _ hmem => (placements_found hplacements hmem).imp_right fun h => h.congr rfl)
      (fun hstep => by
        obtain ⟨workloads, jobs, nodes, audit, outbox, rfl⟩ := insertGraphNode_writes hstep
        exact ⟨rfl, id⟩)
      F.insertGraphNode
    have hmembers := F.trans hjobs (F.foldlM F.insertGraphEdge hedges)
    exact .perform hreserve (F.trans (F.insertGraph hgraph) hmembers) hcomplete
      (F.auditedOutbox houtbox fun _ heq => by cases heq)

theorem importCompletedHistory {dryRun : Bool} {request : CompletedHistoryImport}
    {result : HistoryImportResult} (hasked : asked request.job .standalone)
    (h : importCompletedHistory codec env authorization key dryRun jobId outboxId request db =
      .ok (result, db')) : ∃ granted, authorization = .ok granted ∧
      ((dryRun = true ∧ db' = db) ∨ (dryRun = false ∧ ∃ job, result.job = some job ∧
        Keyed R env granted .historyImport .job 201 key request.requestDigest job.id result.replayed
          db db')) := by
  simp only [JobmanControl.importCompletedHistory, bind_ok_iff] at h
  obtain ⟨-, -, -, -, granted, rfl, _, hplacement, h⟩ := h
  refine ⟨granted, rfl, ?_⟩
  split at h
  · rename_i hdry
    cases h
    exact Or.inl ⟨hdry, rfl⟩
  rename_i hdry
  refine Or.inr ⟨Bool.eq_false_of_not_eq_true hdry, ?_⟩
  simp only [bind_ok_iff, Prod.exists] at h
  obtain ⟨_, db₁, hreserve, h⟩ := h
  split at h
  · simp only [bind_ok_iff, pure_ok_iff, Prod.mk.injEq] at h
    obtain ⟨job, hjob, rfl, rfl⟩ := h
    cases getJobById_id hjob
    exact ⟨job, rfl, .replay hreserve⟩
  · simp only [bind_ok_iff, pure_ok_iff, Prod.mk.injEq] at h
    obtain ⟨-, -, _, hworkload, _, hjob, _, hupdate, _, hcomplete, _, houtbox, job, hget, rfl,
      rfl⟩ := h
    cases getJobById_id hget
    have hfound := resolveTarget_found hplacement
    obtain ⟨records, rfl⟩ := reserveIdempotency_ok hreserve
    have hcatalog : { db with idempotency := records }.catalog = db.catalog := rfl
    have hrows := F.insertStandaloneJob hasked (hfound.congr hcatalog) hworkload hjob
    have himported := F.trans hrows (F.rewriteJob hupdate (importTerminal_keeps env request))
    exact ⟨job, rfl, .perform hreserve himported hcomplete
      (F.auditedOutbox houtbox fun _ heq => by cases heq)⟩

end AdmissionFootprint

theorem staleExecution_launched {staleAfter : Nat} {db : Db} {e : Id} {execution row : ExecutionRow}
    {run : RunRow} {agent : AgentRow}
    (h : staleExecution env staleAfter db = some (((e, execution), run), agent))
    (hrow : db.executions.get? e = some row) : row.progress ≠ .live .planned := by
  have hmem := firstBy_mem h
  simp only [List.mem_filterMap, Prod.exists, Table.mem_select] at hmem
  obtain ⟨e', execution', ⟨hexecution, hlive⟩, hjoin⟩ := hmem
  simp only [Option.bind_eq_bind, Option.bind_eq_some_iff] at hjoin
  obtain ⟨_, -, _, -, _, -, heq⟩ := hjoin
  cases heq
  cases hexecution.symm.trans hrow
  intro hplanned
  simp [hplanned] at hlive

namespace ReportFootprint

variable (F : ReportFootprint codec env R)

include F

theorem updateExecution {f : ExecutionRow → Except StoreError ExecutionRow}
    (hf : ∀ row row', f row = .ok row' → row'.columns = row.columns)
    (h : db.updateExecution id f = .ok db') : R db db' := by
  unfold Db.updateExecution at h
  split at h
  · cases h
    exact F.refl db
  · rename_i old hold
    simp only [bind_ok_iff, pure_ok_iff] at h
    obtain ⟨new, hnew, rfl⟩ := h
    refine F.reportExecution fun k => ?_
    rw [Table.get?_modify]
    split
    · rename_i hk
      rw [hk, hold]
      exact congrArg some (hf old new hnew)
    · rfl

theorem insertExecutionEvent (h : insertExecutionEvent env identity event db = .ok db') :
    R db db' := by
  simp only [JobmanControl.insertExecutionEvent, bind_ok_iff, pure_ok_iff] at h
  obtain ⟨-, -, _, -, rfl⟩ := h
  exact F.writeEvents

theorem insertArtifact {artifact : PublishedArtifact}
    (h : insertArtifact identity event db artifact = .ok db') :
    R db db' := by
  simp only [JobmanControl.insertArtifact, bind_ok_iff, pure_ok_iff] at h
  obtain ⟨-, -, -, -, _, -, rfl⟩ := h
  exact F.writeArtifacts

theorem enterJob {name : String} {phase : JobPhase} (h : db.updateJob codec env jobId (fun job => do
      let progress ← job.progress.enter name phase
      pure { job with progress := progress, revision := job.revision + 1, updatedAt := env.now }) =
        .ok db') : R db db' := by
  refine F.updateJob ?_ h
  intro job job' hjob
  simp only [bind_ok_iff, pure_ok_iff] at hjob
  obtain ⟨_, -, rfl⟩ := hjob
  exact ⟨rfl, rfl⟩

theorem enterRunning (h : enterRunning codec env runId jobId db = .ok db') : R db db' := by
  simp only [JobmanControl.enterRunning, bind_ok_iff] at h
  obtain ⟨_, hrun, hjob⟩ := h
  refine F.trans (F.updateRun ?_ hrun) (F.enterJob hjob)
  intro run run' hrun'
  simp only [bind_ok_iff, pure_ok_iff] at hrun'
  obtain ⟨_, -, rfl⟩ := hrun'
  rfl

theorem recordScheduler (h : recordScheduler codec env event runId jobId db = .ok db') :
    R db db' := by
  simp only [JobmanControl.recordScheduler, bind_ok_iff] at h
  obtain ⟨_, -, _, hexecution, h⟩ := h
  refine F.trans (F.updateExecution ?_ hexecution) ?_
  · intro row row' hrow
    split at hrow
    · simp only [bind_ok_iff, pure_ok_iff] at hrow
      obtain ⟨_, -, rfl⟩ := hrow
      rfl
    · cases hrow
      rfl
  · split at h
    · simp only [bind_ok_iff] at h
      obtain ⟨_, hrun, hjob⟩ := h
      refine F.trans (F.rewriteRun hrun ?_) (F.enterJob hjob)
      intro run
      split <;> rfl
    · exact F.rewriteJob h fun _ => ⟨rfl, rfl⟩

theorem recordCompleted {outcome : Outcome}
    (h : recordCompleted codec env event runId jobId outcome db = .ok db') : R db db' := by
  simp only [JobmanControl.recordCompleted, finishWork, bind_ok_iff] at h
  obtain ⟨_, -, _, hexecution, _, hrun, hjob⟩ := h
  refine F.trans (F.trans (F.updateExecution ?_ hexecution) (F.rewriteRun hrun fun _ => rfl))
    (F.rewriteJob hjob fun _ => ⟨rfl, rfl⟩)
  intro row row' hrow
  split at hrow
  · simp only [bind_ok_iff, pure_ok_iff] at hrow
    obtain ⟨_, -, rfl⟩ := hrow
    rfl
  · cases hrow
    rfl

theorem recordTransition (h : recordTransition codec env event runId jobId db = .ok db') :
    R db db' := by
  unfold JobmanControl.recordTransition at h
  split at h
  case h_1 =>
    simp only [recordProcessStarted, bind_ok_iff] at h
    obtain ⟨_, hexecution, hrunning⟩ := h
    refine F.trans (F.updateExecution ?_ hexecution) (F.enterRunning hrunning)
    intro row row' hrow
    simp only [bind_ok_iff, pure_ok_iff] at hrow
    obtain ⟨_, -, rfl⟩ := hrow
    rfl
  case h_2 | h_3 | h_4 => exact F.recordScheduler h
  case h_5 | h_6 =>
    obtain ⟨_, -, hcompleted⟩ := (bind_ok_iff _ _ _).mp h
    exact F.recordCompleted hcompleted

/-- Everything a new report writes before it looks at the group of its execution. -/
theorem beforeGroup {execution : ExecutionRow} {run : RunRow} {generation : GenerationRow}
    {db₁ db₂ db₃ db₄ : Db}
    (h : Recording codec env view identity event execution run generation db db₁ db₂ db₃ db₄ db') :
    R db db₃ := by
  refine F.trans (F.trans (F.insertExecutionEvent h.inserted) ?_) (F.recordTransition h.transition)
  have hpublished := h.published
  split at hpublished
  · exact F.foldlM F.insertArtifact hpublished
  · cases hpublished
    exact F.refl _

theorem recordExecutionEvent {replayed : Bool}
    (h : recordExecutionEvent codec env view identity event db = .ok (replayed, db')) :
    R db db' := by
  obtain ⟨-, rfl, -⟩ | ⟨-, _, _, _, _, _, _, _, hrecording⟩ := recordExecutionEvent_ok h
  · exact F.refl db'
  · exact F.trans (F.trans (F.beforeGroup hrecording) (F.completeGroup hrecording.group))
      (F.updateExecution (fun _ _ hrow => by cases hrow; rfl) hrecording.confidence)

end ReportFootprint

/-- A footprint that the idempotency statements keep as well. -/
structure KeyedFootprint (codec : Codec) (env : Env) (asked : JobSubmission → Grouping → Prop)
    (R : Db → Db → Prop) : Prop extends AdmissionFootprint codec env asked R where
  writeKeys : ∀ {db : Db} {t : Table IdempotencyKey IdempotencyRow},
    R db { db with idempotency := t }

/-- A footprint of every statement but those of a report. -/
structure CallFootprint (codec : Codec) (env : Env) (asked : JobSubmission → Grouping → Prop)
    (R : Db → Db → Prop) : Prop
    extends KeyedFootprint codec env asked R, DispatchFootprint codec env R

namespace KeyedFootprint

variable (F : KeyedFootprint codec env asked R)

include F

theorem keyed {granted : Authorization} {operation : IdempotentOperation} {type : ResourceType}
    {status : Nat} {resource : Id} {replayed : Bool}
    (h : Keyed R env granted operation type status key digest resource replayed db db') :
    R db db' := by
  cases h with
  | replay hreserve =>
      obtain ⟨_, rfl⟩ := reserveIdempotency_ok hreserve
      exact F.writeKeys
  | perform hreserve hbefore hcomplete hafter =>
      obtain ⟨_, rfl⟩ := reserveIdempotency_ok hreserve
      obtain ⟨_, rfl⟩ := completeIdempotency_ok hcomplete
      exact F.trans (F.trans F.writeKeys hbefore) (F.trans F.writeKeys hafter)

theorem acceptAssignment {launch : LaunchAuthorization}
    (h : acceptAssignment codec env identity acceptance db = .ok (launch, db')) : R db db' := by
  simp only [JobmanControl.acceptAssignment, bind_ok_iff] at h
  obtain ⟨_, -, -, -, h⟩ := h
  split at h
  · simp only [bind_ok_iff, pure_ok_iff, Prod.mk.injEq] at h
    obtain ⟨-, -, -, rfl⟩ := h
    exact F.refl db
  · simp only [bind_ok_iff, pure_ok_iff, Prod.mk.injEq] at h
    obtain ⟨-, -, _, hadvance, -, rfl⟩ := h
    exact F.trans (F.advanceAccepted hadvance) (F.elsewhere rfl)
  · cases h

theorem reconcileStaleExecution {mixedParameter found : Bool} {staleAfter : Nat}
    (h : reconcileStaleExecution codec env mixedParameter staleAfter outboxId db =
      .ok (found, db')) : R db db' := by
  unfold JobmanControl.reconcileStaleExecution at h
  split at h
  · cases h
    exact F.refl db
  · rename_i hstale
    simp only [bind_ok_iff, pure_ok_iff, Prod.mk.injEq] at h
    obtain ⟨_, hexecution, _, hjob, -, -, _, houtbox, -, rfl⟩ := h
    refine F.trans
      (F.trans (F.updateExecution ?_ hexecution) (F.rewriteJob hjob fun _ => ⟨rfl, rfl⟩))
      (F.auditedOutbox houtbox fun _ heq => by cases heq)
    intro row hrow
    split
    · rename_i hcurrent
      exact .stale row hcurrent (staleExecution_launched hstale hrow)
    · exact .same row

theorem atomically {α : Type} {tx : Tx StoreError Db α}
    (h : ∀ a db', tx db = .ok (a, db') → R db db') : R db (atomically tx db) := by
  obtain ⟨a, hok⟩ | hsame := atomically_cases tx db
  · exact h a _ hok
  · rw [hsame]
    exact F.refl db

end KeyedFootprint

theorem DispatchFootprint.reconcileOneAssignment (F : DispatchFootprint codec env R)
    {ids : DispatchIds} {found : Bool}
    (h : reconcileOneAssignment codec env ids db = .ok (found, db')) : R db db' := by
  unfold JobmanControl.reconcileOneAssignment at h
  split at h
  · cases h
    exact F.refl db
  · rename_i candidate hclaim
    simp only [bind_ok_iff, pure_ok_iff, Prod.mk.injEq] at h
    obtain ⟨_, hoffer, -, rfl⟩ := h
    exact F.offerAssignment (claimAssignmentCandidate_claimed hclaim) hoffer

/-- The jobs a call asks for. -/
def Operation.asks : Operation → JobSubmission → Grouping → Prop
  | .submitJob _ _ _ _ submission, asked, grouping => asked = submission ∧ grouping = .standalone
  | .submitCollection _ _ ids submission, asked, grouping =>
      ∃ i, submission.items[i]? = some asked ∧ grouping = .collection ids.groupId i
  | .submitGraph _ _ ids submission, asked, grouping =>
      ∃ i, submission.nodes[i]? = some asked ∧ grouping = .graph ids.groupId i none
  | .importCompletedHistory _ _ _ _ _ request, asked, grouping =>
      asked = request.job ∧ grouping = .standalone
  | _, _, _ => False

/-- Every call relates the store it found to the store it leaves, if a dispatch does. -/
theorem Call.apply_keyed (call : Call) (F : KeyedFootprint codec call.env call.operation.asks R)
    (db : Db) (hdispatch : ∀ ids found db', call.operation = .reconcileOneAssignment ids →
      reconcileOneAssignment codec call.env ids db = .ok (found, db') → R db db')
    (hconfigure : ∀ configuration, call.operation = .configure configuration →
      R db (db.configure configuration)) (hreport : ∀ identity event replayed db',
      recordExecutionEvent codec call.env .alone identity event db = .ok (replayed, db') →
      R db db') : R db (call.apply codec db) := by
  obtain ⟨env, operation⟩ := call
  cases operation with
  | configure configuration => exact hconfigure configuration rfl
  | submitJob =>
      refine F.atomically fun _ _ h => ?_
      obtain ⟨_, -, hkeyed⟩ := F.submitJob ⟨rfl, rfl⟩ h
      exact F.keyed hkeyed
  | submitCollection =>
      refine F.atomically fun _ _ h => ?_
      obtain ⟨_, -, hkeyed⟩ := F.submitCollection (fun i _ hi => ⟨i, hi, rfl⟩) h
      exact F.keyed hkeyed
  | submitGraph =>
      refine F.atomically fun _ _ h => ?_
      obtain ⟨_, -, hkeyed⟩ := F.submitGraph (fun i _ hi => ⟨i, hi, rfl⟩) h
      exact F.keyed hkeyed
  | reconcileOneAssignment => exact F.atomically fun _ _ => hdispatch _ _ _ rfl
  | acceptAssignment => exact F.atomically fun _ _ => F.acceptAssignment
  | recordExecutionEvent => exact F.atomically fun _ _ => hreport _ _ _ _
  | cancelJob =>
      refine F.atomically fun _ _ h => ?_
      obtain ⟨_, -, _, hkeyed⟩ := F.cancelJob h
      exact F.keyed hkeyed
  | cancelGraph =>
      refine F.atomically fun _ _ h => ?_
      obtain ⟨_, -, _, hkeyed⟩ := F.cancelGraph h
      exact F.keyed hkeyed
  | reconcileStaleExecution => exact F.atomically fun _ _ => F.reconcileStaleExecution
  | importCompletedHistory =>
      refine F.atomically fun _ _ h => ?_
      obtain ⟨_, -, ⟨-, rfl⟩ | ⟨-, _, -, hkeyed⟩⟩ := F.importCompletedHistory ⟨rfl, rfl⟩ h
      · exact F.refl _
      · exact F.keyed hkeyed

/-- Every call relates the store it found to the store it leaves. -/
theorem Call.apply_footprint (call : Call) (F : CallFootprint codec call.env call.operation.asks R)
    (db : Db) (hconfigure : ∀ configuration, call.operation = .configure configuration →
      R db (db.configure configuration)) (hreport : ∀ identity event replayed db',
      recordExecutionEvent codec call.env .alone identity event db = .ok (replayed, db') →
      R db db') : R db (call.apply codec db) :=
  call.apply_keyed F.toKeyedFootprint db (fun _ _ _ _ => F.reconcileOneAssignment) hconfigure
    hreport

end JobmanControl
