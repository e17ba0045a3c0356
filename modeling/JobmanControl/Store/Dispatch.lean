import JobmanControl.Store.Statement

/-!
Dispatch: the edge predicate in the four places the source writes it, the claim
query of the coordinator and the transaction that turns one claimed job into an
offered assignment. The claim query is a function of the snapshot its
sub-selects read and, separately, of the job and policy rows it locks, because
a lock that had to wait re-reads only those two rows.
-/

namespace JobmanControl

open Relational

namespace EdgeRow

def predicateHolds (edge : EdgeRow) (outcome : Option Outcome) : Truth :=
  .or
    (.or
      (.or (.eq (some edge.predicate) (some .anyTerminal))
        (.and (.eq (some edge.predicate) (some .success)) (.eq outcome (some .success))))
      (.and (.eq (some edge.predicate) (some .failure))
        (.mem outcome [.failure, .timedOut, .aborted, .lost])))
    (.and (.eq (some edge.predicate) (some .outcomes)) (.mem outcome edge.outcomes))

/-- The edge condition inside `NOT EXISTS` of the claim query. -/
def blocksDispatch (edge : EdgeRow) (upstream : JobRow) : Truth :=
  .or (some (!upstream.progress.isTerminal)) (.not (edge.predicateHolds upstream.outcome))

def unsatisfied (edge : EdgeRow) (upstream : JobRow) : Truth :=
  .not (edge.predicateHolds upstream.outcome)

def dependencySatisfied (edge : EdgeRow) (upstream : JobRow) : Truth :=
  .and (some upstream.progress.isTerminal) (edge.predicateHolds upstream.outcome)

end EdgeRow

inductive EdgeState
  | waiting | satisfied | unsatisfied
  deriving DecidableEq, Repr

/-- The `CASE` of `edgeStateSQL`. -/
def EdgeRow.edgeState (edge : EdgeRow) (upstream : JobRow) : EdgeState :=
  if !upstream.progress.isTerminal then .waiting
  else if (edge.predicateHolds upstream.outcome).holds then .satisfied
  else .unsatisfied

def minute : Time := 60000000

def hour : Time := 3600000000

def day : Time := 86400000000

namespace Db

/-- `graph_edges AS edge JOIN jobs AS upstream … WHERE edge.downstream_job_id = $1`. -/
def incomingEdges (db : Db) (jobId : Id) : List ((EdgeKey × EdgeRow) × JobRow) :=
  (db.graphEdges.select fun key _ => key.downstreamJobId = jobId).filterMap fun edge =>
    (db.jobs.get? edge.1.upstreamJobId).map fun upstream => (edge, upstream)

def dependenciesReady (db : Db) (jobId : Id) : Bool :=
  !(db.incomingEdges jobId).any fun (edge, upstream) => (edge.2.blocksDispatch upstream).holds

def activeInNamespace (db : Db) (namespaceId : Id) : Nat :=
  db.jobs.count fun _ job => job.namespaceId = namespaceId && job.isActive

def activeInCollection (db : Db) (collectionId : Id) : Nat :=
  db.jobs.count fun _ job => job.grouping.collectionId = some collectionId && job.isActive

def activeInGraph (db : Db) (graphId : Id) : Nat :=
  db.jobs.count fun _ job => job.grouping.graphId = some graphId && job.isActive

/-- The collection part of the claim query: only arrays are exempt from the limit. -/
def collectionAdmits (db : Db) (job : JobRow) : Bool :=
  match job.grouping.collectionId with
  | none => true
  | some collectionId =>
      match db.collections.get? collectionId with
      | none => false
      | some collection =>
          collection.arrayMode = .slurmArray ||
            db.activeInCollection collectionId < collection.maxActive

def graphAdmits (db : Db) (jobId : Id) (job : JobRow) : Bool :=
  match job.grouping.graphId with
  | none => true
  | some graphId =>
      match db.graphs.get? graphId with
      | none => false
      | some graph => db.activeInGraph graphId < graph.maxActive && db.dependenciesReady jobId

/-- The agent the first dispatched member of an array was bound to. -/
def arrayAgent (db : Db) (collectionId : Id) : Option Id :=
  (firstBy (fun a b => a.2.createdAt < b.2.createdAt ||
      (a.2.createdAt = b.2.createdAt && a.1 ≤ b.1))
    (db.executions.select fun _ execution =>
      match db.runs.get? execution.runId with
      | none => false
      | some run =>
          match db.jobs.get? run.jobId with
          | none => false
          | some job => job.grouping.collectionId = some collectionId)).map
    fun execution => execution.2.agentId

def tenMinutes : Time := 600000000

/-- The lateral agent query: the first agent able to run the workload. -/
def candidateAgent (codec : Codec) (env : Env) (db : Db) (job : JobRow)
    (generation : GenerationRow) (workload : WorkloadRow) : Option Id :=
  let required := codec.requirements workload.document
  let array := match job.grouping.collectionId with
    | none => none
    | some collectionId =>
        match db.collections.get? collectionId with
        | none => none
        | some collection =>
            if collection.arrayMode = .slurmArray then db.arrayAgent collectionId else none
  (firstBy (fun a b => a.2.createdAt < b.2.createdAt ||
      (a.2.createdAt = b.2.createdAt && a.1 ≤ b.1))
    (db.agents.select fun agentId agent =>
      agent.namespaceId = job.namespaceId &&
      agent.targetId = job.targetId &&
      agent.targetGenerationId = job.targetGenerationId &&
      agent.principalId = job.ownerPrincipalId &&
      agent.status = .active &&
      agent.acceptingAssignments &&
      (match agent.lastCapabilityAt with
        | some at_ => env.now < at_ + tenMinutes
        | none => false) &&
      agent.executionBackends.contains generation.executionBackend &&
      (match required.runtimeKind with
        | some kind => agent.runtimes.contains kind
        | none => false) &&
      (required.operatingSystems.isEmpty ||
        required.operatingSystems.contains agent.operatingSystem) &&
      (required.architectures.isEmpty || required.architectures.contains agent.architecture) &&
      required.capabilities.all (fun capability => agent.capabilities.contains capability) &&
      (db.sessions.any fun _ session =>
        session.agentId = agentId && session.revokedAt = none && env.now < session.expiresAt) &&
      (match array with
        | none => true
        | some bound => agentId = bound))).map Prod.fst

/-- One row of the claim query: everything but the locked job and policy rows is
read from the snapshot. -/
def candidate (codec : Codec) (env : Env) (snapshot : Db) (jobId : Id) (job : JobRow)
    (policy : PolicyRow) : Option AssignmentCandidate := do
  let namespaceName ← snapshot.namespaces.get? job.namespaceId
  let target ← snapshot.targets.get? job.targetId
  let generation ← snapshot.generations.get? job.targetGenerationId
  let workload ← snapshot.workloads.get? (job.namespaceId, job.workloadDigest)
  let agentId ← snapshot.candidateAgent codec env job generation workload
  guard (target.state = .active)
  guard (!snapshot.recovery.reconciliationHold)
  guard (job.isAccepted ∧ job.desiredState = .run)
  guard (snapshot.activeInNamespace job.namespaceId < policy.maxActiveJobs)
  guard (snapshot.collectionAdmits job)
  guard (snapshot.graphAdmits jobId job)
  let collection := job.grouping.collectionId.bind snapshot.collections.get?
  pure
    { jobId := jobId
      namespaceId := job.namespaceId
      namespaceName := namespaceName
      targetId := job.targetId
      targetGenerationId := job.targetGenerationId
      targetName := job.placementTarget
      partition := job.placementPartition.getD ""
      executionBackend := generation.executionBackend
      agentId := agentId
      workloadDigest := job.workloadDigest
      workloadDocument := workload.document
      artifactStores := job.resolvedArtifactStores
      collectionId := job.grouping.collectionId
      collectionIndex := job.grouping.collectionIndex
      collectionCount :=
        match job.grouping.collectionId with
        | none => 0
        | some collectionId =>
            snapshot.jobs.count fun _ child => child.grouping.collectionId = some collectionId
      collectionArrayMode := collection.map (·.arrayMode)
      collectionMaxActive := (collection.map (·.maxActive)).getD 0 }

/-- `ORDER BY last_dispatched_at NULLS FIRST, created_at, id`. -/
def claimOrder (a b : (Id × JobRow) × PolicyRow) : Bool :=
  let dispatched : Option Time → Option Time → Ordering
    | none, none => .eq
    | none, some _ => .lt
    | some _, none => .gt
    | some s, some t => compare s t
  let order := (dispatched a.2.lastDispatchedAt b.2.lastDispatchedAt).then
    ((compare a.1.2.createdAt b.1.2.createdAt).then (compare a.1.1 b.1.1))
  order ≠ .gt

def claimRows (db : Db) : List ((Id × JobRow) × PolicyRow) :=
  db.jobs.entries.filterMap fun entry =>
    (db.policies.get? entry.2.namespaceId).map fun policy => (entry, policy)

def claimAssignmentCandidate (codec : Codec) (env : Env) (db : Db) : Option AssignmentCandidate :=
  (firstBy claimOrder
    (db.claimRows.filter fun row =>
      (db.candidate codec env row.1.1 row.1.2 row.2).isSome)).bind fun row =>
    db.candidate codec env row.1.1 row.1.2 row.2

end Db

structure DispatchIds where
  runId : Id
  executionId : Id
  deliveryId : Id
  outboxId : Id
  deriving DecidableEq, Repr

def AssignmentCandidate.slurmArray (candidate : AssignmentCandidate) : Option SlurmArrayBinding :=
  if candidate.collectionArrayMode = some .slurmArray then
    some ⟨candidate.collectionId, (candidate.collectionIndex.map Int.ofNat).getD (-1),
      candidate.collectionCount, candidate.collectionMaxActive⟩
  else none

/-- The sealed assignment, with the digest of the effective execution inside. -/
def buildAssignmentDocument (codec : Codec) (candidate : AssignmentCandidate)
    (runId executionId deliveryId : Id) : Except StoreError (SealedAgentAssignment × String) := do
  let workload ← need (codec.decodeWorkload candidate.workloadDocument)
    (.invalid "decode assignment workload")
  let effective ← need
    (codec.sealEffectiveExecution
      { executionId := executionId
        runId := runId
        jobId := candidate.jobId
        namespaceName := candidate.namespaceName
        slurmArray := candidate.slurmArray
        workloadDigest := candidate.workloadDigest
        workload := workload
        targetId := candidate.targetId
        targetGenerationId := candidate.targetGenerationId
        target := candidate.targetName
        partition := candidate.partition
        executionBackend := candidate.executionBackend
        artifactStores := candidate.artifactStores })
    (.invalid "seal effective execution")
  let assignment ← need
    (codec.sealAgentAssignment
      ⟨deliveryId, candidate.agentId, effective.digest, effective.document⟩)
    (.invalid "seal agent assignment")
  pure (assignment, effective.digest)

def insertRun (db : Db) (runId namespaceId jobId : Id) : Except StoreError Db := do
  ensure (!db.runs.any fun _ run => run.jobId = jobId && run.runNumber = 1)
    (.constraint "runs_job_number_unique")
  let runs ← need (db.runs.insert? runId ⟨namespaceId, jobId, 1, .live .assigning, .run⟩)
    (.constraint "runs_pkey")
  pure { db with runs := runs }

def insertExecution (codec : Codec) (env : Env) (db : Db) (executionId runId : Id)
    (candidate : AssignmentCandidate) (document : SealedAgentAssignment) (digest : String) :
    Except StoreError Db := do
  ensure (!db.executions.any fun _ execution => execution.runId = runId)
    (.constraint "executions_one_per_run")
  let executions ← need
    (db.executions.insert? executionId
      { namespaceId := candidate.namespaceId
        runId := runId
        targetId := candidate.targetId
        targetGenerationId := candidate.targetGenerationId
        agentId := candidate.agentId
        progress := .live .planned
        effectiveSpecDigest := digest
        effectiveSpec := codec.encodeEffectiveExecution document.document.effectiveExecution
        revision := 1
        acceptedAt := none
        lastEventSequence := 0
        nativeId := none
        scheduler := none
        confidence := .current
        createdAt := env.now })
    (.constraint "executions_pkey")
  pure { db with executions := executions }

def insertAssignment (env : Env) (db : Db) (deliveryId executionId : Id)
    (candidate : AssignmentCandidate) (document : SealedAgentAssignment) :
    Except StoreError Db := do
  ensure (!db.assignments.any fun _ assignment => assignment.executionId = executionId)
    (.constraint "assignments_execution_unique")
  let assignments ← need
    (db.assignments.insert? deliveryId
      { namespaceId := candidate.namespaceId
        executionId := executionId
        agentId := candidate.agentId
        state := .offered
        document := document.canonicalJson
        deliveryCount := 0
        lastDeliveredAt := none
        createdAt := env.now })
    (.constraint "assignments_pkey")
  pure { db with assignments := assignments }

/-- `UPDATE jobs SET phase = 'assigning' … WHERE id = $1 AND phase = 'accepted' AND
desired_state = 'run'`, which must reach exactly one row. -/
def assignJob (codec : Codec) (env : Env) (db : Db) (jobId : Id) : Except StoreError Db := do
  let job ← need (db.jobs.get? jobId) (.invalid "assignment candidate transition was lost")
  ensure (job.isAccepted ∧ job.desiredState = .run)
    (.invalid "assignment candidate transition was lost")
  db.updateJob codec env jobId fun job => .ok
    { job with
      progress := .live .assigning
      revision := job.revision + 1
      updatedAt := env.now }

def offerAssignment (codec : Codec) (env : Env) (ids : DispatchIds)
    (candidate : AssignmentCandidate) (db : Db) : Except StoreError Db := do
  let (document, digest) ← buildAssignmentDocument codec candidate ids.runId ids.executionId
    ids.deliveryId
  let db ← insertRun db ids.runId candidate.namespaceId candidate.jobId
  let db ← insertExecution codec env db ids.executionId ids.runId candidate document digest
  let db ← insertAssignment env db ids.deliveryId ids.executionId candidate document
  let db ← assignJob codec env db candidate.jobId
  let db : Db :=
    { db with
      policies := db.policies.modify candidate.namespaceId fun policy =>
        { policy with lastDispatchedAt := some env.now } }
  (db.appendAudit
    ⟨candidate.namespaceId, .system, .assignmentOffered, .execution, ids.executionId, none,
      none⟩).insertOutbox env ids.outboxId candidate.namespaceId
      (.assignmentOffered ids.executionId ids.deliveryId candidate.agentId digest)

def reconcileOneAssignment (codec : Codec) (env : Env) (ids : DispatchIds) :
    Tx StoreError Db Bool := fun db =>
  match db.claimAssignmentCandidate codec env with
  | none => .ok (false, db)
  | some candidate => do
      let db ← offerAssignment codec env ids candidate db
      pure (true, db)

variable {codec : Codec} {env : Env} {db : Db} {job : JobRow}

theorem claimAssignmentCandidate_some {c : AssignmentCandidate}
    (h : db.claimAssignmentCandidate codec env = some c) :
    ∃ j job policy, db.jobs.get? j = some job ∧ db.policies.get? job.namespaceId = some policy ∧
      db.candidate codec env j job policy = some c := by
  obtain ⟨⟨⟨j, job⟩, policy⟩, hfirst, hcand⟩ := Option.bind_eq_some_iff.mp h
  have hmem := (List.mem_filter.mp (firstBy_mem hfirst)).1
  obtain ⟨entry, hentry, heq⟩ := List.mem_filterMap.mp hmem
  obtain ⟨policy', hpolicy, heq'⟩ := Option.map_eq_some_iff.mp heq
  cases heq'
  exact ⟨j, job, policy, (Table.get?_eq_some_iff _ _ _).mpr hentry, hpolicy, hcand⟩

structure AssignmentCandidate.Claimed (candidate : AssignmentCandidate) (db : Db) : Prop where
  job : ∃ job, db.jobs.get? candidate.jobId = some job ∧
    job.namespaceId = candidate.namespaceId ∧ job.targetId = candidate.targetId ∧
    job.targetGenerationId = candidate.targetGenerationId
  agent : ∃ agent, db.agents.get? candidate.agentId = some agent ∧
    agent.namespaceId = candidate.namespaceId ∧ agent.targetId = candidate.targetId ∧
    agent.targetGenerationId = candidate.targetGenerationId
  target : ∃ target, db.targets.get? candidate.targetId = some target ∧ target.state = .active

theorem candidateAgent_some {generation : GenerationRow} {workload : WorkloadRow} {agentId : Id}
    (h : db.candidateAgent codec env job generation workload = some agentId) :
    ∃ agent, db.agents.get? agentId = some agent ∧ agent.namespaceId = job.namespaceId ∧
      agent.targetId = job.targetId ∧ agent.targetGenerationId = job.targetGenerationId := by
  obtain ⟨⟨id, agent⟩, hfirst, rfl⟩ := Option.map_eq_some_iff.mp h
  obtain ⟨hrow, hagent⟩ := (Table.mem_select _ _ _ _).mp (firstBy_mem hfirst)
  simp only [Bool.and_eq_true, decide_eq_true_eq] at hagent
  exact ⟨agent, hrow, by tauto⟩

/-- What the lateral query asks of an agent. -/
structure Db.Serves (codec : Codec) (env : Env) (db : Db) (job : JobRow)
    (generation : GenerationRow) (workload : WorkloadRow) (agentId : Id) (agent : AgentRow) :
    Prop where
  namespaceId : agent.namespaceId = job.namespaceId
  targetId : agent.targetId = job.targetId
  targetGenerationId : agent.targetGenerationId = job.targetGenerationId
  principalId : agent.principalId = job.ownerPrincipalId
  active : agent.status = .active
  accepting : agent.acceptingAssignments = true
  fresh : ∃ reported, agent.lastCapabilityAt = some reported ∧ env.now < reported + Db.tenMinutes
  backend : generation.executionBackend ∈ agent.executionBackends
  runtime : ∃ kind, (codec.requirements workload.document).runtimeKind = some kind ∧
    kind ∈ agent.runtimes
  operatingSystem : (codec.requirements workload.document).operatingSystems = [] ∨
    agent.operatingSystem ∈ (codec.requirements workload.document).operatingSystems
  architecture : (codec.requirements workload.document).architectures = [] ∨
    agent.architecture ∈ (codec.requirements workload.document).architectures
  capabilities : ∀ capability ∈ (codec.requirements workload.document).capabilities,
    capability ∈ agent.capabilities
  session : ∃ s session, db.sessions.get? s = some session ∧ session.agentId = agentId ∧
    session.revokedAt = none ∧ env.now < session.expiresAt
  bound : ∀ c collection, job.grouping.collectionId = some c →
    db.collections.get? c = some collection → collection.arrayMode = .slurmArray →
    ∀ first, db.arrayAgent c = some first → agentId = first

theorem candidateAgent_serves {generation : GenerationRow} {workload : WorkloadRow} {agentId : Id}
    (h : db.candidateAgent codec env job generation workload = some agentId) :
    ∃ agent, db.agents.get? agentId = some agent ∧
      db.Serves codec env job generation workload agentId agent := by
  obtain ⟨⟨id, agent⟩, hfirst, rfl⟩ := Option.map_eq_some_iff.mp h
  obtain ⟨hrow, hagent⟩ := (Table.mem_select _ _ _ _).mp (firstBy_mem hfirst)
  simp only [Bool.and_eq_true, decide_eq_true_eq, List.contains_iff_mem, Bool.or_eq_true,
    List.isEmpty_iff, List.all_eq_true, Table.any_eq_true_iff] at hagent
  obtain ⟨⟨⟨⟨⟨⟨⟨⟨⟨⟨⟨⟨⟨hns, ht⟩, hg⟩, hp⟩, hactive⟩, haccepting⟩, hfresh⟩, hbackend⟩, hruntime⟩,
    hos⟩, harch⟩, hcap⟩, s, session, hsession, ⟨hsa, hrevoked⟩, hexpires⟩, hbound⟩ := hagent
  refine ⟨agent, hrow, hns, ht, hg, hp, hactive, haccepting, ?_, hbackend, ?_, hos, harch, hcap,
    ⟨s, session, hsession, hsa, hrevoked, hexpires⟩, ?_⟩
  · split at hfresh
    · rename_i reported hreported
      exact ⟨reported, hreported, by simpa using hfresh⟩
    · cases hfresh
  · split at hruntime
    · rename_i kind hkind
      exact ⟨kind, hkind, by simpa using hruntime⟩
    · cases hruntime
  · intro c collection hc hcollection harray first hfirst
    simp only [hc, hcollection, harray, if_true, hfirst, decide_eq_true_eq] at hbound
    exact hbound

/-- The rows a claimed candidate was read from, and the conditions they meet. -/
structure AssignmentCandidate.Chosen (c : AssignmentCandidate) (codec : Codec) (env : Env) (db : Db)
    (job : JobRow) (policy : PolicyRow) (target : TargetRow) (generation : GenerationRow)
    (workload : WorkloadRow) (agent : AgentRow) : Prop where
  jobRow : db.jobs.get? c.jobId = some job
  policyRow : db.policies.get? job.namespaceId = some policy
  targetRow : db.targets.get? job.targetId = some target
  generationRow : db.generations.get? job.targetGenerationId = some generation
  workloadRow : db.workloads.get? (job.namespaceId, job.workloadDigest) = some workload
  agentRow : db.agents.get? c.agentId = some agent
  serves : db.Serves codec env job generation workload c.agentId agent
  active : target.state = .active
  unheld : db.recovery.reconciliationHold = false
  waiting : job.isAccepted = true ∧ job.desiredState = .run
  namespaceId : c.namespaceId = job.namespaceId
  targetId : c.targetId = job.targetId
  targetGenerationId : c.targetGenerationId = job.targetGenerationId
  partition : c.partition = job.placementPartition.getD ""
  collectionId : c.collectionId = job.grouping.collectionId
  collectionIndex : c.collectionIndex = job.grouping.collectionIndex
  collection : ∀ k collection, job.grouping.collectionId = some k →
    db.collections.get? k = some collection →
    c.collectionCount = db.jobs.count (fun _ child => child.grouping.collectionId = some k) ∧
    c.collectionArrayMode = some collection.arrayMode ∧ c.collectionMaxActive = collection.maxActive

theorem candidate_chosen {j : Id} {policy : PolicyRow} {c : AssignmentCandidate}
    (hjob : db.jobs.get? j = some job) (hpolicy : db.policies.get? job.namespaceId = some policy)
    (h : db.candidate codec env j job policy = some c) :
    ∃ target generation workload agent,
      c.Chosen codec env db job policy target generation workload agent := by
  simp only [Db.candidate, Option.bind_eq_bind, Option.bind_eq_some_iff, Option.guard_eq_some',
    Option.pure_def, Option.some.injEq] at h
  obtain ⟨_, -, target, htarget, generation, hgeneration, workload, hworkload, agentId, hagent, _,
    hactive, _, hhold, _, hwaiting, _, -, _, -, _, -, rfl⟩ := h
  obtain ⟨agent, hrow, hserves⟩ := candidateAgent_serves hagent
  refine ⟨target, generation, workload, agent, hjob, hpolicy, htarget, hgeneration, hworkload, hrow,
    hserves, hactive, by simpa using hhold, hwaiting, rfl, rfl, rfl, rfl, rfl, rfl, ?_⟩
  intro k collection hk hcollection
  dsimp only
  rw [hk, Option.bind_some, hcollection]
  exact ⟨rfl, rfl, rfl⟩

theorem claimAssignmentCandidate_claimed {candidate : AssignmentCandidate}
    (h : db.claimAssignmentCandidate codec env = some candidate) : candidate.Claimed db := by
  obtain ⟨j, job, policy, hjob, -, hcandidate⟩ := claimAssignmentCandidate_some h
  simp only [Db.candidate, Option.bind_eq_bind, Option.bind_eq_some_iff, Option.guard_eq_some',
    Option.pure_def, Option.some.injEq] at hcandidate
  obtain ⟨_, -, target, htarget, _, -, _, -, agentId, hagent, _, hactive, _, -, _, -, _, -, _, -, _,
    -, rfl⟩ := hcandidate
  exact ⟨⟨job, hjob, rfl, rfl, rfl⟩, candidateAgent_some hagent, target, htarget, hactive⟩

end JobmanControl
