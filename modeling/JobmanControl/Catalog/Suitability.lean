import JobmanControl.Catalog.Reports

/-!
Executions run where they may. A job stands with a generation that offers what its workload
requires, and the agent that executes it belongs to the same generation and to the owner of
the job. All of it is written once, so it stays true however the target is rolled, drained
or reported on.
-/

namespace JobmanControl

open Relational

/-! What the documents say. -/

/-- A submission is admitted with the requirements its workload states. -/
def JobSubmission.Decoded (codec : Codec) (submission : JobSubmission) : Prop :=
  codec.requirements submission.workloadDocument =
    ⟨some submission.runtimeKind, submission.operatingSystems, submission.architectures,
      submission.capabilities⟩

def ServiceCall.Decoded (codec : Codec) (call : ServiceCall) : Prop :=
  ∀ operation, call.operation = .work operation →
    ∀ submission grouping, operation.asks submission grouping → submission.Decoded codec

/-- Documents that are stored as the same one require the same. -/
def Codec.RequiresEqually (codec : Codec) : Prop :=
  ∀ document document', codec.sameDocument document document' = true →
    codec.requirements document = codec.requirements document'

/-- A generation that offers what is required. -/
structure GenerationRow.Offers (generation : GenerationRow) (required : Requirements) : Prop where
  runtime : ∃ kind, required.runtimeKind = some kind ∧ kind ∈ generation.runtimes
  capabilities : ∀ capability ∈ required.capabilities, capability ∈ generation.capabilities

/-- The lists of a workload admit the machine of an agent. -/
structure Requirements.Admits (required : Requirements) (agent : AgentRow) : Prop where
  operatingSystem : required.operatingSystems = [] ∨
    agent.operatingSystem ∈ required.operatingSystems
  architecture : required.architectures = [] ∨ agent.architecture ∈ required.architectures

variable {generation : GenerationRow} {workload : WorkloadRow} {row : ExecutionRow} {job : JobRow}

theorem Requirements.Admits.kept {required : Requirements} {row row' : AgentRow}
    (h : required.Admits row) (hkeeps : row.Keeps row') : required.Admits row' :=
  ⟨hkeeps.operatingSystem ▸ h.operatingSystem, hkeeps.architecture ▸ h.architecture⟩

theorem GenerationRow.Meets.offers {codec : Codec} {submission : JobSubmission}
    (h : generation.Meets submission) (hdecoded : submission.Decoded codec) :
    generation.Offers (codec.requirements submission.workloadDocument) := by
  rw [hdecoded]
  refine ⟨⟨_, rfl, h.runtime⟩, fun capability hmem => ?_⟩
  have hall := List.all_eq_true.mp h.capabilities capability hmem
  exact List.contains_iff_mem.mp hall

/-! What a job and an execution rest on. -/

/-- A job stands with a generation that offers what its workload requires. -/
structure JobRow.Stands (row : JobRow) (codec : Codec) (db : Db) (generation : GenerationRow)
    (workload : WorkloadRow) : Prop where
  workloadRow : db.workloads.get? (row.namespaceId, row.workloadDigest) = some workload
  generationRow : db.generations.get? row.targetGenerationId = some generation
  offers : generation.Offers (codec.requirements workload.document)
  partition : ∀ name, row.placementPartition = some name →
    db.HasPartition row.targetGenerationId name

/-- An execution runs where its job stands, on an agent of the job's owner. -/
structure ExecutionRow.Suited (execution : ExecutionRow) (codec : Codec) (db : Db) (job : JobRow)
    (agent : AgentRow) (generation : GenerationRow) (workload : WorkloadRow) : Prop where
  jobRow : ∃ run, db.runs.get? execution.runId = some run ∧ db.jobs.get? run.jobId = some job
  agentRow : db.agents.get? execution.agentId = some agent
  identity : execution.namespaceId = job.namespaceId ∧ execution.targetId = job.targetId ∧
    execution.targetGenerationId = job.targetGenerationId
  namespaceId : agent.namespaceId = job.namespaceId
  targetId : agent.targetId = job.targetId
  targetGenerationId : agent.targetGenerationId = job.targetGenerationId
  principalId : agent.principalId = job.ownerPrincipalId
  stands : job.Stands codec db generation workload
  allows : generation.Allows agent
  admits : (codec.requirements workload.document).Admits agent

/-- What no call takes back. -/
structure Db.Preserves (db db' : Db) : Prop where
  namespaceName : ∀ n name, db.namespaces.get? n = some name → db'.namespaces.get? n = some name
  generation : ∀ g row, db.generations.get? g = some row → db'.generations.get? g = some row
  partition : ∀ p row, db.partitions.get? p = some row → db'.partitions.get? p = some row
  workload : ∀ k row, db.workloads.get? k = some row → db'.workloads.get? k = some row
  job : ∀ j row, db.jobs.get? j = some row → ∃ row', db'.jobs.get? j = some row' ∧ row.Keeps row'
  run : ∀ r row, db.runs.get? r = some row →
    ∃ row', db'.runs.get? r = some row' ∧ row'.identity = row.identity
  columns : ∀ e row, db.executions.get? e = some row →
    ∃ row', db'.executions.get? e = some row' ∧ row'.columns = row.columns
  agent : ∀ a row, db.agents.get? a = some row →
    ∃ row', db'.agents.get? a = some row' ∧ row.Keeps row'

namespace Db.Preserves

variable {db db' : Db}

theorem refl (db : Db) : db.Preserves db :=
  ⟨fun _ _ h => h, fun _ _ h => h, fun _ _ h => h, fun _ _ h => h,
    fun _ row h => ⟨row, h, .refl row⟩, fun _ row h => ⟨row, h, rfl⟩,
    fun _ row h => ⟨row, h, rfl⟩, fun _ row h => ⟨row, h, .refl row⟩⟩

theorem trans {db'' : Db} (h : db.Preserves db') (h' : db'.Preserves db'') :
    db.Preserves db'' := by
  refine ⟨fun n name hname => h'.namespaceName n name (h.namespaceName n name hname),
    fun g row hrow => h'.generation g row (h.generation g row hrow),
    fun p row hrow => h'.partition p row (h.partition p row hrow),
    fun k row hrow => h'.workload k row (h.workload k row hrow), ?_, ?_, ?_, ?_⟩
  · intro j row hrow
    obtain ⟨mid, hmid, hkeeps⟩ := h.job j row hrow
    obtain ⟨new, hnew, hkeeps'⟩ := h'.job j mid hmid
    exact ⟨new, hnew, hkeeps.trans hkeeps'⟩
  · intro r row hrow
    obtain ⟨mid, hmid, hsame⟩ := h.run r row hrow
    obtain ⟨new, hnew, hsame'⟩ := h'.run r mid hmid
    exact ⟨new, hnew, hsame'.trans hsame⟩
  · intro e row hrow
    obtain ⟨mid, hmid, hsame⟩ := h.columns e row hrow
    obtain ⟨new, hnew, hsame'⟩ := h'.columns e mid hmid
    exact ⟨new, hnew, hsame'.trans hsame⟩
  · intro a row hrow
    obtain ⟨mid, hmid, hkeeps⟩ := h.agent a row hrow
    obtain ⟨new, hnew, hkeeps'⟩ := h'.agent a mid hmid
    exact ⟨new, hnew, hkeeps.trans hkeeps'⟩

theorem execution (h : db.Preserves db') (e : Id) (row : ExecutionRow)
    (hrow : db.executions.get? e = some row) :
    ∃ row', db'.executions.get? e = some row' ∧ row'.identity = row.identity := by
  obtain ⟨row', hrow', hcolumns⟩ := h.columns e row hrow
  exact ⟨row', hrow', ExecutionRow.identity_eq_of_columns hcolumns⟩

theorem stands (h : db.Preserves db') {codec : Codec} {row row' : JobRow}
    (hstands : row.Stands codec db generation workload) (hkeeps : row.Keeps row') :
    row'.Stands codec db' generation workload := by
  obtain ⟨hnamespace, hgeneration, hpartition, hdigest⟩ := hkeeps.columns
  refine ⟨?_, ?_, hstands.offers, ?_⟩
  · rw [hnamespace, hdigest]
    exact h.workload _ _ hstands.workloadRow
  · rw [hgeneration]
    exact h.generation _ _ hstands.generationRow
  · rw [hgeneration, hpartition]
    intro name hname
    obtain ⟨p, partition, hrow, hsame⟩ := hstands.partition name hname
    exact ⟨p, partition, h.partition p partition hrow, hsame⟩

theorem suited (h : db.Preserves db') {codec : Codec} {row' : ExecutionRow} {agent : AgentRow}
    (hsuited : row.Suited codec db job agent generation workload)
    (hidentity : row'.identity = row.identity) :
    ∃ job' agent', job.Keeps job' ∧ agent.Keeps agent' ∧
      row'.Suited codec db' job' agent' generation workload := by
  obtain ⟨run, hrun, hjob⟩ := hsuited.jobRow
  obtain ⟨run', hrun', hsame⟩ := h.run _ _ hrun
  obtain ⟨job', hjob', hjobKeeps⟩ := h.job _ _ hjob
  obtain ⟨agent', hagent', hagentKeeps⟩ := h.agent _ _ hsuited.agentRow
  have hrunJob : run'.jobId = run.jobId := congrArg RunIdentity.jobId hsame
  have hjobIdentity := hjobKeeps.identity
  have hbinding := hagentKeeps.binding
  simp only [ExecutionRow.identity, ExecutionIdentity.mk.injEq] at hidentity
  simp only [JobRow.identity, JobIdentity.mk.injEq] at hjobIdentity
  simp only [AgentRow.binding, AgentBinding.mk.injEq] at hbinding
  obtain ⟨hens, hrunId, hagentId, het, heg⟩ := hidentity
  obtain ⟨hjns, hjowner, hjt, hjg, -, -⟩ := hjobIdentity
  obtain ⟨hans, hat, hag, hap, -⟩ := hbinding
  refine ⟨job', agent', hjobKeeps, hagentKeeps, ⟨run', by rw [hrunId]; exact hrun',
    by rw [hrunJob]; exact hjob'⟩, by rw [hagentId]; exact hagent', ?_, ?_, ?_, ?_, ?_,
    h.stands hsuited.stands hjobKeeps, hsuited.allows.kept hagentKeeps,
    hsuited.admits.kept hagentKeeps⟩
  · rw [hens, het, heg, hjns, hjt, hjg]
    exact hsuited.identity
  · rw [hans, hjns, hsuited.namespaceId]
  · rw [hat, hjt, hsuited.targetId]
  · rw [hag, hjg, hsuited.targetGenerationId]
  · rw [hap, hjowner, hsuited.principalId]

end Db.Preserves

section Step

variable {platform : Platform} {codec : Codec} {env : Env} {db db' : Db}

theorem kept_of_view {κ ρ β : Type} [DecidableEq κ] {t t' : Table κ ρ} (view : ρ → β) {k : κ}
    (h : (t'.get? k).map view = (t.get? k).map view) {row : ρ} (hrow : t.get? k = some row) :
    ∃ row', t'.get? k = some row' ∧ view row' = view row := by
  rw [hrow] at h
  exact Option.map_eq_some_iff.mp h

theorem Settled.preserves {asked : JobSubmission → Grouping → Prop}
    (h : Settled codec asked db db') : db.Preserves db' := by
  have hcatalog := h.catalog
  simp only [Db.catalog, Prod.mk.injEq] at hcatalog
  obtain ⟨hnamespaces, -, hgenerations, hpartitions, -⟩ := hcatalog
  have hagents : db'.agents = db.agents := congrArg AgentTables.agents h.agentTables
  exact ⟨fun n name hname => hnamespaces ▸ hname, fun g row hrow => hgenerations ▸ hrow,
    fun p row hrow => hpartitions ▸ hrow, h.workload, h.job,
    fun r row hrow => kept_of_view _ (h.run r) hrow,
    fun e row hrow => kept_of_view _ (h.columns e) hrow,
    fun a row hrow => ⟨row, hagents ▸ hrow, .refl row⟩⟩

theorem Dispatches.preserves {ids : DispatchIds} {c : AssignmentCandidate}
    (h : Dispatches codec env ids c job db db')
    (hjob : db.jobs.get? c.jobId = some job) : db.Preserves db' := by
  obtain ⟨executionRow, -, -, -, hexecutions⟩ := h.execution
  obtain ⟨job', hkeeps, -, hjobs⟩ := h.job
  have hrun := h.run
  have hrunFree := h.runFree
  have hexecutionFree := h.executionFree
  obtain ⟨runs, executions, assignments, jobs, policies, audit, outbox, rfl⟩ := h.rest
  refine ⟨fun _ _ h => h, fun _ _ h => h, fun _ _ h => h, fun _ _ h => h, ?_, ?_, ?_,
    fun _ row hrow => ⟨row, hrow, .refl row⟩⟩
  · intro j row hrow
    rw [hjobs]
    split
    · rename_i hj
      rw [hj, hjob] at hrow
      cases hrow
      exact ⟨job', rfl, hkeeps⟩
    · exact ⟨row, hrow, .refl row⟩
  · intro r row hrow
    have hne : r ≠ ids.runId := fun heq => by
      cases hrunFree.symm.trans (heq ▸ hrow)
    exact ⟨row, by rw [hrun, if_neg hne]; exact hrow, rfl⟩
  · intro e row hrow
    have hne : e ≠ ids.executionId := fun heq => by
      cases hexecutionFree.symm.trans (heq ▸ hrow)
    exact ⟨row, by rw [hexecutions, if_neg hne]; exact hrow, rfl⟩

theorem Apart.preserves {scheme : TokenScheme} (h : Apart scheme env db db')
    (hcatalog : CatalogStep env db db') : db.Preserves db' := by
  have hworkloads : db'.workloads = db.workloads := congrArg WorkTables.workloads h.work
  have hjobs : db'.jobs = db.jobs := congrArg WorkTables.jobs h.work
  have hruns : db'.runs = db.runs := congrArg WorkTables.runs h.work
  have hexecutions : db'.executions = db.executions := congrArg WorkTables.executions h.work
  exact ⟨fun _ _ => hcatalog.namespaceName, fun _ _ => hcatalog.generation,
    fun _ _ => hcatalog.partition,
    fun _ _ hrow => hworkloads ▸ hrow, fun _ row hrow => ⟨row, hjobs ▸ hrow, .refl row⟩,
    fun _ row hrow => ⟨row, hruns ▸ hrow, rfl⟩, fun _ row hrow => ⟨row, hexecutions ▸ hrow, rfl⟩,
    fun _ _ hrow => h.agents.kept hrow⟩

/-- A call settles jobs, dispatches one of them, or is apart from them. -/
theorem ServiceCall.apply_cases (call : ServiceCall) (platform : Platform) (db : Db) :
    (∃ operation, call.operation = .work operation ∧
      Settled platform.codec operation.asks db (call.apply platform db)) ∨
    (∃ ids c job policy target generation workload agent,
      c.Chosen platform.codec call.env db job policy target generation workload agent ∧
      Dispatches platform.codec call.env ids c job db (call.apply platform db)) ∨
    Apart platform.tokens call.env db (call.apply platform db) := by
  obtain ⟨operation, hoperation, happly⟩ | hapart := call.apart platform db
  · rw [happly]
    by_cases hdispatch : ∃ ids, operation = .reconcileOneAssignment ids
    · obtain ⟨ids, rfl⟩ := hdispatch
      obtain ⟨found, hok⟩ | hsame := atomically_cases
        (reconcileOneAssignment platform.codec call.env ids) db
      · obtain ⟨-, hsame⟩ | ⟨c, job, policy, target, generation, workload, agent, -,
          hchosen, hdispatches⟩ := reconcileOneAssignment_cases hok
        · exact Or.inl ⟨_, hoperation, .of_eq hsame⟩
        · exact Or.inr (Or.inl ⟨ids, c, job, policy, target, generation, workload, agent,
            hchosen, hdispatches⟩)
      · exact Or.inl ⟨_, hoperation, .of_eq hsame⟩
    · exact Or.inl ⟨operation, hoperation, Settled.apply platform.codec call.env operation db
        fun ids h => hdispatch ⟨ids, h⟩⟩
  · exact Or.inr (Or.inr hapart)

theorem ServiceCall.preserves (call : ServiceCall) (platform : Platform) (db : Db) :
    db.Preserves (call.apply platform db) := by
  obtain ⟨operation, -, hsettled⟩ | ⟨ids, c, job, _, _, _, _, _, hchosen,
    hdispatches⟩ | hapart := call.apply_cases platform db
  · exact hsettled.preserves
  · exact hdispatches.preserves hchosen.jobRow
  · exact hapart.preserves (call.catalogStep platform db)

theorem ServiceCall.new_execution (call : ServiceCall) (platform : Platform) {db : Db} {e : Id}
    (hrow : (call.apply platform db).executions.get? e = some row)
    (hnone : db.executions.get? e = none) :
    ∃ ids c job policy target generation workload agent,
      c.Chosen platform.codec call.env db job policy target generation workload agent ∧
      Dispatches platform.codec call.env ids c job db (call.apply platform db) ∧
      row.identity = ⟨c.namespaceId, ids.runId, c.agentId, c.targetId, c.targetGenerationId⟩ := by
  obtain ⟨operation, -, hsettled⟩ | ⟨ids, c, job, policy, target, generation, workload, agent,
    hchosen, hdispatches⟩ | hapart := call.apply_cases platform db
  · have hview := hsettled.columns e
    rw [hrow, hnone] at hview
    cases hview
  · obtain ⟨new, hidentity, -, -, hexecutions⟩ := hdispatches.execution
    have hnew := hrow
    rw [hexecutions] at hnew
    split at hnew
    · cases hnew
      exact ⟨ids, c, job, policy, target, generation, workload, agent, hchosen, hdispatches,
        hidentity⟩
    · cases hnone.symm.trans hnew
  · have hsame : (call.apply platform db).executions = db.executions :=
      congrArg WorkTables.executions hapart.work
    rw [hsame] at hrow
    cases hnone.symm.trans hrow

/-- Jobs stand where they may, and executions run there. -/
structure Db.Suited (db : Db) (codec : Codec) : Prop where
  reporting : db.Reporting
  job : ∀ j row, db.jobs.get? j = some row →
    ∃ generation workload, row.Stands codec db generation workload
  execution : ∀ e row, db.executions.get? e = some row →
    ∃ job agent generation workload, row.Suited codec db job agent generation workload

namespace Db.Suited

theorem empty : Db.empty.Suited codec :=
  ⟨.empty, fun _ _ h => (by cases h), fun _ _ h => (by cases h)⟩

theorem of_new (h : db.Suited codec) (hpreserves : db.Preserves db') (hreporting : db'.Reporting)
    (hjob : ∀ j row', db'.jobs.get? j = some row' → db.jobs.get? j = none →
      ∃ generation workload, row'.Stands codec db' generation workload)
    (hexecution : ∀ e row', db'.executions.get? e = some row' → db.executions.get? e = none →
      ∃ job agent generation workload, row'.Suited codec db' job agent generation workload) :
    db'.Suited codec := by
  refine ⟨hreporting, ?_, ?_⟩
  · intro j row' hrow'
    cases hrow : db.jobs.get? j with
    | none => exact hjob j row' hrow' hrow
    | some row =>
        obtain ⟨row'', hrow'', hkeeps⟩ := hpreserves.job j row hrow
        cases hrow''.symm.trans hrow'
        obtain ⟨generation, workload, hstands⟩ := h.job j row hrow
        exact ⟨generation, workload, hpreserves.stands hstands hkeeps⟩
  · intro e row' hrow'
    cases hrow : db.executions.get? e with
    | none => exact hexecution e row' hrow' hrow
    | some row =>
        obtain ⟨row'', hrow'', hidentity⟩ := hpreserves.execution e row hrow
        cases hrow''.symm.trans hrow'
        obtain ⟨job, agent, generation, workload, hsuited⟩ := h.execution e row hrow
        obtain ⟨job', agent', -, -, hsuited'⟩ := hpreserves.suited hsuited hidentity
        exact ⟨job', agent', generation, workload, hsuited'⟩

theorem stands_placed (hcodec : codec.RequiresEqually) {row : JobRow} {submission : JobSubmission}
    (hdecoded : submission.Decoded codec) (hplaced : row.Placed codec submission db) :
    ∃ generation workload, row.Stands codec db generation workload := by
  obtain ⟨workload, hworkload, hsame⟩ := hplaced.workload
  obtain ⟨generation, hgeneration, hmeets⟩ := hplaced.generation
  have hrequires : codec.requirements workload.document =
      codec.requirements submission.workloadDocument := by
    obtain hsame | hsame := hsame
    · rw [hsame]
    · exact hcodec _ _ hsame
  exact ⟨generation, workload, hworkload, hgeneration, hrequires ▸ hmeets.offers hdecoded,
    hplaced.partition⟩

theorem suited_dispatched (h : db.Suited codec) {ids : DispatchIds} {c : AssignmentCandidate}
    {policy : PolicyRow} {target : TargetRow} {agent : AgentRow}
    (hchosen : c.Chosen codec env db job policy target generation workload agent)
    (hdispatches : Dispatches codec env ids c job db db') (hidentity : row.identity =
      ⟨c.namespaceId, ids.runId, c.agentId, c.targetId, c.targetGenerationId⟩) :
    ∃ job agent generation workload, row.Suited codec db' job agent generation workload := by
  have hpreserves := hdispatches.preserves hchosen.jobRow
  obtain ⟨job', hkeeps, -, hjobs⟩ := hdispatches.job
  obtain ⟨generation', workload', hstands⟩ := h.job c.jobId job hchosen.jobRow
  cases hchosen.generationRow.symm.trans hstands.generationRow
  cases hchosen.workloadRow.symm.trans hstands.workloadRow
  obtain ⟨allowing, hallowing, hallows⟩ := h.reporting.allowed c.agentId agent hchosen.agentRow
  rw [hchosen.serves.targetGenerationId] at hallowing
  cases hchosen.generationRow.symm.trans hallowing
  have hjobIdentity := hkeeps.identity
  simp only [JobRow.identity, JobIdentity.mk.injEq] at hjobIdentity
  obtain ⟨hjns, hjowner, hjt, hjg, -, -⟩ := hjobIdentity
  simp only [ExecutionRow.identity, ExecutionIdentity.mk.injEq] at hidentity
  obtain ⟨hens, hrunId, hagentId, het, heg⟩ := hidentity
  have hserves := hchosen.serves
  refine ⟨job', agent, generation, workload, ⟨_, by rw [hrunId, hdispatches.run, if_pos rfl],
    by rw [hjobs, if_pos rfl]⟩, ?_, ?_, ?_, ?_, ?_, ?_, hpreserves.stands hstands hkeeps, hallows,
    hserves.operatingSystem, hserves.architecture⟩
  · obtain ⟨_, _, _, _, _, _, _, rfl⟩ := hdispatches.rest
    rw [hagentId]
    exact hchosen.agentRow
  · rw [hens, het, heg, hjns, hjt, hjg]
    exact ⟨hchosen.namespaceId, hchosen.targetId, hchosen.targetGenerationId⟩
  · rw [hserves.namespaceId, hjns]
  · rw [hserves.targetId, hjt]
  · rw [hserves.targetGenerationId, hjg]
  · rw [hserves.principalId, hjowner]

theorem step (h : db.Suited platform.codec) (hcodec : platform.codec.RequiresEqually)
    {call : ServiceCall} (hdecoded : call.Decoded platform.codec) :
    (call.apply platform db).Suited platform.codec := by
  have hpreserves := call.preserves platform db
  have hreporting := h.reporting.step (call.agentStep platform db) hpreserves.generation
  refine h.of_new hpreserves hreporting ?_ ?_
  · intro j row' hrow' hnone
    obtain ⟨operation, hoperation, hsettled⟩ | ⟨ids, c, job, _, _, _, _, _, hchosen,
      hdispatches⟩ | hapart := call.apply_cases platform db
    · obtain ⟨submission, grouping, hasked, -, -, hplaced⟩ := hsettled.admitted j row' hrow' hnone
      exact stands_placed hcodec (hdecoded operation hoperation submission grouping hasked) hplaced
    · obtain ⟨job', -, -, hjobs⟩ := hdispatches.job
      rw [hjobs] at hrow'
      split at hrow'
      · rename_i hj
        cases hnone.symm.trans (hj ▸ hchosen.jobRow)
      · cases hnone.symm.trans hrow'
    · have hsame : (call.apply platform db).jobs = db.jobs :=
        congrArg WorkTables.jobs hapart.work
      rw [hsame] at hrow'
      cases hnone.symm.trans hrow'
  · intro e row' hrow' hnone
    obtain ⟨ids, c, job, _, _, _, _, _, hchosen, hdispatches, hidentity⟩ :=
      call.new_execution platform hrow' hnone
    exact h.suited_dispatched hchosen hdispatches hidentity

end Db.Suited

end Step

/-- What a dispatch found: an active target, no hold, and an agent that could serve, by its
latest report. -/
structure ExecutionRow.DispatchedFrom (execution : ExecutionRow) (codec : Codec) (env : Env)
    (db : Db) (job : JobRow) (target : TargetRow) (generation : GenerationRow)
    (workload : WorkloadRow) (agent : AgentRow) : Prop where
  targetRow : db.targets.get? execution.targetId = some target
  generationRow : db.generations.get? execution.targetGenerationId = some generation
  workloadRow : db.workloads.get? (job.namespaceId, job.workloadDigest) = some workload
  agentRow : db.agents.get? execution.agentId = some agent
  active : target.state = .active
  unheld : db.recovery.reconciliationHold = false
  serves : db.Serves codec env job generation workload execution.agentId agent
  latest : db.LatestReport execution.agentId agent

namespace Service

variable {platform : Platform} {db db' : Db}

theorem Later.preserves (h : Later platform db db') : db.Preserves db' :=
  h.invariant (P := fun d => db.Preserves d) (.refl db) fun _ call _ hpreserves _ hstep =>
    hpreserves.trans (hstep ▸ call.preserves platform _)

/-- The stores that arise while submissions come from the decoder. -/
abbrev DecodedArises (platform : Platform) (db : Db) : Prop :=
  Transition.Reaches (Step platform) (fun _ call => call.Decoded platform.codec) Db.empty db

theorem DecodedArises.suited (hcodec : platform.codec.RequiresEqually)
    (h : DecodedArises platform db) : db.Suited platform.codec :=
  h.invariant (P := fun d => d.Suited platform.codec) .empty
    fun _ _ _ hsuited hdecoded hstep => hstep ▸ hsuited.step hcodec hdecoded

/-- In every store that arises, every execution runs where it may and was dispatched from a
store in which it could be served, and it keeps running there in every later store. -/
theorem executions_suited (hcodec : platform.codec.RequiresEqually)
    (harises : DecodedArises platform db) :
    (∀ e row, db.executions.get? e = some row → ∃ job agent generation workload,
      row.Suited platform.codec db job agent generation workload ∧
      ∀ db', Later platform db db' → ∃ row' job' agent', db'.executions.get? e = some row' ∧
        row'.identity = row.identity ∧ job.Keeps job' ∧ agent.Keeps agent' ∧
        row'.Suited platform.codec db' job' agent' generation workload) ∧
    (∀ call db', Step platform db call db' → ∀ e row, db'.executions.get? e = some row →
      db.executions.get? e = none → ∃ run job target generation workload agent,
        db'.runs.get? row.runId = some run ∧ db.jobs.get? run.jobId = some job ∧
        row.DispatchedFrom platform.codec call.env db job target generation workload agent) := by
  have hsuited := harises.suited hcodec
  refine ⟨?_, ?_⟩
  · intro e row hrow
    obtain ⟨job, agent, generation, workload, hexecution⟩ := hsuited.execution e row hrow
    refine ⟨job, agent, generation, workload, hexecution, fun db' hlater => ?_⟩
    obtain ⟨row', hrow', hidentity⟩ := hlater.preserves.execution e row hrow
    obtain ⟨job', agent', hjob, hagent, hsuited'⟩ := hlater.preserves.suited hexecution hidentity
    exact ⟨row', job', agent', hrow', hidentity, hjob, hagent, hsuited'⟩
  · intro call db' hstep e row hrow hnone
    obtain rfl : call.apply platform db = db' := hstep
    obtain ⟨ids, c, job, policy, target, generation, workload, agent, hchosen, hdispatches,
      hidentity⟩ := call.new_execution platform hrow hnone
    simp only [ExecutionRow.identity, ExecutionIdentity.mk.injEq] at hidentity
    obtain ⟨-, hrunId, hagentId, htarget, hgeneration⟩ := hidentity
    refine ⟨_, job, target, generation, workload, agent,
      by rw [hrunId, hdispatches.run, if_pos rfl], hchosen.jobRow, ?_, ?_, hchosen.workloadRow, ?_,
      hchosen.active, hchosen.unheld, ?_, ?_⟩
    · rw [htarget, hchosen.targetId]
      exact hchosen.targetRow
    · rw [hgeneration, hchosen.targetGenerationId]
      exact hchosen.generationRow
    · rw [hagentId]
      exact hchosen.agentRow
    · rw [hagentId]
      exact hchosen.serves
    · rw [hagentId]
      exact hsuited.reporting.latest _ _ hchosen.agentRow

end Service

namespace Sample

def registration : AgentRegistration where
  agentVersion := "1.0"
  operatingSystem := "linux"
  architecture := "amd64"
  hostname := "node"
  executionUser := "user"
  executionBackends := [.slurm, .subprocess]
  runtimes := ["native"]
  capabilities := []
  targetGenerationId := 11
  protocolVersions := ["jobman/v1alpha1"]
  requestDigest := "sha256:" ++ String.ofList (List.replicate 64 '0')

def slurmSpec : TargetSpec :=
  { hostSpec "cluster" with
    kind := .slurm, executionBackend := .slurm, partitions := [⟨"batch", true⟩] }

def staffing : List ServiceCall :=
  [⟨env 0, .ensureBootstrapNamespace 1 "research"
      { policy with maxActiveJobs := 8, maxQueuedJobs := 8 }⟩,
    ⟨env 1, .createTarget authorization "create-target" "request" (targetDraw 1) slurmSpec⟩,
    ⟨env 2, .createEnrollmentToken (fun _ => some ("issuer", "subject"))
      (.ok ⟨⟨1, 2, false⟩, true⟩) authorization "research" "cluster" "create-token" "request" 50
      ⟨"issuer", "subject", "user", hour⟩⟩,
    ⟨env 3, .enrollAgent (tokens.derive "jme" 50) registration hour 5 6⟩]

def nativeSubmission (name : String) : JobSubmission :=
  { submission name with
    runtimeKind := "native", workloadDocument := Sample.workload "native" none }

def sweep : CollectionSubmission where
  namespaceName := "research"
  name := "sweep"
  labels := []
  maxActive := 1
  failurePolicy := .continueAll
  arrayPolicy := .require
  requestDigest := "request"
  requestDocument := "{}"
  items := [nativeSubmission "first", nativeSubmission "second"]

def nativePair : GraphSubmission :=
  { graph with nodes := [nativeSubmission "first", nativeSubmission "second"] }

def sweepIds : GroupIds := ⟨21, fun i => 30 + i, fun i => 130 + i⟩

def submitPair : ServiceCall :=
  ⟨env 4, .work (.submitGraph authorization "submit-pair" graphIds nativePair)⟩

def submitSweep : ServiceCall :=
  ⟨env 5, .work (.submitCollection authorization "submit-sweep" sweepIds sweep)⟩

def submitSole : ServiceCall :=
  ⟨env 6, .work (.submitJob authorization "submit-sole" 20 21 (nativeSubmission "sole"))⟩

def dispatch (now : Time) (id : Id) : ServiceCall :=
  ⟨env now, .work (.reconcileOneAssignment ⟨id, id + 1, id + 2, id + 3⟩)⟩

def dispatching : List ServiceCall := [dispatch 7 40, dispatch 8 50, dispatch 9 60]

def staffed : Db := Service.run platform Db.empty staffing

def paired : Db := submitPair.apply platform staffed

def swept : Db := submitSweep.apply platform paired

def awaiting : Db := submitSole.apply platform swept

def dispatched : Db := Service.run platform awaiting dispatching

theorem requiresEqually : codec.RequiresEqually :=
  fun _ _ h => congrArg codec.requirements (of_decide_eq_true h)

theorem nativeSubmission_decoded (name : String) : (nativeSubmission name).Decoded codec := by
  have h : codec.requirements (Sample.workload "native" none) = ⟨some "native", [], [], []⟩ := by
    decide
  exact h

theorem native_decoded {submission : JobSubmission} {i : Nat}
    (h : [nativeSubmission "first", nativeSubmission "second"][i]? = some submission) :
    submission.Decoded codec := by
  have hmem := List.mem_of_getElem? h
  simp only [List.mem_cons, List.not_mem_nil, or_false] at hmem
  obtain rfl | rfl := hmem
  · exact nativeSubmission_decoded "first"
  · exact nativeSubmission_decoded "second"

theorem staffing_decoded : ∀ call ∈ staffing ++ dispatching, call.Decoded codec := by
  intro call hmem operation hoperation submission grouping hasks
  simp only [staffing, dispatching, List.cons_append, List.nil_append, List.mem_cons,
    List.not_mem_nil, or_false] at hmem
  obtain rfl | rfl | rfl | rfl | rfl | rfl | rfl := hmem <;> cases hoperation
  all_goals cases hasks

theorem dispatched_arises : Service.DecodedArises platform dispatched := by
  have hcalls := staffing_decoded
  simp only [List.mem_append, or_imp, forall_and] at hcalls
  have hpair : submitPair.Decoded codec := by
    rintro _ ⟨⟩ _ _ ⟨i, hi, -⟩
    exact native_decoded hi
  have hsweep : submitSweep.Decoded codec := by
    rintro _ ⟨⟩ _ _ ⟨i, hi, -⟩
    exact native_decoded hi
  have hsole : submitSole.Decoded codec := by
    rintro _ ⟨⟩ _ _ ⟨rfl, -⟩
    exact nativeSubmission_decoded "sole"
  have hstaffed : Service.DecodedArises platform staffed :=
    Service.reaches_run platform Db.empty hcalls.1
  have hawaiting : Service.DecodedArises platform awaiting :=
    ((hstaffed.tail submitPair hpair rfl).tail submitSweep hsweep rfl).tail submitSole hsole rfl
  exact hawaiting.trans (Service.reaches_run platform awaiting hcalls.2)

theorem dispatched_later : Service.Arises platform dispatched :=
  dispatched_arises.mono fun _ _ _ => trivial

end Sample

/-- The first node of the sample keeps running where it was dispatched to, and the job gets
an agent that serves it. -/
theorem executions_suited_dispatched :
    (∃ row job agent generation workload, Sample.dispatched.executions.get? 41 = some row ∧
      row.Suited Sample.codec Sample.dispatched job agent generation workload ∧
      ∀ db', Service.Later Sample.platform Sample.dispatched db' → ∃ row' job' agent',
        db'.executions.get? 41 = some row' ∧
        row'.Suited Sample.codec db' job' agent' generation workload) ∧
    ∃ row job target generation workload agent,
      ((Sample.dispatch 10 70).apply Sample.platform Sample.dispatched).executions.get? 71 =
        some row ∧
      Sample.dispatched.jobs.get? 20 = some job ∧
      row.DispatchedFrom Sample.codec (Sample.env 10) Sample.dispatched job target generation
        workload agent := by
  have h := Service.executions_suited Sample.requiresEqually Sample.dispatched_arises
  have hrows : (Sample.dispatched.executions.get? 41).isSome = true ∧
      (Sample.dispatched.executions.get? 71).isNone ∧
      let db := (Sample.dispatch 10 70).apply Sample.platform Sample.dispatched
      ((db.executions.get? 71).bind fun row => (db.runs.get? row.runId).map RunRow.jobId) =
        some 20 := by decide +kernel
  obtain ⟨hsome, hnew⟩ := hrows
  refine ⟨?_, ?_⟩
  · obtain ⟨row, hrow⟩ := Option.isSome_iff_exists.mp hsome
    obtain ⟨job, agent, generation, workload, hsuited, hlater⟩ := h.1 41 row hrow
    refine ⟨row, job, agent, generation, workload, hrow, hsuited, fun db' hdb' => ?_⟩
    obtain ⟨row', job', agent', hrow', -, -, -, hsuited'⟩ := hlater db' hdb'
    exact ⟨row', job', agent', hrow', hsuited'⟩
  · obtain ⟨row, hrow, hrun⟩ := Option.bind_eq_some_iff.mp hnew.2
    obtain ⟨run, hrun, hjobId⟩ := Option.map_eq_some_iff.mp hrun
    obtain ⟨run', job, target, generation, workload, agent, hrun', hjob, hdispatched⟩ :=
      h.2 (Sample.dispatch 10 70) _ rfl 71 row hrow (Option.isNone_iff_eq_none.mp hnew.1)
    cases hrun.symm.trans hrun'
    exact ⟨row, job, target, generation, workload, agent, hrow, hjobId ▸ hjob, hdispatched⟩

end JobmanControl
