import JobmanControl.Catalog.Roster

/-!
Where work is placed. A job is admitted to a generation that offers what its workload
requires, an agent is enrolled for a generation that allows its machine, and a dispatch
brings the two together. Generations, the machines of agents and the columns of a job that
say where it stands are never rewritten, so an execution stays where it may be however its
target is rolled, drained or reported on.
-/

namespace JobmanControl

open Relational Lifecycle Lifecycle.Board

/-! What the calls other than a dispatch leave alone. -/

def Db.NodesHoused (db : Db) : Prop :=
  ∀ k node, db.graphNodes.get? k = some node → ∃ job, db.jobs.get? node.jobId = some job

/-- New members of groups were asked for, and new nodes are jobs. -/
structure MembersSettled (asked : JobSubmission → Grouping → Prop) (db db' : Db) : Prop where
  items : ∀ c, (∀ submission i, ¬asked submission (.collection c i)) →
    membersOf db'.collectionItems c = membersOf db.collectionItems c
  nodes : ∀ g, (∀ submission i, ¬asked submission (.graph g i none)) →
    membersOf db'.graphNodes g = membersOf db.graphNodes g
  housed : db.NodesHoused → db'.NodesHoused

theorem MembersSettled.of_same {asked : JobSubmission → Grouping → Prop} {db db' : Db}
    (h : (db'.collectionItems, db'.graphNodes) = (db.collectionItems, db.graphNodes))
    (hjobs : ∀ j row, db.jobs.get? j = some row → ∃ row', db'.jobs.get? j = some row') :
    MembersSettled asked db db' := by
  simp only [Prod.mk.injEq] at h
  refine ⟨fun c _ => by rw [h.1], fun g _ => by rw [h.2], fun hhoused k node hnode => ?_⟩
  rw [h.2] at hnode
  obtain ⟨row, hrow⟩ := hhoused k node hnode
  exact hjobs _ row hrow

/-- The executions stay, jobs stay where they were placed, and new jobs were asked for. -/
structure Settled (codec : Codec) (asked : JobSubmission → Grouping → Prop) (db db' : Db) :
    Prop where
  catalog : db'.catalog = db.catalog
  agentTables : db'.agentTables = db.agentTables
  policies : db'.policies = db.policies
  recovery : db'.recovery = db.recovery
  run : ∀ r, (db'.runs.get? r).map RunRow.identity = (db.runs.get? r).map RunRow.identity
  columns : ∀ e, (db'.executions.get? e).map ExecutionRow.columns =
    (db.executions.get? e).map ExecutionRow.columns
  workload : ∀ k row, db.workloads.get? k = some row → db'.workloads.get? k = some row
  job : ∀ j row, db.jobs.get? j = some row → ∃ row', db'.jobs.get? j = some row' ∧ row.Keeps row'
  admitted : ∀ j row', db'.jobs.get? j = some row' → db.jobs.get? j = none →
    ∃ submission grouping, asked submission grouping ∧
      grouping.collectionId = row'.grouping.collectionId ∧
      grouping.collectionIndex = row'.grouping.collectionIndex ∧ row'.Placed codec submission db'
  members : MembersSettled asked db db'

variable {codec : Codec} {env : Env} {asked : JobSubmission → Grouping → Prop} {db db' : Db}

/-- A job stays placed while its workload is kept and the catalog stands. -/
theorem JobRow.Placed.kept {row row' : JobRow} {submission : JobSubmission}
    (h : row.Placed codec submission db) (hkeeps : row.Keeps row')
    (hcatalog : db'.catalog = db.catalog)
    (hworkload : ∀ k row, db.workloads.get? k = some row → db'.workloads.get? k = some row) :
    row'.Placed codec submission db' := by
  obtain ⟨hnamespace, hgeneration, hpartition, hdigest⟩ := hkeeps.columns
  simp only [Db.catalog, Prod.mk.injEq] at hcatalog
  obtain ⟨-, -, hgenerations, hpartitions, -⟩ := hcatalog
  refine ⟨?_, ?_, ?_⟩
  · obtain ⟨stored, hstored, hsame⟩ := h.workload
    rw [hnamespace, hdigest]
    exact ⟨stored, hworkload _ _ hstored, hsame⟩
  · rw [hgenerations, hgeneration]
    exact h.generation
  · unfold Db.HasPartition
    rw [hpartitions, hgeneration, hpartition]
    exact h.partition

theorem ExecutionRow.Follows.columns {row row' : ExecutionRow} (h : row.Follows row') :
    row'.columns = row.columns := by
  cases h <;> rfl

theorem ExecutionRow.identity_eq_of_columns {row row' : ExecutionRow}
    (h : row'.columns = row.columns) : row'.identity = row.identity := by
  simp only [ExecutionRow.columns, Prod.mk.injEq] at h
  simp only [ExecutionRow.identity, h]

namespace Settled

def fixed (db : Db) : (Table Id String × Table Id TargetRow × Table Id GenerationRow ×
    Table Id PartitionRow × Table Id Time) × AgentTables × Table Id PolicyRow × RecoveryRow :=
  (db.catalog, db.agentTables, db.policies, db.recovery)

theorem of_jobs (hfixed : fixed db' = fixed db)
    (hrun : ∀ r, (db'.runs.get? r).map RunRow.identity = (db.runs.get? r).map RunRow.identity)
    (hcolumns : ∀ e, (db'.executions.get? e).map ExecutionRow.columns =
      (db.executions.get? e).map ExecutionRow.columns)
    (hworkload : ∀ k row, db.workloads.get? k = some row → db'.workloads.get? k = some row)
    (hjobs : db'.jobs = db.jobs)
    (hmembers : MembersSettled asked db db') : Settled codec asked db db' := by
  simp only [fixed, Prod.mk.injEq] at hfixed
  obtain ⟨hcatalog, hagents, hpolicies, hrecovery⟩ := hfixed
  refine ⟨hcatalog, hagents, hpolicies, hrecovery, hrun, hcolumns, hworkload,
    fun j row h => ⟨row, by rw [hjobs]; exact h, .refl row⟩, ?_, hmembers⟩
  intro j row' hrow' hnone
  rw [hjobs] at hrow'
  cases hnone.symm.trans hrow'

theorem of_same (hfixed : fixed db' = fixed db)
    (hwork : (db'.runs, db'.executions, db'.workloads, db'.jobs, db'.collectionItems,
      db'.graphNodes) = (db.runs, db.executions, db.workloads, db.jobs, db.collectionItems,
      db.graphNodes)) : Settled codec asked db db' := by
  simp only [Prod.mk.injEq] at hwork
  obtain ⟨hruns, hexecutions, hworkloads, hjobs, hitems, hnodes⟩ := hwork
  exact of_jobs hfixed (fun r => by rw [hruns]) (fun e => by rw [hexecutions])
    (fun k row h => by rw [hworkloads]; exact h) hjobs
    (.of_same (by rw [hitems, hnodes]) fun j row h => ⟨row, by rw [hjobs]; exact h⟩)

theorem refl (db : Db) : Settled codec asked db db :=
  of_same rfl rfl

theorem of_eq (h : db' = db) : Settled codec asked db db' := by
  rw [h]
  exact refl db

theorem trans {a b c : Db} (h : Settled codec asked a b) (h' : Settled codec asked b c) :
    Settled codec asked a c := by
  refine ⟨h'.catalog.trans h.catalog, h'.agentTables.trans h.agentTables,
    h'.policies.trans h.policies, h'.recovery.trans h.recovery,
    fun r => (h'.run r).trans (h.run r), fun e => (h'.columns e).trans (h.columns e),
    fun k row hrow => h'.workload k row (h.workload k row hrow), ?_, ?_,
    fun c hc => (h'.members.items c hc).trans (h.members.items c hc),
    fun g hg => (h'.members.nodes g hg).trans (h.members.nodes g hg),
    h'.members.housed ∘ h.members.housed⟩
  · intro j row hrow
    obtain ⟨mid, hmid, hkeeps⟩ := h.job j row hrow
    obtain ⟨new, hnew, hkeeps'⟩ := h'.job j mid hmid
    exact ⟨new, hnew, hkeeps.trans hkeeps'⟩
  · intro j row' hrow' hnone
    cases hmid : b.jobs.get? j with
    | none => exact h'.admitted j row' hrow' hmid
    | some mid =>
        obtain ⟨submission, grouping, hasked, hc, hi, hplaced⟩ := h.admitted j mid hmid hnone
        obtain ⟨new, hnew, hkeeps⟩ := h'.job j mid hmid
        cases hnew.symm.trans hrow'
        refine ⟨submission, grouping, hasked, hc.trans ?_, hi.trans ?_,
          hplaced.kept hkeeps h'.catalog h'.workload⟩
        · exact congrArg JobIdentity.collectionId hkeeps.identity.symm
        · exact congrArg JobPlacement.collectionIndex hkeeps.placement.symm

theorem keeps_recordJobLifecycle (codec : Codec) (env : Env) (db : Db) (id : Id)
    (old new : JobRow) (h : old.Keeps new) :
    old.Keeps (db.recordJobLifecycle codec env id old new) := by
  refine h.trans ⟨identity_recordJobLifecycle codec env db id old new, ?_⟩
  unfold Db.recordJobLifecycle Db.stampCompleted Db.stampStarted
  repeat' split
  all_goals rfl

theorem updateJob {id : Id} {f : JobRow → Except StoreError JobRow}
    (hf : ∀ job job', f job = .ok job' → job.Keeps job')
    (h : db.updateJob codec env id f = .ok db') : Settled codec asked db db' := by
  cases hold : db.jobs.get? id with
  | none =>
      simp only [Db.updateJob, hold] at h
      cases h
      exact refl db
  | some old =>
      obtain ⟨changed, outbox, hchanged, rfl⟩ := Db.updateJob_some h hold
      have hkeeps := keeps_recordJobLifecycle codec env db id old changed (hf old changed hchanged)
      have hjob : ∀ j row, db.jobs.get? j = some row → ∃ row',
          (db.jobs.modify id fun _ => db.recordJobLifecycle codec env id old changed).get? j =
            some row' ∧ row.Keeps row' := by
        intro j row hrow
        rw [Table.get?_modify]
        split
        · rename_i hj
          subst hj
          cases hold.symm.trans hrow
          exact ⟨_, by rw [hrow]; rfl, hkeeps⟩
        · exact ⟨row, hrow, .refl row⟩
      refine ⟨rfl, rfl, rfl, rfl, fun _ => rfl, fun _ => rfl, fun _ _ h => h, hjob, ?_,
        .of_same rfl fun j row hrow => (hjob j row hrow).imp fun _ h => h.1⟩
      · intro j row' hrow' hnone
        dsimp only at hrow'
        rw [Table.get?_modify, hnone] at hrow'
        split at hrow' <;> cases hrow'

theorem footprint (codec : Codec) (env : Env) (asked : JobSubmission → Grouping → Prop) :
    KeyedFootprint codec env asked (Settled codec asked) where
  refl := refl
  trans := trans
  updateJob := updateJob
  updateRun hf h := by
    have hroster := roster_updateRun hf h
    obtain ⟨runs, rfl⟩ := Db.updateRun_eq h
    exact of_jobs rfl (congrFun (congrArg Roster.run hroster)) (fun _ => rfl)
      (fun _ _ h => h) rfl (.of_same rfl fun _ row h => ⟨row, h⟩)
  insertOutbox h _ := by
    obtain ⟨outbox, rfl⟩ := insertOutbox_ok h
    exact of_same rfl rfl
  touchCollection _ _ := of_same rfl rfl
  touchGraph _ _ := of_same rfl rfl
  updateExecutions {db t} h := by
    have hview := h.view ExecutionRow.columns fun _ _ h => h.columns
    exact of_jobs rfl (fun _ => rfl) (congrFun hview) (fun _ _ h => h) rfl
      (.of_same rfl fun _ row h => ⟨row, h⟩)
  updateAssignments _ := of_same rfl rfl
  elsewhere h := of_same
    (congrArg (fun w => (w.catalog, w.agentTables, w.policies, w.recovery)) h)
    (congrArg (fun w => (w.runs, w.executions, w.workloads, w.jobs, w.collectionItems,
      w.graphNodes)) h)
  insertWorkload {db key row t} h := by
    exact of_jobs rfl (fun _ => rfl) (fun _ => rfl) (fun _ _ => Table.insert?_keeps h) rfl
      (.of_same rfl fun _ row h => ⟨row, h⟩)
  insertCollection _ := of_same rfl rfl
  insertGraph _ := of_same rfl rfl
  insertJob {db id row t} hfree hget hadmitted := by
    have hjob : ∀ j old, db.jobs.get? j = some old → t.get? j = some old := by
      intro j old hold
      have hne : j ≠ id := by
        rintro rfl
        cases hfree.symm.trans hold
      rw [hget, if_neg hne]
      exact hold
    refine ⟨rfl, rfl, rfl, rfl, fun _ => rfl, fun _ => rfl, fun _ _ h => h,
      fun j old hold => ⟨old, hjob j old hold, .refl old⟩, ?_,
      .of_same rfl fun j old hold => ⟨old, hjob j old hold⟩⟩
    · intro j row' hrow' hnone
      dsimp only at hrow'
      rw [hget] at hrow'
      split at hrow'
      · cases hrow'
        obtain ⟨submission, hasked, hplaced⟩ := hadmitted.placed
        exact ⟨submission, row.grouping, hasked, rfl, rfl, hplaced.workload, hplaced.generation,
          hplaced.partition⟩
      · cases hnone.symm.trans hrow'
  insertItem {db c i submission row t} hasked h := by
    refine of_jobs rfl (fun _ => rfl) (fun _ => rfl) (fun _ _ h => h) rfl
      ⟨fun c' hc' => ?_, fun _ _ => rfl, id⟩
    refine congrArg (orderBy _) (Table.select_insert h (decide_eq_false ?_))
    rintro rfl
    exact hc' submission i hasked
  insertNode {db g i submission row t} hasked hjob h := by
    refine of_jobs rfl (fun _ => rfl) (fun _ => rfl) (fun _ _ h => h) rfl
      ⟨fun _ _ => rfl, fun g' hg' => ?_, fun hhoused k node hnode => ?_⟩
    · refine congrArg (orderBy _) (Table.select_insert h (decide_eq_false ?_))
      rintro rfl
      exact hg' submission i hasked
    · dsimp only at hnode
      rw [Table.get?_insert h] at hnode
      split at hnode
      · cases hnode
        exact hjob
      · exact hhoused k node hnode
  writeKeys := of_same rfl rfl

theorem report (codec : Codec) (env : Env) : ReportFootprint codec env (Settled codec asked) :=
  { (footprint codec env asked).toWorkFootprint with
    writeEvents := of_same rfl rfl
    writeArtifacts := of_same rfl rfl
    reportExecution := fun h => of_jobs rfl (fun _ => rfl) h (fun _ _ h => h) rfl
      (.of_same rfl fun _ row h => ⟨row, h⟩) }

theorem apply (codec : Codec) (env : Env) (operation : Operation) (db : Db)
    (hdispatch : ∀ ids, operation ≠ .reconcileOneAssignment ids) :
    Settled codec operation.asks db (operation.apply codec env db) := by
  have hcall : ∀ op : Operation, (∀ ids, op ≠ .reconcileOneAssignment ids) →
      (∀ configuration, op ≠ .configure configuration) →
      Settled codec op.asks db (Call.apply codec ⟨env, op⟩ db) := fun op hop hconfigure =>
    Call.apply_keyed ⟨env, op⟩ (footprint codec env _) db
      (fun ids _ _ h => absurd h (hop ids))
      (fun configuration h => absurd h (hconfigure configuration))
      fun _ _ _ _ h => (report codec env).recordExecutionEvent h
  cases operation with
  | configure configuration => exact refl db
  | _ => exact hcall _ hdispatch fun _ h => by cases h

end Settled

/-! What a dispatch writes. -/

/-- The effective execution that is stored was built from the candidate. -/
def ExecutionRow.BuiltFrom (row : ExecutionRow) (codec : Codec) (e : Id)
    (c : AssignmentCandidate) : Prop :=
  ∃ deliveryId document digest,
    buildAssignmentDocument codec c row.runId e deliveryId = .ok (document, digest) ∧
    row.effectiveSpec = codec.encodeEffectiveExecution document.document.effectiveExecution

/-- The rows of one dispatch. -/
structure Dispatches (codec : Codec) (env : Env) (ids : DispatchIds) (c : AssignmentCandidate)
    (job : JobRow) (db db' : Db) : Prop where
  run : ∀ r, db'.runs.get? r = if r = ids.runId then
    some ⟨c.namespaceId, c.jobId, 1, .live .assigning, .run⟩ else db.runs.get? r
  runFree : db.runs.get? ids.runId = none
  execution : ∃ row : ExecutionRow, row.identity =
      ⟨c.namespaceId, ids.runId, c.agentId, c.targetId, c.targetGenerationId⟩ ∧
    row.BuiltFrom codec ids.executionId c ∧ row.createdAt = env.now ∧
    ∀ e, db'.executions.get? e = if e = ids.executionId then some row else db.executions.get? e
  executionFree : db.executions.get? ids.executionId = none
  job : ∃ job', job.Keeps job' ∧ job'.progress = .live .assigning ∧
    ∀ j, db'.jobs.get? j = if j = c.jobId then some job' else db.jobs.get? j
  policy : ∀ n, db'.policies.get? n = if n = c.namespaceId then
    (db.policies.get? n).map (fun policy => { policy with lastDispatchedAt := some env.now })
    else db.policies.get? n
  rest : ∃ runs executions assignments jobs policies audit outbox, db' = { db with
    runs := runs, executions := executions, assignments := assignments, jobs := jobs
    policies := policies, audit := audit, outbox := outbox }

theorem assignJob_rows {jobId : Id} {job : JobRow} (h : assignJob codec env db jobId = .ok db')
    (hjob : db.jobs.get? jobId = some job) :
    ∃ job' jobs outbox, job.Keeps job' ∧ job'.progress = .live .assigning ∧
      (∀ j, jobs.get? j = if j = jobId then some job' else db.jobs.get? j) ∧
      db' = { db with jobs := jobs, outbox := outbox } := by
  simp only [assignJob, bind_ok_iff] at h
  obtain ⟨-, -, -, -, hupdate⟩ := h
  obtain ⟨changed, outbox, hchanged, rfl⟩ := Db.updateJob_some hupdate hjob
  have hkeeps : job.Keeps changed := by
    cases hchanged
    exact ⟨rfl, rfl⟩
  have hprogress : changed.progress = .live .assigning := by
    cases hchanged
    rfl
  refine ⟨db.recordJobLifecycle codec env jobId job changed, _, outbox,
    Settled.keeps_recordJobLifecycle codec env db jobId job changed hkeeps,
    (Db.progress_recordJobLifecycle codec env db jobId job changed).trans hprogress,
    fun j => ?_, rfl⟩
  rw [Table.get?_modify]
  split
  · rename_i hj
    rw [hj, hjob]
    rfl
  · rfl

theorem offerAssignment_dispatches {ids : DispatchIds} {c : AssignmentCandidate} {job : JobRow}
    (h : offerAssignment codec env ids c db = .ok db') (hjob : db.jobs.get? c.jobId = some job) :
    Dispatches codec env ids c job db db' := by
  simp only [offerAssignment, insertRun, insertExecution, insertAssignment, bind_ok_iff,
    need_ok_iff, pure_ok_iff] at h
  obtain ⟨⟨document, digest⟩, hdocument, _, ⟨_, -, runs, hruns, rfl⟩, _,
    ⟨_, -, executions, hexecutions, rfl⟩, _, ⟨_, -, assignments, hassignments, rfl⟩, db₄, hassign,
    hout⟩ := h
  obtain ⟨job', jobs, outbox, hkeeps, hprogress, hjobs, rfl⟩ := assignJob_rows hassign hjob
  obtain ⟨outbox', rfl⟩ := insertOutbox_ok hout
  exact ⟨Table.get?_insert hruns, Table.insert?_free hruns,
    ⟨_, rfl, ⟨_, document, digest, hdocument, rfl⟩, rfl, Table.get?_insert hexecutions⟩,
    (Table.insert?_free hexecutions), ⟨job', hkeeps, hprogress, hjobs⟩,
    fun n => Table.get?_modify _ _ _ _, runs, executions, assignments, jobs, _, _, _, rfl⟩

/-- A dispatch finds nothing to do, or it dispatches the candidate it claimed. -/
theorem reconcileOneAssignment_cases {ids : DispatchIds} {found : Bool}
    (h : reconcileOneAssignment codec env ids db = .ok (found, db')) :
    (found = false ∧ db' = db) ∨ ∃ c job policy target generation workload agent,
      db.claimAssignmentCandidate codec env = some c ∧
      c.Chosen codec env db job policy target generation workload agent ∧
      Dispatches codec env ids c job db db' := by
  unfold reconcileOneAssignment at h
  split at h
  · cases h
    exact Or.inl ⟨rfl, rfl⟩
  · rename_i c hclaim
    simp only [bind_ok_iff, pure_ok_iff, Prod.mk.injEq] at h
    obtain ⟨_, hoffer, rfl, rfl⟩ := h
    obtain ⟨j, job, policy, hjob, hpolicy, hcandidate⟩ := claimAssignmentCandidate_some hclaim
    obtain ⟨target, generation, workload, agent, hchosen⟩ :=
      candidate_chosen hjob hpolicy hcandidate
    exact Or.inr ⟨c, job, policy, target, generation, workload, agent, hclaim, hchosen,
      offerAssignment_dispatches hoffer hchosen.jobRow⟩

end JobmanControl
