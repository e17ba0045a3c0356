import JobmanControl.Store.Execution

/-!
What a report of an agent does, statement by statement, and what it leaves in the row
of its execution: the phase the report is about, one revision more, and its own number
as the last one.
-/

namespace JobmanControl

open Relational

variable {db db' db₁ db₂ db₃ db₄ : Db} {codec : Codec} {env : Env} {event : ExecutionObservation}
  {identity : AgentIdentity} {f : JobRow → Except StoreError JobRow} {id r j : Id}
  {view : GroupView} {generation : GenerationRow}

/-- The statements of a report that was not recorded before, in their order. -/
structure Recording (codec : Codec) (env : Env) (view : GroupView) (identity : AgentIdentity)
    (event : ExecutionObservation) (execution : ExecutionRow) (run : RunRow)
    (generation : GenerationRow) (db db₁ db₂ db₃ db₄ db' : Db) : Prop where
  execution_row : db.executions.get? event.executionId = some execution
  sameNamespace : execution.namespaceId = identity.namespaceId
  run_row : db.runs.get? execution.runId = some run
  checked : checkExecutionEvent codec db execution generation event = .ok ()
  inserted : insertExecutionEvent env identity event db = .ok db₁
  published : (if completionEvent event.type then
    (codec.publishedArtifacts event.document).foldlM (insertArtifact identity event) db₁
    else .ok db₁) = .ok db₂
  transition : recordTransition codec env event execution.runId run.jobId db₂ = .ok db₃
  group : completeGroup codec env view identity.namespaceId run.jobId event db₃ = .ok db₄
  confidence : db₄.updateExecution event.executionId (fun execution => .ok
    { execution with confidence := observedConfidence event }) = .ok db'

variable {old : ExecutionRow}

/-- A report is a replay of a recorded one, or it is recorded. -/
theorem recordExecutionEvent_ok {replayed : Bool}
    (h : recordExecutionEvent codec env view identity event db = .ok (replayed, db')) :
    (replayed = true ∧ db' = db ∧ ∃ existing, db.events.get? event.eventId = some existing ∧
        existing.executionId = event.executionId ∧
        existing.documentDigest = event.documentDigest) ∨
      (replayed = false ∧ ∃ execution run generation db₁ db₂ db₃ db₄,
        Recording codec env view identity event execution run generation
          db db₁ db₂ db₃ db₄ db') := by
  simp only [recordExecutionEvent, bind_ok_iff, need_ok_iff, ensure_ok_iff] at h
  obtain ⟨execution, hexecution, _, hns, run, hrun, generation, -, _, -, h⟩ := h
  split at h
  · rename_i existing hprior
    simp only [bind_ok_iff, ensure_ok_iff, pure_ok_iff, Prod.mk.injEq] at h
    obtain ⟨_, hdigest, hreplayed, hdb⟩ := h
    rw [Option.filter_eq_some_iff] at hprior
    exact Or.inl ⟨hreplayed.symm, hdb.symm, existing, hprior.1, of_decide_eq_true hprior.2, hdigest⟩
  · simp only [bind_ok_iff] at h
    obtain ⟨_, hchecked, db₁, hinserted, h⟩ := h
    refine Or.inr ?_
    by_cases hcompletes : completionEvent event.type = true
    · simp only [if_pos hcompletes, bind_ok_iff, pure_ok_iff, Prod.mk.injEq] at h
      obtain ⟨db₂, hpublished, db₃, htransition, db₄, hgroup, db₅, hconfidence, hreplayed, rfl⟩ := h
      exact ⟨hreplayed.symm, execution, run, generation, db₁, db₂, db₃, db₄, hexecution, hns, hrun,
        hchecked, hinserted, by rw [if_pos hcompletes]; exact hpublished, htransition, hgroup,
        hconfidence⟩
    · simp only [if_neg hcompletes, ok_bind, bind_ok_iff, pure_ok_iff, Prod.mk.injEq] at h
      obtain ⟨db₃, htransition, db₄, hgroup, db₅, hconfidence, hreplayed, rfl⟩ := h
      exact ⟨hreplayed.symm, execution, run, generation, db₁, db₁, db₃, db₄, hexecution, hns, hrun,
        hchecked, hinserted, by rw [if_neg hcompletes], htransition, hgroup, hconfidence⟩

def ExecutionRow.columns (row : ExecutionRow) : Id × Id × Id × Id × Id × String × String :=
  (row.namespaceId, row.runId, row.agentId, row.targetId, row.targetGenerationId,
    row.effectiveSpecDigest, row.effectiveSpec)

def reportedProgress (codec : Codec) (event : ExecutionObservation)
    (progress : Progress ExecutionPhase ExecutionResult) :
    Option (Progress ExecutionPhase ExecutionResult) :=
  match event.type with
  | .processStarted => some (.live .running)
  | .schedulerUncertain | .schedulerSubmitted | .schedulerObserved =>
      some (if event.schedulerState = some .running then .live .running else progress)
  | .processCompleted | .schedulerCompleted => do
      let outcome ← event.outcome
      let result ← codec.processResult event.document
      pure (.terminal ⟨outcome, .reported result⟩)

/-- What a report makes of the row of its execution. -/
structure ExecutionRow.Reports (codec : Codec) (event : ExecutionObservation)
    (old new : ExecutionRow) : Prop where
  columns : new.columns = old.columns
  progress : reportedProgress codec event old.progress = some new.progress
  revision : new.revision = old.revision + 1
  sequence : new.lastEventSequence = event.sequence
  confidence : new.confidence = old.confidence

/-- A report rewrites its execution, a run and a job. -/
def ReportWritten (codec : Codec) (event : ExecutionObservation) (old : ExecutionRow)
    (db db' : Db) : Prop :=
  ∃ new runs jobs outbox, old.Reports codec event new ∧ db' = { db with
    executions := db.executions.modify event.executionId fun _ => new
    runs := runs, jobs := jobs, outbox := outbox }

theorem Db.updateJob_some {old : JobRow} (h : db.updateJob codec env id f = .ok db')
    (hold : db.jobs.get? id = some old) :
    ∃ changed outbox, f old = .ok changed ∧ db' = { db with
      jobs := db.jobs.modify id fun _ => db.recordJobLifecycle codec env id old changed
      outbox := outbox } := by
  simp only [Db.updateJob, hold, bind_ok_iff, Db.enqueueMonitoringTerminalTransition] at h
  obtain ⟨changed, hf, hrest⟩ := h
  split at hrest
  · split at hrest
    · cases hrest
      exact ⟨changed, _, hf, rfl⟩
    · cases hrest
  · cases hrest
    exact ⟨changed, db.outbox, hf, rfl⟩

theorem Db.updateJob_eq (h : db.updateJob codec env id f = .ok db') :
    ∃ jobs outbox, db' = { db with jobs := jobs, outbox := outbox } := by
  cases hold : db.jobs.get? id with
  | none =>
      simp only [Db.updateJob, hold] at h
      cases h
      exact ⟨db.jobs, db.outbox, rfl⟩
  | some old =>
      obtain ⟨changed, outbox, -, rfl⟩ := Db.updateJob_some h hold
      exact ⟨_, outbox, rfl⟩

theorem Db.updateRun_eq {f : RunRow → Except StoreError RunRow} (h : db.updateRun id f = .ok db') :
    ∃ runs, db' = { db with runs := runs } := by
  unfold Db.updateRun at h
  split at h
  · cases h
    exact ⟨db.runs, rfl⟩
  · simp only [bind_ok_iff, pure_ok_iff] at h
    obtain ⟨_, -, rfl⟩ := h
    exact ⟨_, rfl⟩

theorem Db.updateExecution_eq {f : ExecutionRow → Except StoreError ExecutionRow}
    (h : db.updateExecution id f = .ok db') (hold : db.executions.get? id = some old) :
    ∃ new, f old = .ok new ∧
      db' = { db with executions := db.executions.modify id fun _ => new } := by
  simp only [Db.updateExecution, hold, bind_ok_iff, pure_ok_iff] at h
  obtain ⟨new, hf, rfl⟩ := h
  exact ⟨new, hf, rfl⟩

theorem reports_of_updates {f : ExecutionRow → Except StoreError ExecutionRow}
    {g : RunRow → Except StoreError RunRow} {k : JobRow → Except StoreError JobRow}
    (hold : db.executions.get? event.executionId = some old)
    (hexecution : db.updateExecution event.executionId f = .ok db₁)
    (hrun : db₁.updateRun r g = .ok db₂) (hjob : db₂.updateJob codec env j k = .ok db')
    (hf : ∀ new, f old = .ok new → old.Reports codec event new) :
    ReportWritten codec event old db db' := by
  obtain ⟨new, hnew, rfl⟩ := Db.updateExecution_eq hexecution hold
  obtain ⟨runs, rfl⟩ := Db.updateRun_eq hrun
  obtain ⟨jobs, outbox, rfl⟩ := Db.updateJob_eq hjob
  exact ⟨new, runs, jobs, outbox, hf new hnew, rfl⟩

theorem recordScheduler_reports (hold : db.executions.get? event.executionId = some old)
    (hprogress : reportedProgress codec event old.progress =
      some (if event.schedulerState = some .running then .live .running else old.progress))
    (h : recordScheduler codec env event r j db = .ok db') :
    ReportWritten codec event old db db' := by
  simp only [recordScheduler, bind_ok_iff] at h
  obtain ⟨scheduler, -, db₁, hexecution, h⟩ := h
  by_cases hrunning : event.schedulerState = some .running
  · simp only [hrunning, if_true, bind_ok_iff] at hexecution h
    obtain ⟨db₂, hrun, hjob⟩ := h
    refine reports_of_updates hold hexecution hrun hjob ?_
    intro new hnew
    simp only [bind_ok_iff, Progress.enter_ok_iff, pure_ok_iff] at hnew
    obtain ⟨_, ⟨-, rfl⟩, rfl⟩ := hnew
    exact ⟨rfl, by rw [hprogress, if_pos hrunning], rfl, rfl, rfl⟩
  · simp only [if_neg hrunning] at hexecution h
    obtain ⟨new, hnew, rfl⟩ := Db.updateExecution_eq hexecution hold
    obtain ⟨jobs, outbox, rfl⟩ := Db.updateJob_eq h
    have hreports : old.Reports codec event new := by
      cases hnew
      exact ⟨rfl, by rw [hprogress, if_neg hrunning], rfl, rfl, rfl⟩
    exact ⟨new, db.runs, jobs, outbox, hreports, rfl⟩

theorem recordCompleted_reports {outcome : Outcome}
    (hold : db.executions.get? event.executionId = some old)
    (hprogress : ∀ result, codec.processResult event.document = some result →
      reportedProgress codec event old.progress = some (.terminal ⟨outcome, .reported result⟩))
    (h : recordCompleted codec env event r j outcome db = .ok db') :
    ReportWritten codec event old db db' := by
  simp only [recordCompleted, finishWork, bind_ok_iff, need_ok_iff] at h
  obtain ⟨result, hresult, db₁, hexecution, db₂, hrun, hjob⟩ := h
  refine reports_of_updates hold hexecution hrun hjob ?_
  intro new hnew
  split at hnew
  · simp only [bind_ok_iff, pure_ok_iff] at hnew
    obtain ⟨_, -, rfl⟩ := hnew
    exact ⟨rfl, hprogress result hresult, rfl, rfl, rfl⟩
  · cases hnew
    exact ⟨rfl, hprogress result hresult, rfl, rfl, rfl⟩

/-- The switch on the event type writes the execution as the report says, its run and its
job. -/
theorem recordTransition_reports (hold : db.executions.get? event.executionId = some old)
    (h : recordTransition codec env event r j db = .ok db') :
    ReportWritten codec event old db db' := by
  unfold recordTransition at h
  cases htype : event.type with
  | processStarted =>
      simp only [htype, recordProcessStarted, enterRunning, bind_ok_iff] at h
      obtain ⟨db₁, hexecution, db₂, hrun, hjob⟩ := h
      refine reports_of_updates hold hexecution hrun hjob ?_
      intro new hnew
      simp only [bind_ok_iff, Progress.enter_ok_iff, pure_ok_iff] at hnew
      obtain ⟨_, ⟨-, rfl⟩, rfl⟩ := hnew
      exact ⟨rfl, by simp [reportedProgress, htype], rfl, rfl, rfl⟩
  | schedulerUncertain | schedulerSubmitted | schedulerObserved =>
      simp only [htype] at h
      exact recordScheduler_reports hold (by simp [reportedProgress, htype]) h
  | processCompleted | schedulerCompleted =>
      simp only [htype, bind_ok_iff, need_ok_iff] at h
      obtain ⟨outcome, houtcome, hcompleted⟩ := h
      refine recordCompleted_reports hold ?_ hcompleted
      intro result hresult
      simp [reportedProgress, htype, houtcome, hresult]

section Recording

variable {execution : ExecutionRow} {run : RunRow}

theorem insertArtifacts_eq (l : List PublishedArtifact)
    (h : l.foldlM (insertArtifact identity event) db = .ok db') :
    ∃ artifacts, db' = { db with artifacts := artifacts } := by
  refine foldlM_ok_induction
    (P := fun d => ∃ artifacts, d = { db with artifacts := artifacts }) l ?_
    ⟨db.artifacts, rfl⟩ h
  rintro d artifact d' - ⟨artifacts, rfl⟩ hstep
  simp only [insertArtifact, bind_ok_iff, pure_ok_iff] at hstep
  obtain ⟨_, -, _, -, artifacts', -, rfl⟩ := hstep
  exact ⟨artifacts', rfl⟩

/-- What stands in the tables when the group of the execution is looked at. -/
theorem Recording.before_group
    (h : Recording codec env view identity event execution run generation db db₁ db₂ db₃ db₄ db') :
    ∃ new events artifacts runs jobs outbox, execution.Reports codec event new ∧
      db₃ = { db with
        events := events, artifacts := artifacts
        executions := db.executions.modify event.executionId fun _ => new
        runs := runs, jobs := jobs, outbox := outbox } := by
  have hinserted := h.inserted
  simp only [insertExecutionEvent, bind_ok_iff, pure_ok_iff] at hinserted
  obtain ⟨_, -, events, -, hdb₁⟩ := hinserted
  obtain ⟨artifacts, hdb₂⟩ : ∃ artifacts, db₂ = { db₁ with artifacts := artifacts } := by
    have hpublished := h.published
    split at hpublished
    · exact insertArtifacts_eq _ hpublished
    · cases hpublished
      exact ⟨db₁.artifacts, rfl⟩
  have hrow : db₂.executions.get? event.executionId = some execution := by
    rw [hdb₂, ← hdb₁]
    exact h.execution_row
  obtain ⟨new, runs, jobs, outbox, hreports, hdb₃⟩ := recordTransition_reports hrow h.transition
  subst hdb₁ hdb₂ hdb₃
  exact ⟨new, events, artifacts, runs, jobs, outbox, hreports, rfl⟩

theorem checkExecutionEvent_ok
    (h : checkExecutionEvent codec db execution generation event = .ok ()) :
    event.sequence = execution.lastEventSequence + 1 ∧
      validEventTransition execution.progress event.type = true := by
  simp only [checkExecutionEvent, bind_ok_iff, ensure_ok_iff] at h
  obtain ⟨_, hsequence, _, -, _, hvalid, -⟩ := h
  exact ⟨hsequence, hvalid⟩

end Recording

end JobmanControl
