import JobmanControl.Lifecycle.Persistence
import JobmanControl.Store.Report

/-!
The board of a store, and what each statement of a transaction does to it. The
lifecycle stamps, revisions of other rows, audit rows and idempotency records
are not on the board, so statements that write only those leave it alone.
-/

namespace JobmanControl

open Relational Lifecycle Function

variable {db db' db₁ db₂ : Db} {env : Env} {codec : Codec} {J : JobFacts} {j id r e a : Id}
  {R : RunFacts} {E : ExecutionFacts} {A : AssignmentFacts}

def JobRow.facts (job : JobRow) : JobFacts :=
  ⟨job.namespaceId, job.progress, job.desiredState, job.grouping, job.revision⟩

def RunRow.facts (run : RunRow) : RunFacts :=
  ⟨run.namespaceId, run.jobId, run.progress, run.desiredState⟩

def ExecutionRow.facts (execution : ExecutionRow) : ExecutionFacts :=
  ⟨execution.namespaceId, execution.runId, execution.progress⟩

def AssignmentState.decision : AssignmentState → Decision
  | .offered => .offered
  | .accepted _ _ _ => .accepted
  | .rejected _ _ => .rejected
  | .withdrawn => .withdrawn

def AssignmentRow.facts (assignment : AssignmentRow) : AssignmentFacts :=
  ⟨assignment.executionId, assignment.state.decision⟩

def ExecutionEventRow.facts (event : ExecutionEventRow) : EventFacts :=
  ⟨event.executionId, completionEvent event.eventType⟩

def DesiredActionRow.facts (action : DesiredActionRow) : ActionFacts :=
  ⟨action.executionId, action.state⟩

def PolicyRow.limit (policy : PolicyRow) : NamespaceLimit :=
  ⟨policy.maxActiveJobs, policy.maxQueuedJobs⟩

def CollectionRow.limit (collection : CollectionRow) : CollectionLimit :=
  ⟨collection.maxActive, collection.arrayMode⟩

def OutboxRow.notice (row : OutboxRow) : Option Notice :=
  match row.message with
  | .jobTerminal transition => some ⟨transition.jobId, transition.outcome, transition.jobRevision⟩
  | _ => none

variable {f : JobRow → Except StoreError JobRow}

namespace Db

def board (db : Db) : Board where
  job j := (db.jobs.get? j).map JobRow.facts
  run r := (db.runs.get? r).map RunRow.facts
  execution e := (db.executions.get? e).map ExecutionRow.facts
  assignment a := (db.assignments.get? a).map AssignmentRow.facts
  event v := (db.events.get? v).map ExecutionEventRow.facts
  action n := (db.actions.get? n).map DesiredActionRow.facts
  policy n := (db.policies.get? n).map PolicyRow.limit
  collection c := (db.collections.get? c).map CollectionRow.limit
  graph g := (db.graphs.get? g).map (·.unsatisfiedPolicy)
  graphLimit g := (db.graphs.get? g).map (·.maxActive)
  node k := db.graphNodes.get? k
  edge key := db.graphEdges.get? key
  notice n := (db.outbox.get? n).bind OutboxRow.notice

theorem board_job_eq_some :
    db.board.job j = some J ↔ ∃ job, db.jobs.get? j = some job ∧ job.facts = J :=
  Option.map_eq_some_iff

theorem board_job_eq_none :
    db.board.job j = none ↔ db.jobs.get? j = none :=
  Option.map_eq_none_iff

theorem board_run_eq_some :
    db.board.run r = some R ↔ ∃ run, db.runs.get? r = some run ∧ run.facts = R :=
  Option.map_eq_some_iff

theorem board_execution_eq_some :
    db.board.execution e = some E ↔ ∃ row, db.executions.get? e = some row ∧ row.facts = E :=
  Option.map_eq_some_iff

theorem board_assignment_eq_some :
    db.board.assignment a = some A ↔ ∃ row, db.assignments.get? a = some row ∧ row.facts = A :=
  Option.map_eq_some_iff

theorem board_job {job : JobRow} (h : db.jobs.get? j = some job) :
    db.board.job j = some job.facts :=
  board_job_eq_some.mpr ⟨job, h, rfl⟩

theorem board_run {run : RunRow} (h : db.runs.get? r = some run) :
    db.board.run r = some run.facts :=
  board_run_eq_some.mpr ⟨run, h, rfl⟩

theorem board_execution {row : ExecutionRow} (h : db.executions.get? e = some row) :
    db.board.execution e = some row.facts :=
  board_execution_eq_some.mpr ⟨row, h, rfl⟩

theorem board_assignment {row : AssignmentRow} (h : db.assignments.get? a = some row) :
    db.board.assignment a = some row.facts :=
  board_assignment_eq_some.mpr ⟨row, h, rfl⟩

theorem facts_recordJobLifecycle (codec : Codec) (env : Env) (db : Db) (id : Id)
    (old new : JobRow) : (db.recordJobLifecycle codec env id old new).facts = new.facts := by
  have hstarted : ∀ new, (db.stampStarted codec env id old new).facts = new.facts := by
    intro new
    unfold stampStarted
    split
    · split <;> rfl
    · rfl
  have hcompleted : ∀ new, (db.stampCompleted env id old new).facts = new.facts := by
    intro new
    unfold stampCompleted
    split
    · split <;> rfl
    · rfl
  rw [recordJobLifecycle, hcompleted, hstarted]

theorem progress_recordJobLifecycle (codec : Codec) (env : Env) (db : Db) (id : Id)
    (old new : JobRow) : (db.recordJobLifecycle codec env id old new).progress = new.progress :=
  congrArg JobFacts.progress (facts_recordJobLifecycle codec env db id old new)

theorem revision_recordJobLifecycle (codec : Codec) (env : Env) (db : Db) (id : Id)
    (old new : JobRow) : (db.recordJobLifecycle codec env id old new).revision = new.revision :=
  congrArg JobFacts.revision (facts_recordJobLifecycle codec env db id old new)

theorem map_get?_modify {κ ρ β : Type} [DecidableEq κ] (view : ρ → β) {t : Table κ ρ} {id : κ}
    {old : ρ} (f : ρ → ρ) (hold : t.get? id = some old) :
    (fun k => ((t.modify id f).get? k).map view) =
      update (fun k => (t.get? k).map view) id (some (view (f old))) := by
  funext k
  by_cases hk : k = id
  · subst hk
    simp [hold]
  · simp [Table.get?_modify_of_ne _ _ hk, update_of_ne hk]

theorem map_get?_rewrite {κ ρ β : Type} [DecidableEq κ] (view : ρ → β) {t : Table κ ρ} {id : κ}
    {old new : ρ} (hold : t.get? id = some old) (hview : view new = view old) :
    (fun k => ((t.modify id fun _ => new).get? k).map view) = fun k => (t.get? k).map view := by
  rw [map_get?_modify view (fun _ => new) hold, update_eq_self_iff, hold, hview]
  rfl

theorem map_get?_insert {κ ρ β : Type} [DecidableEq κ] (view : ρ → β) {t t' : Table κ ρ} {id : κ}
    {row : ρ} (h : t.insert? id row = some t') :
    (fun k => (t'.get? k).map view) =
      update (fun k => (t.get? k).map view) id (some (view row)) := by
  funext k
  rw [Table.get?_insert h]
  by_cases hk : k = id
  · subst hk
    simp
  · simp [hk]

theorem board_modify_job {old : JobRow} (f : JobRow → JobRow) (hold : db.jobs.get? id = some old) :
    (({ db with jobs := db.jobs.modify id f } : Db).board) =
      db.board.putJob id (f old).facts := by
  simp only [board, Board.putJob, map_get?_modify JobRow.facts _ hold]

theorem board_modify_run {old : RunRow} (f : RunRow → RunRow) (hold : db.runs.get? id = some old) :
    (({ db with runs := db.runs.modify id f } : Db).board) =
      { db.board with run := update db.board.run id (some (f old).facts) } := by
  simp only [board, map_get?_modify RunRow.facts _ hold]

theorem board_modify_execution {old : ExecutionRow} (f : ExecutionRow → ExecutionRow)
    (hold : db.executions.get? id = some old) :
    (({ db with executions := db.executions.modify id f } : Db).board) =
      { db.board with execution := update db.board.execution id (some (f old).facts) } := by
  simp only [board, map_get?_modify ExecutionRow.facts _ hold]

theorem board_modify_assignment {old : AssignmentRow} (f : AssignmentRow → AssignmentRow)
    (hold : db.assignments.get? id = some old) :
    (({ db with assignments := db.assignments.modify id f } : Db).board) =
      { db.board with
        assignment := update db.board.assignment id (some (f old).facts) } := by
  simp only [board, map_get?_modify AssignmentRow.facts _ hold]

theorem graphs_updateJob (h : db.updateJob codec env id f = .ok db') : db'.graphs = db.graphs := by
  obtain ⟨jobs, outbox, rfl⟩ := updateJob_eq h
  rfl

theorem jobs_updateJob {old : JobRow} (h : db.updateJob codec env id f = .ok db')
    (hold : db.jobs.get? id = some old) :
    ∃ changed new, f old = .ok changed ∧ new.facts = changed.facts ∧
      db'.jobs = db.jobs.modify id fun _ => new := by
  obtain ⟨changed, outbox, hf, rfl⟩ := updateJob_some h hold
  exact ⟨changed, _, hf, facts_recordJobLifecycle codec env db id old changed, rfl⟩

/-- An `UPDATE` of a job that does not end it. -/
theorem board_updateJob_live (h : db.updateJob codec env id f = .ok db')
    (hJ : db.board.job id = some J) (hlive : ∀ old changed, old.facts = J → f old = .ok changed →
      old.progress.isTerminal = true ∨ changed.progress.isTerminal = false) :
    ∃ old changed, old.facts = J ∧ f old = .ok changed ∧
      db'.board = db.board.putJob id changed.facts := by
  obtain ⟨old, hold, hfacts⟩ := board_job_eq_some.mp hJ
  simp only [updateJob, hold, bind_ok_iff] at h
  obtain ⟨changed, hf, hrest⟩ := h
  refine ⟨old, changed, hfacts, hf, ?_⟩
  have hprog := progress_recordJobLifecycle codec env db id old changed
  simp only [enqueueMonitoringTerminalTransition] at hrest
  split at hrest
  · rename_i hold' hnew
    rw [hprog] at hnew
    obtain hterm | hterm := hlive old changed hfacts hf
    · rw [hold'] at hterm
      cases hterm
    · rw [hnew] at hterm
      cases hterm
  · cases hrest
    rw [board_modify_job _ hold, facts_recordJobLifecycle]

/-- An `UPDATE` that ends a job announces it under a fresh identity. -/
theorem board_updateJob_terminal {p : JobPhase} (h : db.updateJob codec env id f = .ok db')
    (hJ : db.board.job id = some J) (hp : J.progress = .live p)
    (hterm : ∀ old changed, old.facts = J → f old = .ok changed →
      changed.progress.isTerminal = true) :
    ∃ old changed n o, old.facts = J ∧ f old = .ok changed ∧ changed.progress = .terminal o ∧
      db.board.notice n = none ∧
      db'.board = (db.board.putJob id changed.facts).putNotice n ⟨id, o, changed.revision⟩ := by
  obtain ⟨old, hold, hfacts⟩ := board_job_eq_some.mp hJ
  simp only [updateJob, hold, bind_ok_iff] at h
  obtain ⟨changed, hf, hrest⟩ := h
  obtain ⟨o, ho⟩ := (Progress.isTerminal_iff _).mp (hterm old changed hfacts hf)
  have hprog := progress_recordJobLifecycle codec env db id old changed
  have hrev := revision_recordJobLifecycle codec env db id old changed
  have holdp : old.progress = .live p := by
    rw [← hp, ← hfacts]
    rfl
  refine ⟨old, changed, env.eventId id, o, hfacts, hf, ho, ?_⟩
  simp only [enqueueMonitoringTerminalTransition, holdp, hprog, ho, hrev] at hrest
  split at hrest
  · rename_i outbox hinsert
    cases hrest
    have hfree := Table.insert?_free hinsert
    refine ⟨by simp [board, hfree], ?_⟩
    have hnotice : (fun n => (outbox.get? n).bind OutboxRow.notice) =
        update (fun n => (db.outbox.get? n).bind OutboxRow.notice) (env.eventId id)
          (some ⟨id, o, changed.revision⟩) := by
      funext n
      rw [Table.get?_insert hinsert]
      by_cases hn : n = env.eventId id
      · subst hn
        simp [OutboxRow.notice]
      · simp [hn]
    have hjob := board_modify_job (fun _ => db.recordJobLifecycle codec env id old changed) hold
    rw [facts_recordJobLifecycle] at hjob
    have hboard := congrArg
      (fun b : Board => { b with notice := (fun n => (outbox.get? n).bind OutboxRow.notice) }) hjob
    refine hboard.trans ?_
    simp only [Board.putNotice, Board.putJob, hnotice, board]
  · cases hrest

theorem board_updateRun {f : RunRow → Except StoreError RunRow} (h : db.updateRun id f = .ok db')
    (hR : db.board.run id = some R) :
    ∃ old new, old.facts = R ∧ f old = .ok new ∧
      db'.board = { db.board with run := update db.board.run id (some new.facts) } := by
  obtain ⟨old, hold, hfacts⟩ := board_run_eq_some.mp hR
  simp only [updateRun, hold, bind_ok_iff, pure_ok_iff] at h
  obtain ⟨new, hf, rfl⟩ := h
  exact ⟨old, new, hfacts, hf, board_modify_run _ hold⟩

theorem board_updateExecution {f : ExecutionRow → Except StoreError ExecutionRow}
    (h : db.updateExecution id f = .ok db') (hE : db.board.execution id = some E) :
    ∃ old new, old.facts = E ∧ f old = .ok new ∧
      db'.board =
        { db.board with execution := update db.board.execution id (some new.facts) } := by
  obtain ⟨old, hold, hfacts⟩ := board_execution_eq_some.mp hE
  simp only [updateExecution, hold, bind_ok_iff, pure_ok_iff] at h
  obtain ⟨new, hf, rfl⟩ := h
  exact ⟨old, new, hfacts, hf, board_modify_execution _ hold⟩

/-- Rewriting columns of an execution that the board does not show. -/
theorem board_updateExecution_keep {f : ExecutionRow → Except StoreError ExecutionRow}
    (h : db.updateExecution id f = .ok db')
    (hf : ∀ old new, f old = .ok new → new.facts = old.facts) : db'.board = db.board := by
  cases hold : db.executions.get? id with
  | none =>
      simp only [updateExecution, hold] at h
      cases h
      rfl
  | some row =>
      obtain ⟨old, new, hfacts, hok, hboard⟩ := board_updateExecution h (board_execution hold)
      have hE : db.board.execution id = some new.facts := by
        rw [hf old new hok, hfacts]
        exact board_execution hold
      rw [hboard, update_eq_self_iff.mpr hE.symm]

/-- Any other outbox message leaves the notices as they are. -/
theorem board_insertOutbox {namespaceId : Id} {message : OutboxMessage}
    (h : db.insertOutbox env id namespaceId message = .ok db')
    (hmsg : ∀ t, message ≠ .jobTerminal t) : db'.board = db.board := by
  simp only [insertOutbox, bind_ok_iff, need_ok_iff, pure_ok_iff] at h
  obtain ⟨outbox, hinsert, rfl⟩ := h
  have hfree := Table.insert?_free hinsert
  have hnotice : (fun n => (outbox.get? n).bind OutboxRow.notice) =
      fun n => (db.outbox.get? n).bind OutboxRow.notice := by
    funext n
    rw [Table.get?_insert hinsert]
    by_cases hn : n = id
    · subst hn
      rw [hfree]
      cases message <;> simp_all [OutboxRow.notice]
    · simp [hn]
  simp only [board, hnotice]

@[simp] theorem board_appendAudit (db : Db) (row : AuditRow) :
    (db.appendAudit row).board = db.board := rfl

section Work

variable {fE : ExecutionRow → Except StoreError ExecutionRow}
  {fR : RunRow → Except StoreError RunRow} {fJ : JobRow → Except StoreError JobRow}

/-- The three updates of dispatched work that stays unfinished. -/
theorem board_updateWork_live (hb : db.board.Bundle j J r R e E a A)
    (hE : db.updateExecution e fE = .ok db₁) (hR : db₁.updateRun r fR = .ok db₂)
    (hJ : db₂.updateJob codec env j fJ = .ok db')
    (hlive : ∀ old changed, old.facts = J → fJ old = .ok changed →
      changed.progress.isTerminal = false) :
    ∃ oldE newE oldR newR oldJ newJ, oldE.facts = E ∧ fE oldE = .ok newE ∧ oldR.facts = R ∧
      fR oldR = .ok newR ∧ oldJ.facts = J ∧ fJ oldJ = .ok newJ ∧
      db'.board = db.board.putBundle j newJ.facts r newR.facts e newE.facts a A := by
  obtain ⟨oldE, newE, hoE, hnE, hboard₁⟩ := board_updateExecution hE hb.execution
  obtain ⟨oldR, newR, hoR, hnR, hboard₂⟩ := board_updateRun (R := R) hR
    (by rw [hboard₁]; exact hb.run)
  obtain ⟨oldJ, newJ, hoJ, hnJ, hboard₃⟩ := board_updateJob_live (J := J) hJ
    (by rw [hboard₂, hboard₁]; exact hb.job) fun old changed ho hc =>
      Or.inr (hlive old changed ho hc)
  refine ⟨oldE, newE, oldR, newR, oldJ, newJ, hoE, hnE, hoR, hnR, hoJ, hnJ, ?_⟩
  have hA : update db.board.assignment a (some A) = db.board.assignment :=
    update_eq_self_iff.mpr hb.assignment.symm
  rw [hboard₃, hboard₂, hboard₁, Board.putBundle, hA]
  rfl

/-- The three updates that finish dispatched work, and the notice of it. -/
theorem board_updateWork_terminal {p : JobPhase} (hb : db.board.Bundle j J r R e E a A)
    (hp : J.progress = .live p) (hE : db.updateExecution e fE = .ok db₁)
    (hR : db₁.updateRun r fR = .ok db₂) (hJ : db₂.updateJob codec env j fJ = .ok db')
    (hterm : ∀ old changed, old.facts = J → fJ old = .ok changed →
      changed.progress.isTerminal = true) :
    ∃ oldE newE oldR newR oldJ newJ n o, oldE.facts = E ∧ fE oldE = .ok newE ∧ oldR.facts = R ∧
      fR oldR = .ok newR ∧ oldJ.facts = J ∧ fJ oldJ = .ok newJ ∧ newJ.progress = .terminal o ∧
      db.board.notice n = none ∧
      db'.board = (db.board.putBundle j newJ.facts r newR.facts e newE.facts a A).putNotice n
        ⟨j, o, newJ.revision⟩ := by
  obtain ⟨oldE, newE, hoE, hnE, hboard₁⟩ := board_updateExecution hE hb.execution
  obtain ⟨oldR, newR, hoR, hnR, hboard₂⟩ := board_updateRun (R := R) hR
    (by rw [hboard₁]; exact hb.run)
  obtain ⟨oldJ, newJ, n, o, hoJ, hnJ, ho, hfree, hboard₃⟩ := board_updateJob_terminal (J := J) hJ
    (by rw [hboard₂, hboard₁]; exact hb.job) hp hterm
  refine ⟨oldE, newE, oldR, newR, oldJ, newJ, n, o, hoE, hnE, hoR, hnR, hoJ, hnJ, ho, ?_, ?_⟩
  · rw [hboard₂, hboard₁] at hfree
    exact hfree
  · have hA : update db.board.assignment a (some A) = db.board.assignment :=
      update_eq_self_iff.mpr hb.assignment.symm
    rw [hboard₃, hboard₂, hboard₁, Board.putBundle, hA]
    rfl

end Work
end Db
end JobmanControl
