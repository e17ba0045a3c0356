import JobmanControl.Lifecycle.Launch

/-!
Executions whose agent has gone silent. Each iteration of the reconciliation claims one of
them and projects its observations as stale, in a transaction of its own; the loop ends
when none is left or the limit is reached. The outbox statement of an iteration uses one
parameter as a uuid and as text, so whether an iteration can commit depends on how the
server deduces the type of that parameter.
-/

namespace JobmanControl

open Relational Lifecycle Lifecycle.Board

variable {e : Id} {codec : Codec} {env : Env}

variable {uses : List ParameterUse} {staleAfter start : Nat} {ids : Nat → Id} {db db₁ db' : Db}
  {marked : List (Id × ExecutionRow)} {row : ExecutionRow} {run : RunRow}

/-- What `ReconcileStaleExecutions` returns: the number of executions it marked before it
ended, and the error it ended with. -/
structure StaleReconciliation where
  updated : Nat
  error : Option StoreError
  deriving DecidableEq, Repr

/-- The uses of `$3` in the outbox statement: `aggregate_id` and `$3::text`. -/
def staleOutboxUses : List ParameterUse := [.uuidColumn, .textCast]

/-- The loop, with the iterations that are left and the count so far. The transactions
draw their outbox ids from `ids` and start at one time. -/
def reconcileStaleLoop (codec : Codec) (env : Env) (uses : List ParameterUse) (staleAfter : Nat)
    (ids : Nat → Id) : Nat → Nat → Db → StaleReconciliation × Db
  | 0, updated, db => (⟨updated, none⟩, db)
  | remaining + 1, updated, db =>
      match reconcileStaleExecution codec env (parameterResolves uses) staleAfter (ids updated)
          db with
      | .error error => (⟨updated, some error⟩, db)
      | .ok (false, _) => (⟨updated, none⟩, db)
      | .ok (true, db') =>
          reconcileStaleLoop codec env uses staleAfter ids remaining (updated + 1) db'

/-- `ReconcileStaleExecutions`, with the uses of its outbox parameter. A negative limit is
refused as 0 is. -/
def reconcileStaleExecutions (codec : Codec) (env : Env) (uses : List ParameterUse)
    (staleAfter limit : Nat) (ids : Nat → Id) (db : Db) : StaleReconciliation × Db :=
  if staleAfter < minute ∨ day < staleAfter then
    (⟨0, some (.invalid "stale execution threshold must be between one minute and 24 hours")⟩, db)
  else if limit < 1 ∨ 1000 < limit then
    (⟨0, some (.invalid "stale execution reconciliation limit must be between 1 and 1000")⟩, db)
  else reconcileStaleLoop codec env uses staleAfter ids limit 0 db

/-- An accepted or running execution with current confidence whose agent has not been
seen within the threshold. -/
def Db.silent (env : Env) (staleAfter : Nat) (db : Db) (row : ExecutionRow) : Bool :=
  (row.progress = .live .accepted || row.progress = .live .running) &&
    row.confidence = .current &&
    (db.agents.get? row.agentId).any fun agent => agent.lastSeen + staleAfter < env.now

def Db.silentCount (env : Env) (staleAfter : Nat) (db : Db) : Nat :=
  db.executions.count fun _ row => db.silent env staleAfter row

def JobRow.touch (env : Env) (job : JobRow) : JobRow :=
  { job with revision := job.revision + 1, updatedAt := env.now }

def ExecutionRow.markStale (row : ExecutionRow) : ExecutionRow :=
  { row with confidence := .stale, revision := row.revision + 1 }

def staleAudit (entry : Id × ExecutionRow) : AuditRow :=
  ⟨entry.2.namespaceId, .system, .observationStale, .execution, entry.1, none, none⟩

def staleNotice (env : Env) (entry : Id × ExecutionRow) : OutboxRow :=
  ⟨entry.2.namespaceId, .observationStale entry.1 entry.2.agentId, env.now, none⟩

def Db.SilentJob (env : Env) (staleAfter : Nat) (db : Db) (jobId : Id) : Prop :=
  ∃ e row run, db.executions.get? e = some row ∧ db.silent env staleAfter row = true ∧
    db.runs.get? row.runId = some run ∧ run.jobId = jobId

/-- The revision of a job has grown, and nothing else about it has changed. -/
def JobRow.Revised (old new : JobRow) : Prop :=
  old.revision < new.revision ∧
    new = { old with revision := new.revision, updatedAt := new.updatedAt }

def Db.RunsKnown (db : Db) : Prop :=
  ∀ e row, db.executions.get? e = some row → ∃ run, db.runs.get? row.runId = some run

/-- What the loop makes of a store: exactly the silent executions are marked, in the order
of the list, each with one audit row and one outbox message, the latter under the ids from
`start` on; only the revisions of their jobs grow, and all else is as it was. -/
structure Projects (env : Env) (staleAfter : Nat) (ids : Nat → Id) (start : Nat)
    (marked : List (Id × ExecutionRow)) (db db' : Db) : Prop where
  nodup : marked.Nodup
  mem : ∀ e row, (e, row) ∈ marked ↔
    db.executions.get? e = some row ∧ db.silent env staleAfter row = true
  executions : ∀ e, db'.executions.get? e = (db.executions.get? e).map fun row =>
    if db.silent env staleAfter row then row.markStale else row
  audit : db'.audit = db.audit ++ marked.map staleAudit
  outbox : ∀ i entry, marked[i]? = some entry →
    db'.outbox.get? (ids (start + i)) = some (staleNotice env entry)
  others : ∀ id, (∀ i < marked.length, id ≠ ids (start + i)) →
    db'.outbox.get? id = db.outbox.get? id
  jobs : ∀ j job, db.jobs.get? j = some job → db.SilentJob env staleAfter j →
    ∃ job', db'.jobs.get? j = some job' ∧ job.Revised job'
  otherJobs : ∀ j, ¬db.SilentJob env staleAfter j → db'.jobs.get? j = db.jobs.get? j
  rest : db' = { db with
    executions := db'.executions, jobs := db'.jobs, audit := db'.audit, outbox := db'.outbox }

theorem staleExecution_some {agent : AgentRow}
    (h : staleExecution env staleAfter db = some (((e, row), run), agent)) :
    db.executions.get? e = some row ∧ db.silent env staleAfter row = true ∧
      db.runs.get? row.runId = some run := by
  have hmem := firstBy_mem h
  simp only [List.mem_filterMap, Option.bind_eq_bind, Option.bind_eq_some_iff,
    Option.guard_eq_some', Option.pure_def, Option.some.injEq, Prod.mk.injEq] at hmem
  obtain ⟨entry, hentry, r, hr, a, ha, _, hseen, ⟨rfl, rfl⟩, rfl⟩ := hmem
  rw [Table.mem_select] at hentry
  obtain ⟨hrow, hlive⟩ := hentry
  refine ⟨hrow, ?_, hr⟩
  simp only [Db.silent, Bool.and_eq_true] at hlive ⊢
  exact ⟨hlive, by simp [ha, hseen]⟩

theorem staleExecution_none (hruns : db.RunsKnown) (h : staleExecution env staleAfter db = none)
    (hrow : db.executions.get? e = some row) :
    db.silent env staleAfter row = false := by
  rw [staleExecution, firstBy_eq_none_iff, List.filterMap_eq_nil_iff] at h
  by_contra hsilent
  rw [Bool.not_eq_false, Db.silent, Bool.and_eq_true, Option.any_eq_true] at hsilent
  obtain ⟨hlive, agent, hagent, hseen⟩ := hsilent
  obtain ⟨run, hrun⟩ := hruns e row hrow
  have hnone := h (e, row) ((Table.mem_select _ _ _ _).mpr ⟨hrow, hlive⟩)
  simp only [hrun, hagent, Option.bind_eq_bind, Option.bind_some] at hnone
  simp [of_decide_eq_true hseen] at hnone

theorem Db.recordJobLifecycle_same {j : Id} {old new : JobRow} (h : new.progress = old.progress) :
    db.recordJobLifecycle codec env j old new = new := by
  have hstarted : db.stampStarted codec env j old new = new := by
    refine if_neg ?_
    rintro ⟨hidle, hrunning, -⟩
    exact hidle (h ▸ hrunning)
  rw [Db.recordJobLifecycle, hstarted]
  refine if_neg ?_
  rintro ⟨hlive, hterminal⟩
  rw [h, hlive] at hterminal
  cases hterminal

theorem Db.updateJob_touch (codec : Codec) (env : Env) (db : Db) (j : Id) :
    ∃ jobs, db.updateJob codec env j (fun job => .ok
        { job with revision := job.revision + 1, updatedAt := env.now }) =
        .ok { db with jobs := jobs } ∧
      ∀ i, jobs.get? i =
        if i = j then (db.jobs.get? i).map (JobRow.touch env) else db.jobs.get? i := by
  unfold Db.updateJob
  cases hjob : db.jobs.get? j with
  | none =>
      refine ⟨db.jobs, rfl, fun i => ?_⟩
      split
      · rename_i hi
        rw [hi, hjob]
        rfl
      · rfl
  | some job =>
      refine ⟨db.jobs.modify j fun _ => job.touch env, ?_, fun i => ?_⟩
      · have hsame : db.recordJobLifecycle codec env j job (job.touch env) = job.touch env :=
          Db.recordJobLifecycle_same rfl
        simp only [JobRow.touch] at hsame ⊢
        simp only [ok_bind, hsame, Db.enqueueMonitoringTerminalTransition]
        split
        · rename_i hlive hterminal
          cases hlive.symm.trans hterminal
        · rfl
      · rw [Table.get?_modify]
        split
        · rename_i hi
          rw [hi, hjob]
          rfl
        · rfl

/-- One iteration that found a silent execution and committed. -/
structure ProjectsOne (env : Env) (outboxId e : Id) (row : ExecutionRow) (jobId : Id)
    (db db' : Db) : Prop where
  found : db.executions.get? e = some row
  executions : db'.executions = db.executions.modify e fun _ => row.markStale
  jobs : ∀ i, db'.jobs.get? i =
    if i = jobId then (db.jobs.get? i).map (JobRow.touch env) else db.jobs.get? i
  audit : db'.audit = db.audit ++ [staleAudit (e, row)]
  outbox : db.outbox.insert? outboxId (staleNotice env (e, row)) = some db'.outbox
  rest : db' = { db with
    executions := db'.executions, jobs := db'.jobs, audit := db'.audit, outbox := db'.outbox }

theorem reconcileStaleExecution_commits (codec : Codec) {outboxId : Id} {agent : AgentRow}
    (h : staleExecution env staleAfter db = some (((e, row), run), agent))
    (hfree : db.outbox.get? outboxId = none) :
    ∃ db', reconcileStaleExecution codec env true staleAfter outboxId db = .ok (true, db') ∧
      ProjectsOne env outboxId e row run.jobId db db' := by
  obtain ⟨hrow, hsilent, -⟩ := staleExecution_some h
  have hcurrent : row.confidence = .current := by
    simp only [Db.silent, Bool.and_eq_true, decide_eq_true_eq] at hsilent
    exact hsilent.1.2
  have hexecution : db.updateExecution e (fun row => .ok
      (if row.confidence = .current then
        { row with confidence := .stale, revision := row.revision + 1 } else row)) =
      .ok { db with executions := db.executions.modify e fun _ => row.markStale } := by
    simp only [Db.updateExecution, hrow, if_pos hcurrent, ok_bind]
    rfl
  obtain ⟨jobs, hjobs, hget⟩ := Db.updateJob_touch codec env
    { db with executions := db.executions.modify e fun _ => row.markStale } run.jobId
  obtain ⟨outbox, houtbox⟩ :=
    Table.insert?_isSome db.outbox outboxId (staleNotice env (e, row)) hfree
  refine ⟨{ db with
      executions := db.executions.modify e fun _ => row.markStale
      jobs := jobs
      audit := db.audit ++ [staleAudit (e, row)]
      outbox := outbox }, ?_, hrow, rfl, hget, rfl, houtbox, rfl⟩
  have hinsert : db.outbox.insert? outboxId ⟨row.namespaceId,
      .observationStale e row.agentId, env.now, none⟩ = some outbox := houtbox
  simp only [reconcileStaleExecution, h, hexecution, ok_bind, hjobs, ensure_of_true,
    Db.insertOutbox, Db.appendAudit, hinsert]
  rfl

theorem reconcileStaleExecution_refused (codec : Codec) (outboxId : Id)
    (h : staleExecution env staleAfter db ≠ none) :
    ∃ error, reconcileStaleExecution codec env false staleAfter outboxId db = .error error := by
  obtain ⟨⟨⟨⟨e, row⟩, run⟩, agent⟩, hfound⟩ := Option.ne_none_iff_exists'.mp h
  obtain ⟨hrow, -, -⟩ := staleExecution_some hfound
  simp only [reconcileStaleExecution, hfound, Db.updateExecution, hrow, ok_bind]
  obtain ⟨jobs, hjobs, -⟩ := Db.updateJob_touch codec env
    { db with executions := db.executions.modify e fun _ =>
      if row.confidence = .current then
        { row with confidence := .stale, revision := row.revision + 1 } else row } run.jobId
  simp only [pure_bind, hjobs, ok_bind]
  exact ⟨_, rfl⟩

theorem ExecutionRow.markStale_not_silent (db : Db) (row : ExecutionRow) :
    db.silent env staleAfter row.markStale = false := by
  simp [Db.silent, ExecutionRow.markStale]

theorem Db.silent_congr (h : db₁.agents = db.agents) (row : ExecutionRow) :
    db₁.silent env staleAfter row = db.silent env staleAfter row := by
  rw [Db.silent, Db.silent, h]

theorem Db.silentCount_eq_zero :
    db.silentCount env staleAfter = 0 ↔
      ∀ e row, db.executions.get? e = some row → db.silent env staleAfter row = false := by
  rw [← Nat.le_zero, ← Nat.not_lt, Db.silentCount, Table.count_pos_iff]
  constructor
  · intro h e row hrow
    by_contra hsilent
    exact h ⟨e, row, hrow, Bool.not_eq_false _ ▸ hsilent⟩
  · rintro h ⟨e, row, hrow, hsilent⟩
    exact absurd hsilent (by rw [h e row hrow]; decide)

theorem Projects.nil (start : Nat) (h : db.silentCount env staleAfter = 0) :
    Projects env staleAfter ids start [] db db := by
  rw [Db.silentCount_eq_zero] at h
  refine ⟨List.nodup_nil, ?_, ?_, by simp, by simp, by simp, ?_, fun _ _ => rfl, rfl⟩
  · intro e row
    simp only [List.not_mem_nil, false_iff]
    rintro ⟨hrow, hsilent⟩
    exact absurd hsilent (by rw [h e row hrow]; decide)
  · intro e
    cases hrow : db.executions.get? e with
    | none => rfl
    | some row => simp [h e row hrow]
  · rintro j job - ⟨e, row, run, hrow, hsilent, -⟩
    exact absurd hsilent (by rw [h e row hrow]; decide)

variable {outboxId : Id}

namespace ProjectsOne

variable (h : ProjectsOne env outboxId e row run.jobId db db₁)

include h

theorem get?_executions (i : Id) :
    db₁.executions.get? i = if i = e then some row.markStale else db.executions.get? i := by
  rw [h.executions, Table.get?_modify]
  split
  · rename_i hi
    rw [hi, h.found]
    rfl
  · rfl

theorem silent (r : ExecutionRow) :
    db₁.silent env staleAfter r = db.silent env staleAfter r :=
  Db.silent_congr (by rw [h.rest]) r

theorem silent_iff (i : Id) (r : ExecutionRow) :
    db₁.executions.get? i = some r ∧ db₁.silent env staleAfter r = true ↔
      i ≠ e ∧ db.executions.get? i = some r ∧ db.silent env staleAfter r = true := by
  rw [h.get?_executions, h.silent]
  split
  · rename_i hi
    simp only [hi, ne_eq, not_true_eq_false, false_and, iff_false, Option.some.injEq]
    rintro ⟨rfl, hsilent⟩
    rw [ExecutionRow.markStale_not_silent] at hsilent
    cases hsilent
  · rename_i hi
    simp [hi]

theorem runsKnown (hruns : db.RunsKnown) : db₁.RunsKnown := by
  intro i r hr
  have heq : db₁.runs = db.runs := by rw [h.rest]
  rw [h.get?_executions] at hr
  rw [heq]
  split at hr
  · cases hr
    exact hruns e row h.found
  · exact hruns i r hr

theorem silentCount_lt (hsilent : db.silent env staleAfter row = true) :
    db₁.silentCount env staleAfter < db.silentCount env staleAfter := by
  simp only [Db.silentCount, h.silent, h.executions]
  exact Table.count_modify_lt _ _ _ h.found hsilent (ExecutionRow.markStale_not_silent db row)

theorem silentJob (hsilent : db.silent env staleAfter row = true)
    (hrun : db.runs.get? row.runId = some run) (j : Id) :
    db.SilentJob env staleAfter j ↔ j = run.jobId ∨ db₁.SilentJob env staleAfter j := by
  have heq : db₁.runs = db.runs := by rw [h.rest]
  constructor
  · rintro ⟨i, r, run', hr, hs, hrun', rfl⟩
    by_cases hi : i = e
    · subst hi
      cases h.found.symm.trans hr
      cases hrun.symm.trans hrun'
      exact Or.inl rfl
    · obtain ⟨hr', hs'⟩ := (h.silent_iff i r).mpr ⟨hi, hr, hs⟩
      exact Or.inr ⟨i, r, run', hr', hs', heq ▸ hrun', rfl⟩
  · rintro (rfl | ⟨i, r, run', hr, hs, hrun', rfl⟩)
    · exact ⟨e, row, run, h.found, hsilent, hrun, rfl⟩
    · obtain ⟨-, hr', hs'⟩ := (h.silent_iff i r).mp ⟨hr, hs⟩
      exact ⟨i, r, run', hr', hs', heq ▸ hrun', rfl⟩

end ProjectsOne

theorem JobRow.revised_touch (env : Env) (job : JobRow) : job.Revised (job.touch env) :=
  ⟨Nat.lt_succ_self _, rfl⟩

theorem JobRow.Revised.trans {a b c : JobRow} (h : a.Revised b) (h' : b.Revised c) :
    a.Revised c := by
  refine ⟨h.1.trans h'.1, ?_⟩
  rw [h'.2, h.2]

theorem Projects.cons (hids : Function.Injective ids)
    (h : ProjectsOne env (ids start) e row run.jobId db db₁)
    (hsilent : db.silent env staleAfter row = true) (hrun : db.runs.get? row.runId = some run)
    (hrest : Projects env staleAfter ids (start + 1) marked db₁ db') :
    Projects env staleAfter ids start ((e, row) :: marked) db db' where
  nodup := by
    refine List.nodup_cons.mpr ⟨fun hmem => ?_, hrest.nodup⟩
    exact ((h.silent_iff e row).mp ((hrest.mem e row).mp hmem)).1 rfl
  mem i r := by
    rw [List.mem_cons, hrest.mem, h.silent_iff, Prod.mk.injEq]
    constructor
    · rintro (⟨rfl, rfl⟩ | ⟨-, hr, hs⟩)
      · exact ⟨h.found, hsilent⟩
      · exact ⟨hr, hs⟩
    · rintro ⟨hr, hs⟩
      by_cases hi : i = e
      · subst hi
        cases h.found.symm.trans hr
        exact Or.inl ⟨rfl, rfl⟩
      · exact Or.inr ⟨hi, hr, hs⟩
  executions i := by
    rw [hrest.executions, h.get?_executions]
    simp only [h.silent]
    split
    · rename_i hi
      simp [hi, h.found, hsilent, ExecutionRow.markStale_not_silent]
    · rfl
  audit := by
    rw [hrest.audit, h.audit, List.append_assoc]
    rfl
  outbox i entry hentry := by
    cases i with
    | zero =>
        cases hentry
        rw [Nat.add_zero, hrest.others _ fun i _ heq => ?_, Table.get?_insert h.outbox, if_pos rfl]
        have := hids heq
        omega
    | succ i =>
        have := hrest.outbox i entry hentry
        rwa [Nat.add_assoc, Nat.add_comm 1] at this
  others id hid := by
    have hself : id ≠ ids start := hid 0 (by simp)
    rw [hrest.others id fun i hi => ?_, Table.get?_insert h.outbox, if_neg hself]
    rw [Nat.add_assoc, Nat.add_comm 1]
    exact hid (i + 1) (by simpa using hi)
  jobs j job hjob hj := by
    have hfirst := h.jobs j
    rw [h.silentJob hsilent hrun] at hj
    by_cases hself : j = run.jobId
    · rw [if_pos hself, hjob] at hfirst
      by_cases hagain : db₁.SilentJob env staleAfter j
      · obtain ⟨job', hjob', hrevised⟩ := hrest.jobs j _ hfirst hagain
        exact ⟨job', hjob', (JobRow.revised_touch env job).trans hrevised⟩
      · exact ⟨_, (hrest.otherJobs j hagain).trans hfirst, JobRow.revised_touch env job⟩
    · rw [if_neg hself, hjob] at hfirst
      exact hrest.jobs j job hfirst (hj.resolve_left hself)
  otherJobs j hj := by
    rw [h.silentJob hsilent hrun, not_or] at hj
    rw [hrest.otherJobs j hj.2, h.jobs, if_neg hj.1]
  rest := by
    rw [hrest.rest, h.rest]

theorem reconcileStaleLoop_projects (codec : Codec) (hresolves : parameterResolves uses = true)
    (hids : Function.Injective ids) (remaining start : Nat) (db : Db) (hruns : db.RunsKnown)
    (hfree : ∀ i, start ≤ i → db.outbox.get? (ids i) = none)
    (hcount : db.silentCount env staleAfter ≤ remaining) :
    ∃ marked db', reconcileStaleLoop codec env uses staleAfter ids remaining start db =
        (⟨start + marked.length, none⟩, db') ∧
      Projects env staleAfter ids start marked db db' := by
  induction remaining generalizing start db with
  | zero => exact ⟨[], db, rfl, .nil start (Nat.le_zero.mp hcount)⟩
  | succ remaining ih =>
      cases hstale : staleExecution env staleAfter db with
      | none =>
          refine ⟨[], db, ?_, .nil start (Db.silentCount_eq_zero.mpr fun e row hrow =>
            staleExecution_none hruns hstale hrow)⟩
          simp [reconcileStaleLoop, reconcileStaleExecution, hstale]
      | some found =>
          obtain ⟨⟨⟨e, row⟩, run⟩, agent⟩ := found
          obtain ⟨-, hsilent, hrun⟩ := staleExecution_some hstale
          obtain ⟨db₁, hcommits, hone⟩ := reconcileStaleExecution_commits codec hstale
            (hfree start le_rfl)
          have hfree₁ : ∀ i, start + 1 ≤ i → db₁.outbox.get? (ids i) = none := by
            intro i hi
            rw [Table.get?_insert hone.outbox, if_neg, hfree i (by omega)]
            intro heq
            have := hids heq
            omega
          have hless := hone.silentCount_lt hsilent
          obtain ⟨marked, db', hloop, hprojects⟩ := ih (start + 1) db₁
            (hone.runsKnown hruns) hfree₁ (by omega)
          refine ⟨(e, row) :: marked, db', ?_, hprojects.cons hids hone hsilent hrun⟩
          rw [reconcileStaleLoop, hresolves, hcommits]
          simp only [hloop, List.length_cons]
          rw [Nat.add_assoc, Nat.add_comm 1]

theorem reconcileStaleLoop_idle (remaining start : Nat) (h : db.silentCount env staleAfter = 0) :
    reconcileStaleLoop codec env uses staleAfter ids remaining start db = (⟨start, none⟩, db) := by
  cases remaining with
  | zero => rfl
  | succ remaining =>
      have hnone : staleExecution env staleAfter db = none := by
        cases hstale : staleExecution env staleAfter db with
        | none => rfl
        | some found =>
            obtain ⟨⟨⟨e, row⟩, run⟩, agent⟩ := found
            obtain ⟨hrow, hsilent, -⟩ := staleExecution_some hstale
            rw [Db.silentCount_eq_zero.mp h e row hrow] at hsilent
            cases hsilent
      simp [reconcileStaleLoop, reconcileStaleExecution, hnone]

theorem reconcileStaleLoop_refused (codec : Codec) (ids : Nat → Id)
    (hrefused : parameterResolves uses = false)
    (hruns : db.RunsKnown) (h : db.silentCount env staleAfter ≠ 0) (remaining start : Nat) :
    (reconcileStaleLoop codec env uses staleAfter ids (remaining + 1) start db).1.error ≠ none := by
  have hstale : staleExecution env staleAfter db ≠ none := fun hnone =>
    h (Db.silentCount_eq_zero.mpr fun _ _ hrow => staleExecution_none hruns hnone hrow)
  obtain ⟨error, herror⟩ := reconcileStaleExecution_refused codec (ids start) hstale
  rw [reconcileStaleLoop, hrefused, herror]
  simp

theorem Projects.length_eq (h : Projects env staleAfter ids start marked db db') :
    marked.length = db.silentCount env staleAfter := by
  have hperm : marked.Perm (db.executions.select fun _ row => db.silent env staleAfter row) := by
    refine (List.perm_ext_iff_of_nodup h.nodup
      (List.Nodup.of_map _ (Table.nodup_map_fst_select _ _))).mpr ?_
    rintro ⟨e, row⟩
    rw [h.mem, Table.mem_select]
  rw [hperm.length_eq, Db.silentCount, Table.count, Table.select, List.countP_eq_length_filter]

theorem Projects.settled (h : Projects env staleAfter ids start marked db db') {env' : Env}
    (hlater : ∀ e row, db.executions.get? e = some row → db.silent env' staleAfter row = true →
      db.silent env staleAfter row = true) : db'.silentCount env' staleAfter = 0 := by
  rw [Db.silentCount_eq_zero]
  intro e row' hrow'
  rw [Db.silent_congr (by rw [h.rest] : db'.agents = db.agents)]
  rw [h.executions, Option.map_eq_some_iff] at hrow'
  obtain ⟨row, hrow, rfl⟩ := hrow'
  split
  · exact ExecutionRow.markStale_not_silent db row
  · rename_i hnot
    by_contra hsilent
    exact hnot (hlater e row hrow (Bool.not_eq_false _ ▸ hsilent))

/-- What the reconciliation is for: it marks exactly the silent executions and returns their
number; as long as no other execution has fallen silent another call changes nothing; and a
report that is recorded later brings the confidence back that it reports. -/
def ReconcilesSilence (codec : Codec) (env : Env) (uses : List ParameterUse)
    (staleAfter limit : Nat) (ids : Nat → Id) (db : Db) : Prop :=
  ∃ marked db',
    reconcileStaleExecutions codec env uses staleAfter limit ids db =
        (⟨db.silentCount env staleAfter, none⟩, db') ∧
      Projects env staleAfter ids 0 marked db db' ∧
      (∀ env' ids', (∀ e row, db.executions.get? e = some row →
          db.silent env' staleAfter row = true → db.silent env staleAfter row = true) →
        reconcileStaleExecutions codec env' uses staleAfter limit ids' db' = (⟨0, none⟩, db')) ∧
      ∀ e row, (e, row) ∈ marked → ∀ later env' view identity event after,
        Db.Later codec db' later → event.executionId = e →
        recordExecutionEvent codec env' view identity event later = .ok (false, after) →
        ∃ row', after.executions.get? e = some row' ∧ row'.confidence = observedConfidence event

variable {limit : Nat}

theorem runsKnown_of_arises (h : Db.Arises codec db) : db.RunsKnown := by
  intro e row hrow
  obtain ⟨j, J, R, a, A, hb⟩ := (sound_later sound_empty h).coupled.linked.bundle_of_execution
    (Db.board_execution hrow)
  obtain ⟨run, hrun, -⟩ := Db.board_run_eq_some.mp hb.run
  exact ⟨run, hrun⟩

theorem reconcileStaleExecutions_of_bounds
    (h : minute ≤ staleAfter ∧ staleAfter ≤ day ∧ 1 ≤ limit ∧ limit ≤ 1000) :
    reconcileStaleExecutions codec env uses staleAfter limit ids db =
      reconcileStaleLoop codec env uses staleAfter ids limit 0 db := by
  obtain ⟨hminute, hday, hone, hthousand⟩ := h
  rw [reconcileStaleExecutions, if_neg (by lia), if_neg (by lia)]

theorem recordExecutionEvent_confidence {view : GroupView} {identity : AgentIdentity}
    {event : ExecutionObservation}
    (h : recordExecutionEvent codec env view identity event db = .ok (false, db')) :
    ∃ row, db'.executions.get? event.executionId = some row ∧
      row.confidence = observedConfidence event := by
  obtain ⟨hreplayed, -⟩ | ⟨-, execution, run, generation, db₁, db₂, db₃, db₄, hrecording⟩ :=
    recordExecutionEvent_ok h
  · cases hreplayed
  · exact (LaunchesKept.recording hrecording).2

/-- The reconciliation does what it is for when its outbox statement is accepted, and
otherwise only where there is nothing to do. -/
theorem reconcilesSilence_iff (hruns : db.RunsKnown) (hids : Function.Injective ids)
    (hfree : ∀ i, db.outbox.get? (ids i) = none) (hlimit : db.silentCount env staleAfter ≤ limit) :
    ReconcilesSilence codec env uses staleAfter limit ids db ↔
      (minute ≤ staleAfter ∧ staleAfter ≤ day ∧ 1 ≤ limit ∧ limit ≤ 1000) ∧
        (parameterResolves uses = true ∨ db.silentCount env staleAfter = 0) := by
  constructor
  · rintro ⟨marked, db', heq, -⟩
    have hbounds : minute ≤ staleAfter ∧ staleAfter ≤ day ∧ 1 ≤ limit ∧ limit ≤ 1000 := by
      unfold reconcileStaleExecutions at heq
      split at heq
      · simp at heq
      · split at heq
        · simp at heq
        · lia
    refine ⟨hbounds, ?_⟩
    by_contra hneither
    rw [not_or, Bool.not_eq_true] at hneither
    rw [reconcileStaleExecutions_of_bounds hbounds] at heq
    obtain ⟨remaining, rfl⟩ := Nat.exists_eq_add_of_le' hbounds.2.2.1
    have herror := reconcileStaleLoop_refused codec ids hneither.1 hruns hneither.2 remaining 0
    rw [heq] at herror
    exact herror rfl
  · rintro ⟨hbounds, hcase⟩
    obtain ⟨marked, db', hloop, hprojects⟩ : ∃ marked db',
        reconcileStaleLoop codec env uses staleAfter ids limit 0 db =
          (⟨marked.length, none⟩, db') ∧ Projects env staleAfter ids 0 marked db db' := by
      by_cases hresolves : parameterResolves uses = true
      · obtain ⟨marked, db', hloop, hprojects⟩ := reconcileStaleLoop_projects codec
          hresolves hids limit 0 db hruns (fun i _ => hfree i) hlimit
        exact ⟨marked, db', by rw [hloop, Nat.zero_add], hprojects⟩
      · have hidle := hcase.resolve_left hresolves
        exact ⟨[], db, reconcileStaleLoop_idle limit 0 hidle, .nil 0 hidle⟩
    refine ⟨marked, db', ?_, hprojects, ?_, ?_⟩
    · rw [reconcileStaleExecutions_of_bounds hbounds, hloop, hprojects.length_eq]
    · intro env' ids' hlater
      rw [reconcileStaleExecutions_of_bounds hbounds]
      exact reconcileStaleLoop_idle limit 0 (hprojects.settled hlater)
    · rintro e row - later env' view identity event after - rfl hrecord
      exact recordExecutionEvent_confidence hrecord

/-- As the statement is written the server refuses it, so that the reconciliation does what
it is for exactly when no execution is silent. -/
theorem stale_reconciliation (harises : Db.Arises codec db) (hids : Function.Injective ids)
    (hfree : ∀ i, db.outbox.get? (ids i) = none) (hlimit : db.silentCount env staleAfter ≤ limit) :
    ReconcilesSilence codec env staleOutboxUses staleAfter limit ids db ↔
      (minute ≤ staleAfter ∧ staleAfter ≤ day ∧ 1 ≤ limit ∧ limit ≤ 1000) ∧
        db.silentCount env staleAfter = 0 := by
  rw [reconcilesSilence_iff (runsKnown_of_arises harises) hids hfree hlimit]
  simp [show parameterResolves staleOutboxUses = false by decide]

/-- An execution whose agent is still within the threshold. -/
theorem stale_reconciliation_recent :
    ReconcilesSilence Sample.codec (Sample.env 10) staleOutboxUses minute 100 (· + 100)
      Sample.accepted := by
  refine (stale_reconciliation (Sample.offered_arises.trans (Db.later_run _ _ _))
    (fun _ _ => Nat.add_right_cancel) ?_ ?_).mpr ⟨by decide, by decide⟩
  · intro i
    have hkeys : ∀ k ∈ Sample.accepted.outbox.entries.map Prod.fst, k < 100 := by decide
    refine (Table.get?_eq_none_iff _ _).mpr fun hmem => ?_
    exact absurd (hkeys _ hmem) (Nat.not_lt.mpr (Nat.le_add_left 100 i))
  · decide

/-- One execution is silent: the call marks nothing and fails. -/
theorem stale_execution_stays :
    Db.Arises Sample.codec Sample.accepted ∧
      Sample.accepted.silentCount (Sample.env (minute + 10)) minute = 1 ∧
      reconcileStaleExecutions Sample.codec (Sample.env (minute + 10)) staleOutboxUses minute 100
          (· + 100) Sample.accepted =
        (⟨0, some (.invalid "inconsistent types deduced for parameter $3")⟩, Sample.accepted) := by
  refine ⟨Sample.offered_arises.trans (Db.later_run _ _ _), by decide, ?_⟩
  rfl

end JobmanControl
