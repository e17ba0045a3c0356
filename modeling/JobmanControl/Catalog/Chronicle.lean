import JobmanControl.Catalog.Standing
import JobmanControl.Catalog.Suitability

/-!
What the store remembers. Whatever the service is asked to do, in whatever order, what was
decided about a piece of work is never taken back, and the reports about it are kept as the
agent made them.
-/

namespace JobmanControl

open Relational Lifecycle

section Final

variable {db db' db'' : Db}

theorem Db.FinalKept.trans (h : db.FinalKept db') (h' : db'.FinalKept db'') :
    db.FinalKept db'' := by
  refine ⟨fun j _ o hrow ho => ?_, fun r _ o hrow ho => ?_, fun e _ x hrow hx => ?_,
    fun j _ hrow hcancel => ?_, fun r _ hrow hcancel => ?_⟩
  · obtain ⟨_, hrow', ho'⟩ := h.job j _ o hrow ho
    exact h'.job j _ o hrow' ho'
  · obtain ⟨_, hrow', ho'⟩ := h.run r _ o hrow ho
    exact h'.run r _ o hrow' ho'
  · obtain ⟨_, hrow', hx'⟩ := h.execution e _ x hrow hx
    exact h'.execution e _ x hrow' hx'
  · obtain ⟨_, hrow', hcancel'⟩ := h.job_cancel j _ hrow hcancel
    exact h'.job_cancel j _ hrow' hcancel'
  · obtain ⟨_, hrow', hcancel'⟩ := h.run_cancel r _ hrow hcancel
    exact h'.run_cancel r _ hrow' hcancel'

theorem Db.FinalKept.of_workTables (h : db'.workTables = db.workTables) : db.FinalKept db' := by
  have hjobs : db'.jobs = db.jobs := congrArg WorkTables.jobs h
  have hruns : db'.runs = db.runs := congrArg WorkTables.runs h
  have hexecutions : db'.executions = db.executions := congrArg WorkTables.executions h
  exact ⟨fun _ row _ hrow ho => ⟨row, hjobs ▸ hrow, ho⟩,
    fun _ row _ hrow ho => ⟨row, hruns ▸ hrow, ho⟩,
    fun _ row _ hrow hx => ⟨row, hexecutions ▸ hrow, hx⟩,
    fun _ row hrow h => ⟨row, hjobs ▸ hrow, h⟩, fun _ row hrow h => ⟨row, hruns ▸ hrow, h⟩⟩

theorem ServiceCall.finalKept (call : ServiceCall) (platform : Platform) (hs : Sound db.board) :
    db.FinalKept (call.apply platform db) := by
  obtain ⟨operation, -, hwork⟩ | hapart := call.apart platform db
  · rw [hwork]
    exact finalKept_of_persists
      ((operation.apply_moves platform.codec call.env hs).2.persists hs.coupled)
  · exact .of_workTables hapart.work

end Final

section Journal

def Db.reports (db : Db) (e : Id) : Nat :=
  ((db.executions.get? e).map ExecutionRow.lastEventSequence).getD 0

/-- The reports about an execution are numbered from one to its last, each once. -/
structure Db.Journaled (db : Db) : Prop where
  numbered : ∀ v event, db.events.get? v = some event →
    1 ≤ event.sourceSequence ∧ event.sourceSequence ≤ db.reports event.executionId
  once : ∀ v v' event event', db.events.get? v = some event → db.events.get? v' = some event' →
    event.executionId = event'.executionId → event.sourceSequence = event'.sourceSequence → v = v'
  complete : ∀ e n, 1 ≤ n → n ≤ db.reports e → ∃ v event, db.events.get? v = some event ∧
    event.executionId = e ∧ event.sourceSequence = n

/-- What a call may do to the reports. -/
structure Db.Records (db db' : Db) : Prop where
  journaled : db.Journaled → db'.Journaled
  kept : ∀ v event, db.events.get? v = some event → db'.events.get? v = some event

variable {codec : Codec} {env : Env} {db db' : Db}

theorem Db.Records.same (hevents : db'.events = db.events)
    (hreports : db'.reports = db.reports) : db.Records db' := by
  refine ⟨fun h => ⟨?_, ?_, ?_⟩, fun v event h => hevents ▸ h⟩
  · simpa only [hevents, hreports] using h.numbered
  · simpa only [hevents] using h.once
  · simpa only [hevents, hreports] using h.complete

theorem recordsReports (codec : Codec) (env : Env) (asked : JobSubmission → Grouping → Prop) :
    CallFootprint codec env asked Db.Records where
  refl _ := .same rfl rfl
  trans h h' := ⟨h'.journaled ∘ h.journaled, fun v event hv => h'.kept v event (h.kept v event hv)⟩
  updateJob _ h := by
    obtain ⟨jobs, outbox, rfl⟩ := Db.updateJob_eq h
    exact .same rfl rfl
  updateRun _ h := by
    obtain ⟨runs, rfl⟩ := Db.updateRun_eq h
    exact .same rfl rfl
  insertOutbox h _ := by
    obtain ⟨outbox, rfl⟩ := insertOutbox_ok h
    exact .same rfl rfl
  insertWorkload _ := .same rfl rfl
  insertCollection _ := .same rfl rfl
  insertGraph _ := .same rfl rfl
  touchCollection _ _ := .same rfl rfl
  touchGraph _ _ := .same rfl rfl
  insertJob _ _ _ := .same rfl rfl
  insertItem _ _ := .same rfl rfl
  insertNode _ _ _ := .same rfl rfl
  insertRun _ _ := .same rfl rfl
  insertExecution hinsert hdispatched := .same rfl <| funext fun e => by
    rw [Db.reports, Table.get?_insert hinsert, Db.reports]
    split
    · rename_i he
      rw [he, Table.insert?_free hinsert]
      exact hdispatched.unreported
    · rfl
  insertAssignment _ _ := .same rfl rfl
  touchPolicy _ _ := .same rfl rfl
  updateExecutions {db t} h := .same rfl <| funext fun e => by
    dsimp only [Db.reports]
    cases hrow : db.executions.get? e with
    | none => rw [h.absent e hrow]
    | some row =>
        obtain ⟨row', hrow', hfollows⟩ := h.kept e row hrow
        rw [hrow']
        cases hfollows <;> rfl
  updateAssignments _ := .same rfl rfl
  elsewhere h := .same (congrArg WatchedTables.events h) <| congrArg
    (fun t e => ((t.executions.get? e).map ExecutionRow.lastEventSequence).getD 0) h
  writeKeys := .same rfl rfl

theorem Db.Records.append {v : Id} {row : ExecutionEventRow}
    (hinsert : db.events.insert? v row = some db'.events)
    (hnext : row.sourceSequence = db.reports row.executionId + 1)
    (hreports : ∀ e, db'.reports e = if e = row.executionId then row.sourceSequence else
      db.reports e) : db.Records db' := by
  have hget := Table.get?_insert hinsert
  have hfree := Table.insert?_free hinsert
  refine ⟨fun h => ⟨?_, ?_, ?_⟩, ?_⟩
  · intro w event hw
    have hold := h.numbered w event
    grind
  · intro w w' event event' hw hw' hsame hnumber
    have hold := h.numbered w event
    have hold' := h.numbered w' event'
    have honce := h.once w w' event event'
    grind
  · intro e n hn hle
    have hold := h.complete e n hn
    grind
  · grind

theorem recordExecutionEvent_records {view : GroupView} {identity : AgentIdentity}
    {event : ExecutionObservation} {replayed : Bool}
    (h : recordExecutionEvent codec env view identity event db = .ok (replayed, db')) :
    db.Records db' := by
  have F := recordsReports codec env fun _ _ => False
  obtain ⟨-, rfl, -⟩ | ⟨-, execution, run, _, db₁, db₂, db₃, db₄, hrecording⟩ :=
    recordExecutionEvent_ok h
  · exact F.refl _
  have hrow := hrecording.execution_row
  have hlast : db.reports event.executionId = execution.lastEventSequence := by
    rw [Db.reports, hrow]
    rfl
  have hinserted := hrecording.inserted
  simp only [insertExecutionEvent, bind_ok_iff, need_ok_iff, pure_ok_iff] at hinserted
  obtain ⟨_, -, events, hevents, rfl⟩ := hinserted
  obtain ⟨artifacts, rfl⟩ :
      ∃ artifacts, db₂ = { db with events := events, artifacts := artifacts } := by
    have hpublished := hrecording.published
    split at hpublished
    · exact insertArtifacts_eq _ hpublished
    · cases hpublished
      exact ⟨db.artifacts, rfl⟩
  obtain ⟨new, _, _, _, hreports, rfl⟩ :=
    recordTransition_reports (by exact hrow) hrecording.transition
  refine F.trans (F.trans (.append hevents ?_ fun e => ?_) (F.completeGroup hrecording.group)) ?_
  · rw [hlast]
    exact (checkExecutionEvent_ok hrecording.checked).1
  · rw [Db.reports, Table.get?_modify]
    split
    · rename_i he
      rw [he, hrow]
      exact hreports.sequence
    · rfl
  · have hconfidence := hrecording.confidence
    unfold Db.updateExecution at hconfidence
    split at hconfidence
    · cases hconfidence
      exact F.refl _
    · rename_i old hold
      cases hconfidence
      refine .same rfl (funext fun e => ?_)
      rw [Db.reports, Table.get?_modify]
      split
      · rename_i he
        rw [Db.reports, he, hold]
        rfl
      · rfl

theorem Operation.apply_records (codec : Codec) (env : Env) (operation : Operation) (db : Db) :
    db.Records (operation.apply codec env db) := by
  have hcall := Call.apply_footprint ⟨env, operation⟩ (recordsReports codec env _) db
    (fun _ _ => .same rfl rfl) fun _ _ _ _ h => recordExecutionEvent_records h
  cases operation with
  | configure => exact .same rfl rfl
  | _ => exact hcall

theorem ServiceCall.records (call : ServiceCall) (platform : Platform) (db : Db) :
    db.Records (call.apply platform db) := by
  obtain ⟨operation, -, hwork⟩ | hapart := call.apart platform db
  · rw [hwork]
    exact operation.apply_records platform.codec call.env db
  · exact .same (congrArg WorkTables.events hapart.work) <| congrArg
      (fun t e => ((t.executions.get? e).map ExecutionRow.lastEventSequence).getD 0) hapart.work

end Journal

namespace Service

variable {platform : Platform} {db db' : Db}

/-- With targets, agents and logs in play, the tables of the lifecycle stay coupled, no node of
a graph waits for what cannot happen any more, and what is final or asked to be cancelled
stays so. -/
theorem lifecycle_kept (h : Arises platform db) : db.LifecycleCoupled ∧
    (∀ j, ¬db.board.Stuck j) ∧ ∀ db', Later platform db db' → db.FinalKept db' := by
  have hs := h.sound
  refine ⟨lifecycleCoupled_of_coupled hs.coupled, hs.unstuck, fun db' hlater => ?_⟩
  exact hlater.relates (P := fun d => Sound d.board) (R := Db.FinalKept) hs
    (fun _ call _ hs _ hstep => hstep ▸ call.sound platform hs)
    (fun _ => .of_workTables rfl) (fun _ _ _ => .trans)
    fun _ call _ hs _ hstep => hstep ▸ call.finalKept platform hs

/-- Whatever is called, the reports about an execution are numbered without gap or repetition
up to the last one, and no report is changed or removed. -/
theorem reports_journaled (h : Arises platform db) : db.Journaled ∧
    ∀ db', Later platform db db' → ∀ v event, db.events.get? v = some event →
      db'.events.get? v = some event := by
  have hrecords : ∀ {d d' : Db}, Later platform d d' → d.Records d' := fun {d _} hlater =>
    hlater.invariant (P := d.Records) (.same rfl rfl) fun _ call _ hd _ hstep =>
      hstep ▸ (recordsReports platform.codec call.env fun _ _ => False).trans hd
        (call.records platform _)
  refine ⟨(hrecords h).journaled ⟨?_, ?_, ?_⟩, fun db' hlater => (hrecords hlater).kept⟩
  · exact fun _ _ h => by cases h
  · exact fun _ _ _ _ h => by cases h
  · exact fun _ n hn hle => absurd (hn.trans hle) (Nat.not_succ_le_zero 0)

/-- Work, agents and offers belong to rows of their own namespace, and nothing that says where
they belong, what they are or where they were placed is rewritten or removed. -/
theorem tenancy_kept (h : Arises platform db) : db.roster.Bound ∧
    ∀ db', Later platform db db' → db.roster.Extends db'.roster ∧ db.Preserves db' ∧
      ∀ t row, db.targets.get? t = some row →
        ∃ row', db'.targets.get? t = some row' ∧ row.Follows row' := by
  exact ⟨h.bound, fun db' hlater => ⟨hlater.extends, hlater.preserves,
    fun _ _ => hlater.target_follows⟩⟩

end Service

namespace Sample

def slurmReport (sequence : Nat) (type : EventType) (state : NativeState)
    (outcome : Option Outcome) : ExecutionObservation :=
  { completion 41 .success with
    eventId := 100 + sequence, sequence := sequence, type := type, outcome := outcome
    nativeId := "77", schedulerBackend := "slurm", schedulerState := some state }

def completing : List ServiceCall :=
  [⟨env 10, .work (.acceptAssignment ⟨5, 1, 11⟩ { acceptance with targetGenerationId := 11 })⟩,
    ⟨env 11, .work (.recordExecutionEvent ⟨5, 1, 11⟩
      (slurmReport 1 .schedulerSubmitted .queued none))⟩,
    ⟨env 12, .work (.recordExecutionEvent ⟨5, 1, 11⟩
      (slurmReport 2 .schedulerObserved .running none))⟩,
    ⟨env 13, .work (.recordExecutionEvent ⟨5, 1, 11⟩
      (slurmReport 3 .schedulerCompleted .completed (some .success)))⟩]

def completed : Db := Service.run platform dispatched completing

theorem completed_later : Service.Later platform dispatched completed :=
  Service.later_run platform dispatched completing

theorem completed_rows :
    ((completed.jobs.get? 10).map JobRow.progress = some (.terminal .success) ∧
      (completed.jobs.get? 11).map JobRow.progress = some (.live .accepted)) ∧
    completed.reports 41 = 3 ∧ (completed.events.get? 102).isSome = true := by decide +kernel

end Sample

/-- When the first node of the sample has succeeded, the second one is not stuck. -/
theorem lifecycle_kept_pair : Sample.completed.LifecycleCoupled ∧
    ¬Sample.completed.board.Stuck 11 ∧
    (∀ db', Service.Later Sample.platform Sample.completed db' → Sample.completed.FinalKept db') ∧
    (Sample.completed.jobs.get? 10).map JobRow.progress = some (.terminal .success) ∧
    (Sample.completed.jobs.get? 11).map JobRow.progress = some (.live .accepted) := by
  have h := Service.lifecycle_kept (Sample.dispatched_later.trans Sample.completed_later)
  exact ⟨h.1, h.2.1 11, h.2.2, Sample.completed_rows.1⟩

theorem tenancy_kept_dispatched : Sample.dispatched.roster.Bound ∧
    Sample.dispatched.roster.Extends Sample.completed.roster ∧
    Sample.dispatched.Preserves Sample.completed ∧
    (Sample.dispatched.partitions.get? 1000).isSome ∧
    (Sample.dispatched.roster.job 10).map JobIdentity.graphId = some (some 20) ∧
    (Sample.dispatched.roster.job 30).map JobIdentity.collectionId = some (some 21) ∧
    (Sample.dispatched.roster.run 50).map RunIdentity.jobId = some 30 ∧
    (Sample.dispatched.roster.execution 51).map ExecutionIdentity.runId = some 50 ∧
    (Sample.dispatched.roster.assignment 52).map AssignmentIdentity.executionId = some 51 := by
  have h := Service.tenancy_kept Sample.dispatched_later
  have hlater := h.2 _ Sample.completed_later
  exact ⟨h.1, hlater.1, hlater.2.1, by decide +kernel⟩

theorem reports_journaled_three : Sample.completed.Journaled ∧ Sample.completed.reports 41 = 3 ∧
    ∀ db', Service.Later Sample.platform Sample.completed db' →
      db'.events.get? 102 = Sample.completed.events.get? 102 := by
  have h := Service.reports_journaled (Sample.dispatched_later.trans Sample.completed_later)
  obtain ⟨-, hthree, hsome⟩ := Sample.completed_rows
  obtain ⟨event, hevent⟩ := Option.isSome_iff_exists.mp hsome
  refine ⟨h.1, hthree, fun db' hlater => ?_⟩
  rw [hevent]
  exact h.2 db' hlater 102 event hevent

end JobmanControl
