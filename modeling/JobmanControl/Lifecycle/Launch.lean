import JobmanControl.Lifecycle.Answers

/-!
Repeating an acceptance. The first call writes the launch authorization into the rows of
the assignment and the execution; a repeated call reads it back from there. Every column
it reads is written once, except the revision of the execution, which each report and each
projection of silence raises.
-/

namespace JobmanControl

open Relational Lifecycle Lifecycle.Board

/-- Something besides its acceptance was written to the execution. -/
def ExecutionRow.Noted (row : ExecutionRow) : Prop :=
  0 < row.lastEventSequence ∨ row.confidence ≠ .current ∨
    row.progress = .terminal ⟨.cancelled, .cancelledBeforeLaunch⟩

/-- How an execution that is past its acceptance may differ later. -/
structure ExecutionRow.Continues (old new : ExecutionRow) : Prop where
  columns : new.columns = old.columns
  launched : new.progress ≠ .live .planned
  sequence : old.lastEventSequence ≤ new.lastEventSequence
  revised : (new.revision = old.revision ∧ (new.Noted ↔ old.Noted)) ∨
    (old.revision < new.revision ∧ new.Noted)

variable {event : ExecutionObservation} {e : Id}

section Rows

variable {old mid new : ExecutionRow}

theorem ExecutionRow.Continues.refl (h : old.progress ≠ .live .planned) : old.Continues old :=
  ⟨rfl, h, le_rfl, Or.inl ⟨rfl, Iff.rfl⟩⟩

theorem ExecutionRow.Continues.trans (h : old.Continues mid) (h' : mid.Continues new) :
    old.Continues new := by
  refine ⟨h'.columns.trans h.columns, h'.launched, h.sequence.trans h'.sequence, ?_⟩
  obtain ⟨hsame, hnoted⟩ | ⟨hless, hnoted⟩ := h.revised
  · obtain ⟨hsame', hnoted'⟩ | ⟨hless', hnoted'⟩ := h'.revised
    · exact Or.inl ⟨hsame'.trans hsame, hnoted'.trans hnoted⟩
    · exact Or.inr ⟨hsame ▸ hless', hnoted'⟩
  · obtain ⟨hsame', hnoted'⟩ | ⟨hless', hnoted'⟩ := h'.revised
    · exact Or.inr ⟨hsame' ▸ hless, hnoted'.mpr hnoted⟩
    · exact Or.inr ⟨hless.trans hless', hnoted'⟩

theorem ExecutionRow.Follows.continues (h : old.Follows new)
    (hlaunched : old.progress ≠ .live .planned) : old.Continues new := by
  cases h with
  | same => exact .refl hlaunched
  | withdrawn => exact ⟨rfl, by simp, le_rfl, Or.inr ⟨Nat.lt_succ_self _, Or.inr (Or.inr rfl)⟩⟩
  | accepted _ _ hplanned => exact absurd hplanned hlaunched
  | stale => exact ⟨rfl, hlaunched, le_rfl, Or.inr ⟨Nat.lt_succ_self _, Or.inr (Or.inl (by simp))⟩⟩

/-- A row that is planned after a statement was planned before it. -/
theorem ExecutionRow.Follows.planned (h : old.Follows new)
    (hplanned : new.progress = .live .planned) : new = old := by
  cases h with
  | same => rfl
  | withdrawn => cases hplanned
  | accepted => cases hplanned
  | stale _ hlaunched => exact absurd hplanned hlaunched

theorem reportedProgress_launched {codec : Codec}
    {old new : Progress ExecutionPhase ExecutionResult}
    (h : reportedProgress codec event old = some new) (hlaunched : old ≠ .live .planned) :
    new ≠ .live .planned := by
  unfold reportedProgress at h
  split at h
  case h_1 =>
    cases h
    simp
  case h_2 | h_3 | h_4 =>
    cases h
    split
    · simp
    · exact hlaunched
  case h_5 | h_6 =>
    simp only [Option.bind_eq_bind, Option.bind_eq_some_iff, Option.pure_def,
      Option.some.injEq] at h
    obtain ⟨_, -, _, -, rfl⟩ := h
    simp

theorem ExecutionRow.Reports.continues {codec : Codec} (h : old.Reports codec event new)
    (hsequence : event.sequence = old.lastEventSequence + 1)
    (hlaunched : old.progress ≠ .live .planned) : old.Continues new := by
  refine ⟨h.columns, reportedProgress_launched h.progress hlaunched, ?_, Or.inr ⟨?_, Or.inl ?_⟩⟩
  · rw [h.sequence, hsequence]
    exact Nat.le_succ _
  · rw [h.revision]
    exact Nat.lt_succ_self _
  · rw [h.sequence, hsequence]
    exact Nat.succ_pos _

theorem ExecutionRow.continues_confidence (confidence : Confidence)
    (hlaunched : old.progress ≠ .live .planned) (hreported : 0 < old.lastEventSequence) :
    old.Continues { old with confidence := confidence } :=
  ⟨rfl, hlaunched, le_rfl, Or.inl ⟨rfl, iff_of_true (Or.inl hreported) (Or.inl hreported)⟩⟩

theorem AssignmentRow.Follows.decided {old new : AssignmentRow} (h : old.Follows new)
    (hdecided : old.state ≠ .offered) : new = old := by
  cases h with
  | same => rfl
  | withdrawn hoffered => exact absurd hoffered hdecided
  | accepted _ _ _ hoffered => exact absurd hoffered hdecided

end Rows

/-- What becomes of launched executions, of planned ones, and of decided assignments. -/
structure LaunchesKept (db db' : Db) : Prop where
  launched : ∀ e row, db.executions.get? e = some row → row.progress ≠ .live .planned →
    ∃ row', db'.executions.get? e = some row' ∧ row.Continues row'
  planned : ∀ e row, db'.executions.get? e = some row → row.progress = .live .planned →
    db.executions.get? e = some row ∨ row.Fresh
  decided : ∀ a row, db.assignments.get? a = some row → row.state ≠ .offered →
    db'.assignments.get? a = some row

namespace LaunchesKept

variable {codec : Codec} {env : Env} {db db' db'' : Db}

theorem same (hexecutions : db'.executions = db.executions)
    (hassignments : db'.assignments = db.assignments) : LaunchesKept db db' := by
  refine ⟨?_, ?_, ?_⟩
  · intro e row hrow hlaunched
    exact ⟨row, hexecutions ▸ hrow, .refl hlaunched⟩
  · intro e row hrow _
    exact Or.inl (hexecutions ▸ hrow)
  · intro a row hrow _
    exact hassignments ▸ hrow

theorem trans (h : LaunchesKept db db') (h' : LaunchesKept db' db'') : LaunchesKept db db'' := by
  refine ⟨?_, ?_, ?_⟩
  · intro e row hrow hlaunched
    obtain ⟨mid, hmid, hcontinues⟩ := h.launched e row hrow hlaunched
    obtain ⟨new, hnew, hcontinues'⟩ := h'.launched e mid hmid hcontinues.launched
    exact ⟨new, hnew, hcontinues.trans hcontinues'⟩
  · intro e row hrow hplanned
    obtain hold | hfresh := h'.planned e row hrow hplanned
    · exact h.planned e row hold hplanned
    · exact Or.inr hfresh
  · intro a row hrow hdecided
    exact h'.decided a row (h.decided a row hrow hdecided) hdecided

theorem footprint (codec : Codec) (env : Env) (asked : JobSubmission → Grouping → Prop) :
    CallFootprint codec env asked LaunchesKept where
  refl _ := same rfl rfl
  trans := trans
  updateJob _ h := by
    obtain ⟨jobs, outbox, rfl⟩ := Db.updateJob_eq h
    exact same rfl rfl
  updateRun _ h := by
    obtain ⟨runs, rfl⟩ := Db.updateRun_eq h
    exact same rfl rfl
  insertOutbox h _ := by
    obtain ⟨outbox, rfl⟩ := insertOutbox_ok h
    exact same rfl rfl
  insertWorkload _ := same rfl rfl
  insertCollection _ := same rfl rfl
  insertGraph _ := same rfl rfl
  touchCollection _ _ := same rfl rfl
  touchGraph _ _ := same rfl rfl
  insertJob _ _ _ := same rfl rfl
  insertItem _ _ := same rfl rfl
  insertNode _ _ _ := same rfl rfl
  insertRun _ _ := same rfl rfl
  insertExecution := by
    intro db id row t hinsert hdispatched
    have hget := Table.get?_insert hinsert
    have hfree := Table.insert?_free hinsert
    refine ⟨?_, ?_, fun _ _ hrow _ => hrow⟩
    · intro e old hold hlaunched
      have hne : e ≠ id := by
        rintro rfl
        cases hfree.symm.trans hold
      exact ⟨old, by rw [hget, if_neg hne]; exact hold, .refl hlaunched⟩
    · intro e new hnew _
      dsimp only at hnew
      rw [hget] at hnew
      split at hnew
      · cases hnew
        exact Or.inr hdispatched.toFresh
      · exact Or.inl hnew
  touchPolicy _ _ := same rfl rfl
  insertAssignment := by
    intro db id row t hinsert _
    refine ⟨fun e row hrow hlaunched => ⟨row, hrow, .refl hlaunched⟩,
      fun _ _ hrow _ => Or.inl hrow, ?_⟩
    intro a old hold _
    exact Table.insert?_keeps hinsert hold
  updateExecutions := by
    intro db t h
    refine ⟨?_, ?_, fun _ _ hrow _ => hrow⟩
    · intro e row hrow hlaunched
      obtain ⟨new, hnew, hfollows⟩ := h.kept e row hrow
      exact ⟨new, hnew, hfollows.continues hlaunched⟩
    · intro e row hrow hplanned
      cases hold : db.executions.get? e with
      | none => cases (h.absent e hold).symm.trans hrow
      | some old =>
          obtain ⟨new, hnew, hfollows⟩ := h.kept e old hold
          cases hnew.symm.trans hrow
          exact Or.inl (congrArg some (hfollows.planned hplanned).symm)
  updateAssignments := by
    intro db t h
    refine ⟨fun e row hrow hlaunched => ⟨row, hrow, .refl hlaunched⟩,
      fun _ _ hrow _ => Or.inl hrow, ?_⟩
    intro a row hrow hdecided
    obtain ⟨new, hnew, hfollows⟩ := h.kept a row hrow
    cases hfollows.decided hdecided
    exact hnew
  elsewhere h := same (congrArg WatchedTables.executions h) (congrArg WatchedTables.assignments h)
  writeKeys := same rfl rfl

/-- One launched row is rewritten. -/
theorem modify {old new : ExecutionRow} (hold : db.executions.get? e = some old)
    (hcontinues : old.Continues new)
    (hexecutions : db'.executions = db.executions.modify e fun _ => new)
    (hassignments : db'.assignments = db.assignments) : LaunchesKept db db' := by
  refine ⟨?_, ?_, fun a row hrow _ => hassignments ▸ hrow⟩
  · intro k row hrow hlaunched
    rw [hexecutions, Table.get?_modify]
    split
    · rename_i hk
      subst hk
      cases hold.symm.trans hrow
      exact ⟨new, by rw [hold]; rfl, hcontinues⟩
    · exact ⟨row, hrow, .refl hlaunched⟩
  · intro k row hrow hplanned
    rw [hexecutions, Table.get?_modify] at hrow
    split at hrow
    · rename_i hk
      subst hk
      rw [hold] at hrow
      cases hrow
      exact absurd hplanned hcontinues.launched
    · exact Or.inl hrow

theorem recording {view : GroupView} {identity : AgentIdentity} {execution : ExecutionRow}
    {run : RunRow} {generation : GenerationRow} {db₁ db₂ db₃ db₄ : Db}
    (h : Recording codec env view identity event execution run generation db db₁ db₂ db₃ db₄ db') :
    LaunchesKept db db' ∧ ∃ row, db'.executions.get? event.executionId = some row ∧
      row.confidence = observedConfidence event := by
  obtain ⟨new, events, artifacts, runs, jobs, outbox, hreports, hdb₃⟩ := h.before_group
  obtain ⟨hsequence, hvalid⟩ := checkExecutionEvent_ok h.checked
  have hlaunched : execution.progress ≠ .live .planned := by
    obtain hlive | hlive := validEventTransition_live hvalid <;> rw [hlive] <;> simp
  have hcontinues := hreports.continues hsequence hlaunched
  have hreport : LaunchesKept db db₃ := by
    rw [hdb₃]
    exact modify h.execution_row hcontinues rfl rfl
  have hgroup : LaunchesKept db₃ db₄ := (footprint codec env fun _ _ => False).completeGroup h.group
  -- The row of the execution when its confidence is written.
  have hnew : db₃.executions.get? event.executionId = some new := by
    rw [hdb₃, Table.get?_modify_self, h.execution_row]
    rfl
  obtain ⟨row, hrow, hrest⟩ := hgroup.launched _ new hnew hcontinues.launched
  have hreported : 0 < row.lastEventSequence := by
    refine lt_of_lt_of_le ?_ hrest.sequence
    rw [hreports.sequence, hsequence]
    exact Nat.succ_pos _
  obtain ⟨final, hfinal, rfl⟩ := Db.updateExecution_eq h.confidence hrow
  cases hfinal
  refine ⟨(hreport.trans hgroup).trans
    (modify hrow (ExecutionRow.continues_confidence _ hrest.launched hreported) rfl rfl), ?_⟩
  exact ⟨{ row with confidence := observedConfidence event }, by simp [hrow], rfl⟩

theorem recordExecutionEvent {view : GroupView} {identity : AgentIdentity} {replayed : Bool}
    (h : recordExecutionEvent codec env view identity event db = .ok (replayed, db')) :
    LaunchesKept db db' := by
  obtain ⟨-, rfl, -⟩ | ⟨-, execution, run, generation, db₁, db₂, db₃, db₄, h⟩ :=
    recordExecutionEvent_ok h
  · exact same rfl rfl
  · exact (recording h).1

theorem apply (codec : Codec) (call : Call) (db : Db) : LaunchesKept db (call.apply codec db) :=
  Call.apply_footprint call (footprint codec call.env _) db (fun _ _ => same rfl rfl)
    fun _ _ _ _ => recordExecutionEvent

theorem later (h : Db.Later codec db db') : LaunchesKept db db' := by
  induction h with
  | refl => exact same rfl rfl
  | tail call _ _ hstep ih =>
      subst hstep
      exact ih.trans (apply codec call _)

end LaunchesKept

theorem planned_fresh {codec : Codec} {db : Db} (h : Db.Arises codec db) {row : ExecutionRow}
    (hrow : db.executions.get? e = some row) (hplanned : row.progress = .live .planned) :
    row.Fresh := by
  obtain hempty | hfresh := (LaunchesKept.later h).planned e row hrow hplanned
  · cases hempty
  · exact hfresh

def AssignmentRow.accept (row : AssignmentRow) (env : Env) (acceptance : Acceptance) :
    AssignmentRow :=
  { row with state := .accepted env.now acceptance.requestDigest acceptance.requestDocument }

def ExecutionRow.accept (row : ExecutionRow) (env : Env) : ExecutionRow :=
  { row with progress := .live .accepted, revision := row.revision + 1, acceptedAt := some env.now }

section Acceptance

variable {codec : Codec} {env env' : Env} {identity : AgentIdentity} {acceptance : Acceptance}
  {launch : LaunchAuthorization} {db db₁ db' : Db}

/-- The rows of an offer, and what the first acceptance makes of them. -/
structure Accepts (env : Env) (identity : AgentIdentity) (acceptance : Acceptance)
    (bundle : AssignmentBundle) (launch : LaunchAuthorization) (db db₁ : Db) : Prop where
  found : assignmentBundle db acceptance.deliveryId identity.namespaceId = some bundle
  allowed : bundle.assignment.executionId = acceptance.executionId ∧
    bundle.assignment.agentId = identity.agentId ∧ acceptance.agentId = identity.agentId ∧
    bundle.execution.targetGenerationId = identity.targetGenerationId ∧
    acceptance.targetGenerationId = bundle.execution.targetGenerationId ∧
    acceptance.effectiveExecutionDigest = bundle.execution.effectiveSpecDigest
  planned : bundle.execution.progress = .live .planned
  launch_eq : launch = ⟨acceptance.deliveryId, bundle.assignment.executionId,
    bundle.assignment.agentId, bundle.execution.targetGenerationId,
    bundle.execution.effectiveSpecDigest, bundle.execution.revision + 1, env.now, false⟩
  assignment : db₁.assignments.get? acceptance.deliveryId =
    some (bundle.assignment.accept env acceptance)
  execution : db₁.executions.get? bundle.assignment.executionId =
    some (bundle.execution.accept env)

theorem assignmentBundle_ok {deliveryId namespaceId : Id} {bundle : AssignmentBundle}
    (h : assignmentBundle db deliveryId namespaceId = some bundle) :
    bundle.assignment.namespaceId = namespaceId ∧
      db.executions.get? bundle.assignment.executionId = some bundle.execution := by
  simp only [assignmentBundle, Option.bind_eq_bind, Option.bind_eq_some_iff, Option.guard_eq_some',
    Option.pure_def, Option.some.injEq] at h
  obtain ⟨assignment, -, _, hns, execution, hexecution, run, -, job, -, rfl⟩ := h
  exact ⟨hns, hexecution⟩

theorem accepts_of_first (hc : Coupled db.board)
    (h : acceptAssignment codec env identity acceptance db = .ok (launch, db₁))
    (hfirst : launch.replayed = false) :
    ∃ bundle, Accepts env identity acceptance bundle launch db db₁ := by
  simp only [acceptAssignment, bind_ok_iff, need_ok_iff, ensure_ok_iff] at h
  obtain ⟨bundle, hfound, _, hallowed, h⟩ := h
  obtain ⟨hassign, hb⟩ := bundle_of_assignmentBundle hfound
  obtain ⟨-, hrow⟩ := assignmentBundle_ok hfound
  split at h
  · simp only [bind_ok_iff, pure_ok_iff, Prod.mk.injEq] at h
    obtain ⟨_, -, rfl, -⟩ := h
    cases hfirst
  · rename_i hoffered
    have hplanned : bundle.execution.progress = .live .planned := by
      have hphases := (hc.stage _ _ _ _ _ _ _ _ hb).open_offer (by
        show bundle.assignment.state.decision = .offered
        rw [hoffered]
        rfl)
      exact congrArg Phases.execution hphases
    simp only [bind_ok_iff, pure_ok_iff, Prod.mk.injEq, advanceAccepted] at h
    obtain ⟨_, -, db₄, ⟨db₂, hexecution, db₃, hrun, hjob⟩, rfl, rfl⟩ := h
    obtain ⟨new, hnew, rfl⟩ := Db.updateExecution_eq hexecution hrow
    obtain ⟨runs, rfl⟩ := Db.updateRun_eq hrun
    obtain ⟨jobs, outbox, rfl⟩ := Db.updateJob_eq hjob
    rw [if_pos hplanned] at hnew
    cases hnew
    refine ⟨bundle, hfound, hallowed, hplanned, rfl, ?_, ?_⟩
    · simp [Db.appendAudit, hassign, hoffered, AssignmentRow.accept]
    · simp [Db.appendAudit, hrow, ExecutionRow.accept]
  · cases h

/-- A repeated acceptance reads the launch authorization back, with the revision its
execution has by now. -/
theorem Accepts.repeated (codec : Codec) (env' : Env) {bundle : AssignmentBundle}
    (h : Accepts env identity acceptance bundle launch db db₁) (hc : Coupled db.board)
    (hmoves : Moves .anything db.board db'.board) (hkept : LaunchesKept db₁ db') :
    ∃ row, db'.executions.get? acceptance.executionId = some row ∧
      (bundle.execution.accept env).Continues row ∧
      acceptAssignment codec env' identity acceptance db' =
        .ok ({ launch with revision := row.revision, replayed := true }, db') := by
  obtain ⟨-, hb⟩ := bundle_of_assignmentBundle h.found
  obtain ⟨hns, -⟩ := assignmentBundle_ok h.found
  obtain ⟨row, hrow, hcontinues⟩ := hkept.launched _ _ h.execution (by simp [ExecutionRow.accept])
  have hassign := hkept.decided _ _ h.assignment (by simp [AssignmentRow.accept])
  have hcolumns := hcontinues.columns
  simp only [ExecutionRow.columns, ExecutionRow.accept, Prod.mk.injEq] at hcolumns
  obtain ⟨-, hrun, -, -, hgeneration, hdigest, -⟩ := hcolumns
  -- The run and the job of the bundle are still there.
  obtain ⟨R', hR', hRj, -⟩ := (hmoves.persists hc).run _ _ hb.run
  obtain ⟨run, hrun', rfl⟩ := Db.board_run_eq_some.mp hR'
  obtain ⟨J', hJ', -⟩ := (hmoves.persists hc).job _ _ hb.job
  obtain ⟨job, hjob', rfl⟩ := Db.board_job_eq_some.mp hJ'
  have hRj' : run.jobId = bundle.run.jobId := hRj
  have hfound : assignmentBundle db' acceptance.deliveryId identity.namespaceId =
      some ⟨bundle.assignment.accept env acceptance, row, run, job⟩ := by
    have hrow' : db'.executions.get? (bundle.assignment.accept env acceptance).executionId =
        some row := hrow
    have hns' : (bundle.assignment.accept env acceptance).namespaceId = identity.namespaceId := hns
    simp only [assignmentBundle, hassign, Option.bind_eq_bind, Option.bind_some, hns', guard_true,
      hrow', hrun, hrun', hRj', hjob', Option.pure_def]
  refine ⟨row, h.allowed.1 ▸ hrow, hcontinues, ?_⟩
  obtain ⟨h₁, h₂, h₃, h₄, h₅, h₆⟩ := h.allowed
  rw [acceptAssignment, need_of_eq_some hfound, ok_bind]
  dsimp only
  rw [ensure_of_true (by
    refine ⟨h₁, h₂, h₃, ?_, ?_, ?_⟩
    · rw [hgeneration, h₄]
    · rw [hgeneration, h₅]
    · rw [hdigest, h₆]), ok_bind]
  simp only [AssignmentRow.accept, h.launch_eq, hgeneration, hdigest]
  rfl

theorem not_withdrawn (hc : Coupled db.board) {a : Id} {assignment : AssignmentRow}
    {row : ExecutionRow} (hassign : db.assignments.get? a = some assignment)
    (haccepted : assignment.state.decision = .accepted) (he : assignment.executionId = e)
    (hrow : db.executions.get? e = some row) :
    row.progress ≠ .terminal ⟨.cancelled, .cancelledBeforeLaunch⟩ := by
  intro hwithdrawn
  obtain ⟨j, J, R, a', A, hb⟩ := hc.linked.bundle_of_execution
    (Db.board_execution hrow)
  have hA := Db.board_assignment hassign
  have ha : a' = a := by
    refine hc.linked.assignment_unique a' a e hb.assignmentLink ?_
    rw [assignmentLink_eq hA, ← he]
    rfl
  subst ha
  cases hb.assignment.symm.trans hA
  exact (hc.stage _ _ _ _ _ _ _ _ hb).reported haccepted hwithdrawn rfl

/-- An acceptance that is repeated in any later state is answered with the authorization of
the first call, apart from the replay marker, and changes nothing, exactly when the
execution has not been reported on and has not fallen silent since. -/
theorem repeated_acceptance (harises : Db.Arises codec db)
    (haccept : acceptAssignment codec env identity acceptance db = .ok (launch, db₁))
    (hfirst : launch.replayed = false) (hlater : Db.Later codec db₁ db') :
    acceptAssignment codec env' identity acceptance db' =
        .ok ({ launch with replayed := true }, db') ↔
      ∃ execution, db'.executions.get? acceptance.executionId = some execution ∧
        execution.lastEventSequence = 0 ∧ execution.confidence = .current := by
  have hs := sound_later sound_empty harises
  have hstep : Db.Later codec db db₁ := by
    refine .tail ⟨env, .acceptAssignment identity acceptance⟩ .refl trivial ?_
    simp [Db.Step, Call.apply, atomically, haccept]
  have hmoves := moves_later hs (hstep.trans hlater)
  have hc' := hmoves.coupled hs.coupled
  obtain ⟨bundle, haccepts⟩ := accepts_of_first hs.coupled haccept hfirst
  have hkept := LaunchesKept.later hlater
  obtain ⟨row, hrow, hcontinues, hrepeated⟩ := haccepts.repeated codec env' hs.coupled hmoves hkept
  have hfresh := planned_fresh harises (assignmentBundle_ok haccepts.found).2 haccepts.planned
  have hunnoted : ¬(bundle.execution.accept env).Noted := by
    simp [ExecutionRow.Noted, ExecutionRow.accept, hfresh.unreported, hfresh.current]
  have hassign := hkept.decided _ _ haccepts.assignment (by simp [AssignmentRow.accept])
  have hnever := not_withdrawn hc' hassign rfl haccepts.allowed.1 hrow
  have hlaunch : launch.revision = (bundle.execution.accept env).revision := by
    rw [haccepts.launch_eq]
    rfl
  rw [hrepeated]
  constructor
  · intro hsame
    have hrevision : row.revision = launch.revision := by
      simp only [Except.ok.injEq, Prod.mk.injEq, LaunchAuthorization.mk.injEq, and_true,
        true_and] at hsame
      exact hsame
    obtain ⟨-, hnoted⟩ | ⟨hless, -⟩ := hcontinues.revised
    · have hclean : ¬row.Noted := fun h => hunnoted (hnoted.mp h)
      simp only [ExecutionRow.Noted, not_or, Nat.not_lt, Nat.le_zero, not_not] at hclean
      exact ⟨row, hrow, hclean.1, hclean.2.1⟩
    · rw [hrevision, hlaunch] at hless
      exact absurd hless (lt_irrefl _)
  · rintro ⟨row', hrow', hunreported, hcurrent⟩
    cases hrow.symm.trans hrow'
    have hclean : ¬row.Noted := by
      simp [ExecutionRow.Noted, hunreported, hcurrent, hnever]
    obtain ⟨hsame, -⟩ | ⟨-, hnoted⟩ := hcontinues.revised
    · rw [hsame, ← hlaunch]
    · exact absurd hnoted hclean

end Acceptance

namespace Sample

def accepted : Db := offered.run codec [⟨env 3, .acceptAssignment identity acceptance⟩]

def launch : LaunchAuthorization := ⟨42, 41, 5, 4, digest 41, 2, 3, false⟩

theorem accepted_eq :
    acceptAssignment codec (env 3) identity acceptance offered = .ok (launch, accepted) := by
  rfl

def acceptedCancelled : Db :=
  accepted.run codec [⟨env 4, .cancelJob authorization 10 "cancel-first-1" "cancel"⟩]

def acceptedStarted : Db :=
  accepted.run codec
    [⟨env 4, .recordExecutionEvent identity
      { completion 41 .success with type := .processStarted, nativeId := "1", outcome := none }⟩]

end Sample

/-- A request to cancel does not change the answer. -/
theorem repeated_acceptance_cancelled :
    acceptAssignment Sample.codec (Sample.env 5) Sample.identity Sample.acceptance
        Sample.acceptedCancelled =
      .ok ({ Sample.launch with replayed := true }, Sample.acceptedCancelled) := by
  refine (repeated_acceptance Sample.offered_arises Sample.accepted_eq rfl
    (Db.later_run Sample.codec Sample.accepted _)).mpr ?_
  obtain ⟨row, hrow, heq⟩ : ∃ row, Sample.acceptedCancelled.executions.get? 41 = some row ∧
      (row.lastEventSequence, row.confidence) = (0, .current) :=
    Option.map_eq_some_iff.mp (by decide)
  exact ⟨row, hrow, (Prod.mk.inj heq).1, (Prod.mk.inj heq).2⟩

/-- After the first report the repeated acceptance is answered with another revision. -/
theorem acceptance_answer_changes :
    acceptAssignment Sample.codec (Sample.env 3) Sample.identity Sample.acceptance Sample.offered =
        .ok (Sample.launch, Sample.accepted) ∧
      Db.Later Sample.codec Sample.accepted Sample.acceptedStarted ∧
      (acceptAssignment Sample.codec (Sample.env 5) Sample.identity Sample.acceptance
          Sample.acceptedStarted).map Prod.fst =
        .ok { Sample.launch with revision := 3, replayed := true } :=
  ⟨Sample.accepted_eq, Db.later_run Sample.codec Sample.accepted _, by decide⟩

end JobmanControl
