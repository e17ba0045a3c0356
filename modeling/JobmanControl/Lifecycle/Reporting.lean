import JobmanControl.Lifecycle.Completion
import JobmanControl.Store.Footprint

/-!
The transactions of dispatched work as moves: acceptance, the reported events
with what a completion does to the group, and the projection of silence.
-/

namespace JobmanControl

open Relational Lifecycle Lifecycle.Board Function

variable {db db' : Db} {codec : Codec} {env : Env} {bundle : AssignmentBundle}
  {launch : LaunchAuthorization}

variable {M : Licence}

variable {acceptance : Acceptance} {identity : AgentIdentity} {view : GroupView}

/-- The rows an acceptance locks are a bundle of the board. -/
theorem bundle_of_assignmentBundle {deliveryId namespaceId : Id}
    (h : assignmentBundle db deliveryId namespaceId = some bundle) :
    db.assignments.get? deliveryId = some bundle.assignment ∧
      db.board.Bundle bundle.run.jobId bundle.job.facts bundle.execution.runId bundle.run.facts
        bundle.assignment.executionId bundle.execution.facts deliveryId
        bundle.assignment.facts := by
  simp only [assignmentBundle, Option.bind_eq_bind, Option.bind_eq_some_iff] at h
  obtain ⟨assignment, hassign, _, -, execution, hexec, run, hrun, job, hjob, heq⟩ := h
  cases heq
  refine ⟨hassign, ⟨Db.board_job hjob,
    Db.board_run hrun, Db.board_execution hexec, Db.board_assignment hassign, rfl, rfl, rfl⟩⟩

theorem move_advanceAccepted {namespaceId : Id} (hc : Coupled db.board)
    (hbundle : assignmentBundle db acceptance.deliveryId namespaceId = some bundle)
    (hoffered : bundle.assignment.state = .offered)
    (h : advanceAccepted codec env acceptance bundle db = .ok db') :
    Move M db.board db'.board ∧ Only bundle.run.jobId db.board db'.board ∧
      ∃ J, db'.board.job bundle.run.jobId = some J ∧ J.progress = .live .acceptedExecution := by
  obtain ⟨hassign, hb⟩ := bundle_of_assignmentBundle hbundle
  have hphases := (hc.stage _ _ _ _ _ _ _ _ hb).open_offer (by
    show bundle.assignment.state.decision = .offered
    rw [hoffered]
    rfl)
  have hJp : bundle.job.progress = .live .assigning := congrArg Phases.job hphases
  have hRp : bundle.run.progress = .live .assigning := congrArg Phases.run hphases
  have hEp : bundle.execution.progress = .live .planned := congrArg Phases.execution hphases
  simp only [advanceAccepted, bind_ok_iff] at h
  obtain ⟨db₂, hexec, db₃, hrun, hjob⟩ := h
  -- The state once the offer is marked accepted, before the other three updates.
  generalize hmarked : ({ db with assignments := _ } : Db) = db₁ at hexec
  have hboard₁ : db₁.board =
      { db.board with
        assignment := update db.board.assignment acceptance.deliveryId
          (some ⟨bundle.assignment.executionId, .accepted⟩) } := by
    rw [← hmarked, Db.board_modify_assignment _ hassign, if_pos hoffered]
    rfl
  have hb₁ : db₁.board.Bundle bundle.run.jobId bundle.job.facts bundle.execution.runId
      bundle.run.facts bundle.assignment.executionId bundle.execution.facts
      acceptance.deliveryId ⟨bundle.assignment.executionId, .accepted⟩ := by
    rw [hboard₁]
    exact ⟨hb.job, hb.run, hb.execution, update_self _ _ _, rfl, rfl, rfl⟩
  obtain ⟨oldE, newE, oldR, newR, oldJ, newJ, hoE, hnE, hoR, hnR, hoJ, hnJ, hboard⟩ :=
    Db.board_updateWork_live hb₁ hexec hrun hjob (by
      rintro old changed hold ⟨⟩
      have hp : old.progress = .live .assigning := by
        rw [← hJp]
        exact congrArg JobFacts.progress hold
      rw [if_pos hp]
      rfl)
  have hpE : oldE.progress = .live .planned := (congrArg ExecutionFacts.progress hoE).trans hEp
  have hpR : oldR.progress = .live .assigning := (congrArg RunFacts.progress hoR).trans hRp
  have hpJ : oldJ.progress = .live .assigning := (congrArg JobFacts.progress hoJ).trans hJp
  rw [if_pos hpE] at hnE
  rw [if_pos hpR] at hnR
  rw [if_pos hpJ] at hnJ
  cases hnE
  cases hnR
  cases hnJ
  have hfinal : db'.board = db.board.putBundle bundle.run.jobId
      { bundle.job.facts with
        progress := .live .acceptedExecution, revision := bundle.job.facts.revision + 1 }
      bundle.execution.runId { bundle.run.facts with progress := .live .accepted }
      bundle.assignment.executionId { bundle.execution.facts with progress := .live .accepted }
      acceptance.deliveryId ⟨bundle.assignment.executionId, .accepted⟩ := by
    rw [hboard, hboard₁, ← hoE, ← hoR, ← hoJ]
    simp only [putBundle, update_idem]
    rfl
  rw [hfinal]
  refine ⟨Move.advance hb ⟨rfl, rfl, fun hd => hd, rfl, rfl, fun hd => hd, rfl, rfl, rfl⟩ ?_
    Or.inl, only_putBundle hb, _, update_self _ _ _, rfl⟩
  rw [hphases]
  exact .accept

theorem furthers_acceptAssignment (hc : Coupled db.board)
    (h : acceptAssignment codec env identity acceptance db = .ok (launch, db')) :
    Furthers M db.board db'.board := by
  simp only [acceptAssignment, bind_ok_iff, need_ok_iff] at h
  obtain ⟨bundle, hbundle, _, -, h⟩ := h
  split at h
  · simp only [bind_ok_iff, pure_ok_iff] at h
    obtain ⟨_, -, heq⟩ := h
    cases heq
    exact .nothing
  · rename_i hoffered
    simp only [bind_ok_iff, pure_ok_iff] at h
    obtain ⟨_, -, db₁, hadvance, heq⟩ := h
    cases heq
    obtain ⟨hmove, honly, J, hJ, hp⟩ := move_advanceAccepted hc hbundle hoffered hadvance
    exact .one (.single hmove) honly hJ hp
  · cases h

theorem effect_acceptAssignment {locked : Id → Bool} (hc : Coupled db.board)
    (h : acceptAssignment codec env identity acceptance db = .ok (launch, db')) :
    Effect M locked db.board db'.board :=
  (furthers_acceptAssignment hc h).effect

section Events

variable {event : ExecutionObservation} {j r a : Id} {J : JobFacts} {R : RunFacts}
  {E : ExecutionFacts} {A : AssignmentFacts}

theorem move_recordProcessStarted (hb : db.board.Bundle j J r R event.executionId E a A)
    (hengaged : Engaged (phases J R E A))
    (h : recordProcessStarted codec env event r j db = .ok db') :
    Move M db.board db'.board ∧ Only j db.board db'.board ∧
      ∃ J', db'.board.job j = some J' ∧ J'.progress = .live .running := by
  simp only [recordProcessStarted, enterRunning, bind_ok_iff] at h
  obtain ⟨db₁, hexec, db₂, hrun, hjob⟩ := h
  obtain ⟨oldE, newE, oldR, newR, oldJ, newJ, hoE, hnE, hoR, hnR, hoJ, hnJ, hboard⟩ :=
    Db.board_updateWork_live hb hexec hrun hjob (by
      intro old changed _ hf
      simp only [bind_ok_iff, Progress.enter_ok_iff, pure_ok_iff] at hf
      obtain ⟨_, ⟨-, rfl⟩, rfl⟩ := hf
      rfl)
  simp only [bind_ok_iff, Progress.enter_ok_iff, pure_ok_iff] at hnE hnR hnJ
  obtain ⟨_, ⟨-, rfl⟩, rfl⟩ := hnE
  obtain ⟨_, ⟨-, rfl⟩, rfl⟩ := hnR
  obtain ⟨_, ⟨-, rfl⟩, rfl⟩ := hnJ
  subst hoE hoR hoJ
  rw [hboard]
  exact ⟨Move.advance hb ⟨rfl, rfl, fun hd => hd, rfl, rfl, fun hd => hd, rfl, rfl, rfl⟩
    (hengaged.start rfl rfl rfl rfl) Or.inl, only_putBundle hb, _, update_self _ _ _, rfl⟩

theorem move_touchJob {e : Id} (hb : db.board.Bundle j J r R e E a A)
    (hengaged : Engaged (phases J R E A))
    (h : db.updateJob codec env j (fun job => .ok
      { job with revision := job.revision + 1, updatedAt := env.now }) = .ok db') :
    Move M db.board db'.board ∧ Only j db.board db'.board ∧
      ∃ J' p, db'.board.job j = some J' ∧ J'.progress = .live p := by
  obtain ⟨p, hp⟩ := hengaged.live.1
  obtain ⟨oldJ, newJ, hoJ, hnJ, hboard⟩ := Db.board_updateJob_live h hb.job (by
    rintro old changed hold ⟨⟩
    refine Or.inr ((Progress.not_isTerminal_iff _).mpr ⟨p, ?_⟩)
    rw [← hp, ← hold]
    rfl)
  cases hnJ
  subst hoJ
  rw [hboard, hb.putJob_eq]
  exact ⟨Move.advance hb ⟨rfl, rfl, fun hd => hd, rfl, rfl, fun hd => hd, rfl, rfl, rfl⟩
    (.keep hengaged) Or.inl, only_putBundle hb, _, p, update_self _ _ _, hp⟩

theorem move_recordScheduler (hb : db.board.Bundle j J r R event.executionId E a A)
    (hengaged : Engaged (phases J R E A))
    (h : recordScheduler codec env event r j db = .ok db') :
    Move M db.board db'.board ∧ Only j db.board db'.board ∧
      ∃ J' p, db'.board.job j = some J' ∧ J'.progress = .live p := by
  simp only [recordScheduler, bind_ok_iff] at h
  obtain ⟨scheduler, -, db₁, hexec, h⟩ := h
  by_cases hrunning : event.schedulerState = some .running
  · simp only [hrunning, if_true, bind_ok_iff] at hexec h
    obtain ⟨db₂, hrun, hjob⟩ := h
    obtain ⟨oldE, newE, oldR, newR, oldJ, newJ, hoE, hnE, hoR, hnR, hoJ, hnJ, hboard⟩ :=
      Db.board_updateWork_live hb hexec hrun hjob (by
        intro old changed _ hf
        simp only [bind_ok_iff, Progress.enter_ok_iff, pure_ok_iff] at hf
        obtain ⟨_, ⟨-, rfl⟩, rfl⟩ := hf
        rfl)
    simp only [bind_ok_iff, Progress.enter_ok_iff, pure_ok_iff] at hnE hnJ
    obtain ⟨_, ⟨-, rfl⟩, rfl⟩ := hnE
    obtain ⟨_, ⟨-, rfl⟩, rfl⟩ := hnJ
    subst hoE hoR hoJ
    have hR : newR.facts = { oldR.facts with progress := .live .running } := by
      have hphase : oldR.progress = .live .accepted ∨ oldR.progress = .live .running := hengaged.run
      cases hnR
      split
      · rfl
      · rename_i hne
        rw [← hphase.resolve_left hne]
        rfl
    rw [hboard, hR]
    exact ⟨Move.advance hb ⟨rfl, rfl, fun hd => hd, rfl, rfl, fun hd => hd, rfl, rfl, rfl⟩
      (hengaged.start rfl rfl rfl rfl) Or.inl, only_putBundle hb, _, _, update_self _ _ _, rfl⟩
  · simp only [if_neg hrunning] at hexec h
    have hboard₁ := Db.board_updateExecution_keep hexec (by
      rintro old new ⟨⟩
      rfl)
    rw [← hboard₁] at hb ⊢
    exact move_touchJob hb hengaged h

theorem move_recordCompleted {outcome : Outcome}
    (hb : db.board.Bundle j J r R event.executionId E a A)
    (hengaged : Engaged (phases J R E A)) (hreported : db.board.Reported event.executionId)
    (h : recordCompleted codec env event r j outcome db = .ok db') :
    Move M db.board db'.board ∧ Only j db.board db'.board ∧
      ∃ J', db'.board.job j = some J' ∧ J'.progress = .terminal outcome := by
  simp only [recordCompleted, finishWork, bind_ok_iff] at h
  obtain ⟨result, -, db₁, hexec, db₂, hrun, hjob⟩ := h
  obtain ⟨p, hp⟩ := hengaged.live.1
  obtain ⟨oldE, newE, oldR, newR, oldJ, newJ, n, o, hoE, hnE, hoR, hnR, hoJ, hnJ, ho, hfree,
      hboard⟩ :=
    Db.board_updateWork_terminal hb hp hexec hrun hjob (by
      rintro old changed - ⟨⟩
      rfl)
  cases hnR
  cases hnJ
  cases ho
  subst hoE hoR hoJ
  have hE : newE.facts =
      { oldE.facts with progress := .terminal ⟨outcome, .reported result⟩ } := by
    split at hnE
    · simp only [bind_ok_iff, pure_ok_iff] at hnE
      obtain ⟨_, -, rfl⟩ := hnE
      rfl
    · cases hnE
      rfl
  rw [hboard, hE]
  exact ⟨Move.finish hb ⟨rfl, rfl, fun hd => hd, rfl, rfl, fun hd => hd, rfl, rfl, rfl⟩
    (hengaged.complete rfl rfl rfl rfl) hfree fun _ => ⟨hreported, rfl⟩,
    (only_putBundle hb).putNotice _ _, _, update_self _ _ _, rfl⟩

theorem move_recordTransition (hb : db.board.Bundle j J r R event.executionId E a A)
    (hengaged : Engaged (phases J R E A))
    (hreported : completionEvent event.type = true → db.board.Reported event.executionId)
    (h : recordTransition codec env event r j db = .ok db') :
    Move M db.board db'.board ∧ Only j db.board db'.board ∧
      ∃ J', db'.board.job j = some J' ∧
        (completionEvent event.type = false → ∃ p, J'.progress = .live p) ∧
        (completionEvent event.type = true →
          ∃ o, event.outcome = some o ∧ J'.progress = .terminal o) := by
  unfold recordTransition at h
  cases htype : event.type with
  | processStarted =>
      simp only [htype] at h
      obtain ⟨hmove, honly, J', hJ', hp⟩ := move_recordProcessStarted hb hengaged h
      exact ⟨hmove, honly, J', hJ', fun _ => ⟨_, hp⟩, fun hc => by cases hc⟩
  | schedulerUncertain | schedulerSubmitted | schedulerObserved =>
      simp only [htype] at h
      obtain ⟨hmove, honly, J', p, hJ', hp⟩ := move_recordScheduler hb hengaged h
      exact ⟨hmove, honly, J', hJ', fun _ => ⟨p, hp⟩, fun hc => by cases hc⟩
  | processCompleted | schedulerCompleted =>
      simp only [htype, bind_ok_iff, need_ok_iff] at h
      obtain ⟨o, houtcome, hcompleted⟩ := h
      obtain ⟨hmove, honly, J', hJ', ho⟩ :=
        move_recordCompleted hb hengaged (hreported (by rw [htype]; rfl)) hcompleted
      exact ⟨hmove, honly, J', hJ', (fun hc => by cases hc), fun _ => ⟨o, houtcome, ho⟩⟩

theorem board_insertExecutionEvent (h : insertExecutionEvent env identity event db = .ok db') :
    db.board.event event.eventId = none ∧
      db'.board = { db.board with
        event := update db.board.event event.eventId
          (some ⟨event.executionId, completionEvent event.type⟩) } := by
  simp only [insertExecutionEvent, bind_ok_iff, need_ok_iff, pure_ok_iff] at h
  obtain ⟨_, -, events, hinsert, rfl⟩ := h
  have hfree := Table.insert?_free hinsert
  refine ⟨Option.map_eq_none_iff.mpr hfree, ?_⟩
  simp only [Db.board, Db.map_get?_insert ExecutionEventRow.facts hinsert]
  rfl

theorem board_insertArtifacts (l : List PublishedArtifact)
    (h : l.foldlM (insertArtifact identity event) db = .ok db') : db'.board = db.board := by
  refine foldlM_ok_induction (P := fun d => d.board = db.board) l ?_ rfl h
  intro d artifact d' _ hd hstep
  simp only [insertArtifact, bind_ok_iff, pure_ok_iff] at hstep
  obtain ⟨_, -, _, -, _, -, rfl⟩ := hstep
  exact hd

theorem validEventTransition_live {phase : Progress ExecutionPhase ExecutionResult}
    {type : EventType} (h : validEventTransition phase type = true) :
    phase = .live .accepted ∨ phase = .live .running := by
  cases type <;> simp only [validEventTransition, Bool.or_eq_true, decide_eq_true_eq] at h <;>
    first | exact h | exact Or.inl h

/-- A new event: what it does to the work it reports on, and then to the group. -/
structure RecordsEvent (codec : Codec) (env : Env) (view : GroupView) (identity : AgentIdentity)
    (event : ExecutionObservation) (M : Licence) (j : Id) (J J' : JobFacts) (db db₃ db₄ : Db) :
    Prop where
  bundle : ∃ r R E a A, db.board.Bundle j J r R event.executionId E a A ∧
    Engaged (phases J R E A)
  sameNamespace : J.namespaceId = identity.namespaceId
  writes : ∀ {R : Db → Db → Prop}, ReportFootprint codec env R → R db db₃
  moves : Moves M db.board db₃.board
  only : Only j db.board db₃.board
  after : db₃.board.job j = some J'
  live : completionEvent event.type = false → ∃ p, J'.progress = .live p
  ended : completionEvent event.type = true →
    ∃ o, event.outcome = some o ∧ J'.progress = .terminal o
  group : completeGroup codec env view identity.namespaceId j event db₃ = .ok db₄

theorem recordExecutionEvent_cases {replayed : Bool} (hc : Coupled db.board)
    (h : recordExecutionEvent codec env view identity event db = .ok (replayed, db')) :
    db' = db ∨ ∃ j J J' db₃ db₄,
      RecordsEvent codec env view identity event M j J J' db db₃ db₄ ∧
        db₄.updateExecution event.executionId (fun execution => .ok
          { execution with confidence := observedConfidence event }) = .ok db' := by
  obtain ⟨-, hsame, -⟩ | ⟨-, execution, run, generation, db₁, db₂, db₃, db₄, h⟩ :=
    recordExecutionEvent_ok h
  · exact Or.inl hsame
  have hE := Db.board_execution h.execution_row
  obtain ⟨j, J, R, a, A, hb⟩ := hc.linked.bundle_of_execution hE
  have hRun := Db.board_run h.run_row
  have hj : run.jobId = j := by
    rw [← hb.run_job, Option.some.inj (hb.run.symm.trans hRun)]
    rfl
  have hlive := validEventTransition_live (checkExecutionEvent_ok h.checked).2
  have hengaged := (hc.stage _ _ _ _ _ _ _ _ hb).engaged hlive
  obtain ⟨hfree, hboard₁⟩ := board_insertExecutionEvent h.inserted
  have hmove₁ : Move M db.board db₁.board := hboard₁ ▸ Move.record _ hfree hE hlive
  have hboard₂ : db₂.board = db₁.board := by
    have hpublished := h.published
    split at hpublished
    · exact board_insertArtifacts _ hpublished
    · cases hpublished
      rfl
  have hb₂ : db₂.board.Bundle j J execution.runId R event.executionId execution.facts a A := by
    rw [hboard₂, hboard₁]
    exact { hb with }
  have hreported : completionEvent event.type = true →
      db₂.board.Reported event.executionId := by
    intro hcomplete
    rw [hboard₂, hboard₁]
    exact ⟨event.eventId, _, update_self _ _ _, rfl, hcomplete⟩
  obtain ⟨hmove₃, honly, J', hJ', hopen, hdone⟩ :=
    move_recordTransition hb₂ hengaged hreported (hj ▸ h.transition)
  have honly₃ : Only j db.board db₃.board := by
    rw [hboard₂, hboard₁] at honly
    exact (only_event db.board j _).trans honly
  refine Or.inr ⟨j, J, J', db₃, db₄, ⟨⟨_, R, _, a, A, hb, hengaged⟩, ?_, fun F => F.beforeGroup h,
    .tail (.single hmove₁) (hboard₂ ▸ hmove₃), honly₃, hJ', hopen, hdone, hj ▸ h.group⟩,
    h.confidence⟩
  rw [hc.linked.bundle_namespace hb]
  exact h.sameNamespace

theorem RecordsEvent.effect {J' : JobFacts} {db₃ db₄ : Db}
    (h : RecordsEvent codec env view identity event M j J J' db db₃ db₄)
    (hlist : ∀ collectionId, Listed db₃.board (view.siblings db₃ collectionId j))
    (hc : Coupled db.board) (hw : Wired db.board) : Effect M view.locked db.board db₄.board := by
  obtain ⟨r, R, E, a, A, hb, -⟩ := h.bundle
  obtain ⟨J₁, hJ₁, hns', hg', -⟩ := (h.moves.persists hc).job j J hb.job
  cases hJ₁.symm.trans h.after
  have hgroup := h.group
  unfold completeGroup at hgroup
  split at hgroup
  · rename_i hcomplete
    simp only [bind_ok_iff] at hgroup
    obtain ⟨outcome, -, db₅, hcollection, hgraph⟩ := hgroup
    obtain ⟨hmoves₁, hedge₁, hframe₁⟩ :=
      moves_applyCollectionCompletion (M := M) (h.moves.coupled hc) hlist hcollection
    obtain ⟨o, -, ho⟩ := h.ended hcomplete
    have hJ₂ := (hmoves₁.persists (h.moves.coupled hc)).job_terminal j J' o h.after ho
    refine effect_applyGraphCompletion hgraph hc hw (h.moves.trans hmoves₁)
      (hedge₁.trans h.only.edge) ?_ hJ₂ (hns'.trans h.sameNamespace)
    intro k hk
    by_cases hkj : k = j
    · subst hkj
      exact ⟨J, hb.job, Or.inr hg'.symm⟩
    · rw [← h.only.job k hkj] at hk ⊢
      obtain ⟨K, hK, hnone⟩ := hframe₁ k hk
      exact ⟨K, hK, Or.inl hnone⟩
  · rename_i hopen
    cases hgroup
    obtain ⟨p, hp⟩ := h.live (Bool.eq_false_iff.mpr hopen)
    exact (Furthers.one h.moves h.only h.after hp).effect

theorem effect_recordExecutionEvent {replayed : Bool} (hc : Coupled db.board) (hw : Wired db.board)
    (hlist : ∀ d j J r R E a A, db.board.Bundle j J r R event.executionId E a A →
      Coupled d.board → Only j db.board d.board →
      ∀ collectionId, Listed d.board (view.siblings d collectionId j))
    (h : recordExecutionEvent codec env view identity event db = .ok (replayed, db')) :
    Effect M view.locked db.board db'.board := by
  obtain rfl | ⟨j, J, J', db₃, db₄, hrecords, hconfidence⟩ := recordExecutionEvent_cases hc h
  · exact .refl _ _
  · rw [Db.board_updateExecution_keep hconfidence (by
      rintro old new ⟨⟩
      rfl)]
    obtain ⟨r, R, E, a, A, hb, -⟩ := hrecords.bundle
    exact hrecords.effect
      (hlist db₃ j J r R E a A hb (hrecords.moves.coupled hc) hrecords.only) hc hw

end Events

theorem furthers_reconcileStaleExecution {mixedParameter found : Bool} {staleAfter : Nat}
    {outboxId : Id} (hc : Coupled db.board)
    (h : reconcileStaleExecution codec env mixedParameter staleAfter outboxId db =
      .ok (found, db')) : Furthers M db.board db'.board := by
  unfold reconcileStaleExecution at h
  split at h
  · cases h
    exact .nothing
  · rename_i e execution run agent hstale
    have hmem := firstBy_mem hstale
    simp only [List.mem_filterMap, Prod.exists, Table.mem_select] at hmem
    obtain ⟨e', execution', ⟨hexecution, hlive⟩, hrow⟩ := hmem
    simp only [Option.bind_eq_bind, Option.bind_eq_some_iff] at hrow
    obtain ⟨run', hrun, agent', -, _, -, heq⟩ := hrow
    cases heq
    simp only [Bool.and_eq_true, Bool.or_eq_true, decide_eq_true_eq] at hlive
    simp only [bind_ok_iff, pure_ok_iff] at h
    obtain ⟨db₁, hmark, db₂, hjob, _, -, db₃, hout, heq⟩ := h
    cases heq
    have hE := Db.board_execution hexecution
    obtain ⟨j, J, R, a, A, hb⟩ := hc.linked.bundle_of_execution hE
    have hR := Db.board_run hrun
    have hj : run.jobId = j := by
      rw [← hb.run_job, Option.some.inj (hb.run.symm.trans hR)]
      rfl
    rw [hj] at hjob
    have hengaged := (hc.stage _ _ _ _ _ _ _ _ hb).engaged hlive.1
    have hboard₁ := Db.board_updateExecution_keep hmark (by
      rintro old new ⟨⟩
      split <;> rfl)
    rw [← hboard₁] at hb ⊢
    obtain ⟨hmove, honly, J', p, hJ', hp⟩ := move_touchJob hb hengaged hjob
    rw [Db.board_insertOutbox hout (by simp), Db.board_appendAudit]
    exact .one (.single hmove) honly hJ' hp

theorem effect_reconcileStaleExecution {locked : Id → Bool} {mixedParameter found : Bool}
    {staleAfter : Nat} {outboxId : Id} (hc : Coupled db.board)
    (h : reconcileStaleExecution codec env mixedParameter staleAfter outboxId db =
      .ok (found, db')) : Effect M locked db.board db'.board :=
  (furthers_reconcileStaleExecution hc h).effect

end JobmanControl
