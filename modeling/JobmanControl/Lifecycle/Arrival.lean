import JobmanControl.Lifecycle.Reporting

/-!
How work arrives: dispatch puts a waiting job into an agent's hands, and the
submissions of single jobs, of collections and of completed history put jobs on
the board.
-/

namespace JobmanControl

open Relational Lifecycle Lifecycle.Board Function

variable {codec : Codec} {env : Env} {db db' : Db} {placement : ResolvedPlacement}
  {request : CompletedHistoryImport} {j outboxId jobId : Id} {job : JobRow}
  {c : AssignmentCandidate} {ids : DispatchIds} {locked : Id → Bool} {submission : JobSubmission}
  {key : String} {auth : Except StoreError Authorization} {home : Grouping → Prop}
  {b b' b'' : Board} {queued : Db → Id → Nat} {authorization : Authorization}

/-- What the claim query asks of the job and policy rows and of its snapshot. -/
theorem candidate_spec {snapshot : Db} {policy : PolicyRow}
    (h : snapshot.candidate codec env j job policy = some c) :
    c.jobId = j ∧ c.namespaceId = job.namespaceId ∧ job.progress = .live .accepted ∧
      job.desiredState = .run ∧ snapshot.activeInNamespace job.namespaceId < policy.maxActiveJobs ∧
      snapshot.collectionAdmits job = true ∧ snapshot.graphAdmits j job = true := by
  simp only [Db.candidate, Option.bind_eq_bind, Option.bind_eq_some_iff, Option.guard_eq_some',
    Option.pure_def, Option.some.injEq] at h
  obtain ⟨_, -, _, -, _, -, _, -, _, -, _, -, _, -, _, hwaiting, _, hactive, _, hcollection, _,
    hgraph, rfl⟩ := h
  exact ⟨rfl, rfl, of_decide_eq_true hwaiting.1, hwaiting.2, hactive, hcollection, hgraph⟩

/-- A node that the claim query admits has its incoming edges satisfied. -/
theorem satisfied_of_graphAdmits (hw : Wired db.board) (hadmitted : db.graphAdmits j job = true)
    (hgraph : job.grouping.graphId ≠ none) :
    ∀ key edge, db.board.edge key = some edge → key.downstreamJobId = j →
      db.board.Satisfied key edge := by
  intro key edge he hdown
  unfold Db.graphAdmits at hadmitted
  split at hadmitted
  · rename_i hnone
    exact absurd hnone hgraph
  · split at hadmitted
    · cases hadmitted
    · rw [Bool.and_eq_true] at hadmitted
      obtain ⟨U, hU, -⟩ := hw.upstream key edge he
      obtain ⟨row, hrow, rfl⟩ := Db.board_job_eq_some.mp hU
      obtain ⟨o, ho, hacc⟩ := Db.dependenciesReady_iff.mp hadmitted.2 key edge row he hdown hrow
      exact ⟨row.facts, o, hU, ho, hacc⟩

theorem board_modify_policy (db : Db) (n : Id) (now : Time) :
    ({ db with policies := db.policies.modify n fun policy =>
      { policy with lastDispatchedAt := some now } } : Db).board = db.board := by
  simp only [Db.board]
  rw [Table.map_get?_modify]
  intro policy
  rfl

/-- The writes of a dispatch are one move, if the snapshot it was claimed on had the
node's dependencies satisfied. -/
theorem move_offerAssignment (h : offerAssignment codec env ids c db = .ok db')
    (hjob : db.jobs.get? c.jobId = some job) (hns : c.namespaceId = job.namespaceId)
    (hready : job.grouping.graphId ≠ none → ∀ key edge, db.board.edge key = some edge →
      key.downstreamJobId = c.jobId → db.board.Satisfied key edge) :
    Move .dispatch db.board db'.board ∧ Only c.jobId db.board db'.board ∧
      ∃ J, db'.board.job c.jobId = some J ∧ J.progress = .live .assigning := by
  simp only [offerAssignment, insertRun, insertExecution, insertAssignment, assignJob, bind_ok_iff,
    need_ok_iff, ensure_ok_iff, pure_ok_iff] at h
  obtain ⟨document, -, _, ⟨_, -, runs, hruns, rfl⟩, _, ⟨_, -, executions, hexecutions, rfl⟩, _,
    ⟨_, -, assignments, hassignments, rfl⟩, db₄, ⟨row, hrow, _, hwaiting, hupdate⟩, hout⟩ := h
  cases hjob.symm.trans hrow
  have hacc : job.progress = .live .accepted := of_decide_eq_true hwaiting.1
  have hr := Table.insert?_free hruns
  have he := Table.insert?_free hexecutions
  have ha := Table.insert?_free hassignments
  have hJ := Db.board_job hjob
  obtain ⟨oldJ, newJ, hoJ, hnJ, hboard₄⟩ := Db.board_updateJob_live (J := job.facts) hupdate hJ (by
    rintro old changed - ⟨⟩
    exact Or.inr rfl)
  cases hnJ
  have hboard : db'.board = db.board.putBundle c.jobId
      { job.facts with progress := .live .assigning, revision := job.facts.revision + 1 }
      ids.runId ⟨c.namespaceId, c.jobId, .live .assigning, .run⟩
      ids.executionId ⟨c.namespaceId, ids.runId, .live .planned⟩
      ids.deliveryId ⟨ids.executionId, .offered⟩ := by
    rw [Db.board_insertOutbox hout (by simp), Db.board_appendAudit, board_modify_policy]
    refine hboard₄.trans ?_
    rw [← hoJ]
    simp only [Db.board, putJob, putBundle, Db.map_get?_insert RunRow.facts hruns,
      Db.map_get?_insert ExecutionRow.facts hexecutions,
      Db.map_get?_insert AssignmentRow.facts hassignments]
    rfl
  rw [hboard]
  refine ⟨?_, ?_, _, update_self _ _ _, rfl⟩
  · exact Move.dispatch rfl hJ hacc hwaiting.2 (Option.map_eq_none_iff.mpr hr)
      (Option.map_eq_none_iff.mpr he) (Option.map_eq_none_iff.mpr ha) hready rfl rfl hns rfl hns
      rfl rfl rfl hwaiting.2
  · refine ⟨rfl, fun k hk => update_of_ne hk _ _, ?_⟩
    intro k K r R e E a A hk hb
    refine ⟨(update_of_ne hk _ _).trans hb.job, update_keeps ?_ hb.run,
      update_keeps ?_ hb.execution, update_keeps ?_ hb.assignment, hb.run_job, hb.execution_run,
      hb.assignment_execution⟩
    · exact Option.map_eq_none_iff.mpr hr
    · exact Option.map_eq_none_iff.mpr he
    · exact Option.map_eq_none_iff.mpr ha

theorem effect_offerAssignment (h : offerAssignment codec env ids c db = .ok db')
    (hjob : db.jobs.get? c.jobId = some job) (hns : c.namespaceId = job.namespaceId)
    (hready : job.grouping.graphId ≠ none → ∀ key edge, db.board.edge key = some edge →
      key.downstreamJobId = c.jobId → db.board.Satisfied key edge) :
    Effect .dispatch locked db.board db'.board ∧ Only c.jobId db.board db'.board := by
  obtain ⟨hmove, honly, J, hJ, hp⟩ := move_offerAssignment h hjob hns hready
  exact ⟨(Furthers.one (.single hmove) honly hJ hp).effect, honly⟩

theorem furthers_reconcileOneAssignment {found : Bool} (hw : Wired db.board)
    (h : reconcileOneAssignment codec env ids db = .ok (found, db')) :
    Furthers .dispatch db.board db'.board := by
  unfold reconcileOneAssignment at h
  split at h
  · cases h
    exact .nothing
  · rename_i c hclaim
    simp only [bind_ok_iff, pure_ok_iff] at h
    obtain ⟨db₁, hoffer, heq⟩ := h
    cases heq
    obtain ⟨j, job, policy, hjob, -, hcand⟩ := claimAssignmentCandidate_some hclaim
    obtain ⟨rfl, hns, -, -, -, -, hadmitted⟩ := candidate_spec hcand
    obtain ⟨hmove, honly, J, hJ, hp⟩ :=
      move_offerAssignment hoffer hjob hns (satisfied_of_graphAdmits hw hadmitted)
    exact .one (.single hmove) honly hJ hp

theorem effect_reconcileOneAssignment {found : Bool} (hw : Wired db.board)
    (h : reconcileOneAssignment codec env ids db = .ok (found, db')) :
    Effect .dispatch locked db.board db'.board :=
  (furthers_reconcileOneAssignment hw h).effect

/-- Moves that finish no job, and after which every new job is in a group of one kind. -/
structure Growth (home : Grouping → Prop) (b b' : Board) : Prop where
  moves : Moves .submission b b'
  quiet : ∀ j J o, b'.job j = some J → J.progress = .terminal o → b.job j = some J
  arrivals : ∀ j J, b'.job j = some J → b.job j = some J ∨ home J.grouping

theorem Growth.refl (b : Board) : Growth home b b :=
  ⟨.refl, fun _ _ _ h _ => h, fun _ _ h => Or.inl h⟩

theorem Growth.trans (h : Growth home b b') (h' : Growth home b' b'') : Growth home b b'' := by
  refine ⟨h.moves.trans h'.moves, fun j J o hJ ho => h.quiet j J o (h'.quiet j J o hJ ho) ho, ?_⟩
  intro j J hJ
  obtain hold | hnew := h'.arrivals j J hJ
  · exact h.arrivals j J hold
  · exact Or.inr hnew

theorem Growth.mono {home' : Grouping → Prop} (h : Growth home b b')
    (himp : ∀ grouping, home grouping → home' grouping) : Growth home' b b' :=
  ⟨h.moves, h.quiet, fun j J hJ => (h.arrivals j J hJ).imp_right (himp _)⟩

theorem growth_of_job_eq (hm : Move .submission b b') (hjob : b'.job = b.job) :
    Growth home b b' :=
  ⟨.single hm, fun _ _ _ hJ _ => hjob ▸ hJ, fun _ _ hJ => Or.inl (hjob ▸ hJ)⟩

theorem Growth.effect (h : Growth home b b') (hedges : ∀ key edge, b'.edge key = some edge →
      b.edge key = some edge ∨ b.graph key.graphId = none) : Effect .submission locked b b' :=
  ⟨h.moves, fun _ => Or.inl fun j J o hJ _ ho => h.quiet j J o hJ ho, hedges⟩

theorem growth_arrive {J : JobFacts} (hhome : home J.grouping) (hnone : b.job j = none)
    (hacc : J.progress = .live .accepted) (hrun : J.desiredState = .run)
    (hdisp : J.grouping.graphDisposition = none)
    (hpub : ∀ g, J.grouping.graphId = some g → ∃ policy, b.graph g = some policy)
    (hhouse : ∀ c, J.grouping.collectionId = some c → ∃ limit, b.collection c = some limit) :
    Growth home b (b.putJob j J) := by
  refine ⟨.single (.arrive rfl hnone hacc hrun hdisp hpub hhouse), ?_, ?_⟩
  · intro k K o hK ho
    obtain ⟨-, rfl⟩ | ⟨-, hold⟩ := update_cases hK
    · rw [hacc] at ho
      cases ho
    · exact hold
  · intro k K hK
    obtain ⟨-, rfl⟩ | ⟨-, hold⟩ := update_cases hK
    · exact Or.inr hhome
    · exact Or.inl hold

theorem board_insertJob (h : insertJob env db authorization j submission placement = .ok db') :
    db.board.job j = none ∧
      db'.jobs.get? j = some (newJobRow env authorization submission placement) ∧
      db'.board = db.board.putJob j (newJobRow env authorization submission placement).facts := by
  simp only [insertJob, bind_ok_iff, need_ok_iff, pure_ok_iff] at h
  obtain ⟨jobs, hinsert, rfl⟩ := h
  refine ⟨Db.board_job_eq_none.mpr (Table.insert?_free hinsert), ?_, ?_⟩
  · simp [Table.get?_insert hinsert]
  · simp only [Db.board, putJob, Db.map_get?_insert JobRow.facts hinsert]

theorem board_insertAcceptanceEvidence {digest : String}
    (h : insertAcceptanceEvidence env db authorization key outboxId j digest = .ok db') :
    db'.board = db.board := by
  rw [Db.board_insertOutbox h (by simp), Db.board_appendAudit]

/-- A member of a group arrives waiting and bound to the group. -/
theorem growth_insertBoundJob {item : JobSubmission} {grouping : Grouping}
    (h : insertBoundJob codec env authorization j item placement grouping db = .ok db')
    (hdisp : grouping.graphDisposition = none)
    (hpub : ∀ g, grouping.graphId = some g → ∃ policy, db.board.graph g = some policy)
    (hhouse : ∀ c, grouping.collectionId = some c → ∃ limit, db.board.collection c = some limit) :
    ∃ J, db.board.job j = none ∧ J.progress = .live .accepted ∧ J.grouping = grouping ∧
      db'.board = db.board.putJob j J ∧ Growth (· = grouping) db.board db'.board := by
  simp only [insertBoundJob, bind_ok_iff, pure_ok_iff] at h
  obtain ⟨db₁, hworkload, db₂, hinsert, rfl⟩ := h
  obtain ⟨t, rfl⟩ := insertWorkloadRevision_ok hworkload
  obtain ⟨hnone, hget, hboard⟩ := board_insertJob hinsert
  have hfinal := Db.board_modify_job (fun job => { job with grouping := grouping }) hget
  rw [hboard, putJob, putJob, update_idem] at hfinal
  refine ⟨_, hnone, rfl, rfl, hfinal, ?_⟩
  rw [hfinal]
  exact growth_arrive rfl hnone rfl rfl hdisp hpub hhouse

theorem growth_submitJob {result : SubmitResult}
    (h : submitJob codec env queued auth key jobId outboxId submission db = .ok (result, db')) :
    Growth (· = .standalone) db.board db'.board ∧ db'.board.edge = db.board.edge := by
  simp only [submitJob, bind_ok_iff] at h
  obtain ⟨_, -, _, -, authorization, -, ⟨replayed, db₁⟩, hreserve, h⟩ := h
  obtain ⟨t, rfl⟩ := reserveIdempotency_ok hreserve
  cases replayed with
  | some _ =>
      simp only [bind_ok_iff, pure_ok_iff] at h
      obtain ⟨_, -, heq⟩ := h
      cases heq
      exact ⟨.refl _, rfl⟩
  | none =>
      simp only [bind_ok_iff, pure_ok_iff] at h
      obtain ⟨_, -, placement, -, db₂, hworkload, db₃, hinsert, _, -, db₄, hcomplete, db₅,
        hevidence, heq⟩ := h
      cases heq
      obtain ⟨t₂, rfl⟩ := insertWorkloadRevision_ok hworkload
      obtain ⟨t₄, rfl⟩ := completeIdempotency_ok hcomplete
      obtain ⟨hnone, -, hboard⟩ := board_insertJob hinsert
      rw [board_insertAcceptanceEvidence hevidence]
      show Growth _ db.board db₃.board ∧ db₃.board.edge = db.board.edge
      rw [hboard]
      exact ⟨growth_arrive rfl hnone rfl rfl rfl (fun g hg => by cases hg)
        (fun c hc => by cases hc), rfl⟩

theorem effect_submitJob {result : SubmitResult}
    (h : submitJob codec env queued auth key jobId outboxId submission db = .ok (result, db')) :
    Effect .submission locked db.board db'.board := by
  obtain ⟨hgrowth, hedge⟩ := growth_submitJob h
  exact hgrowth.effect fun key edge he => Or.inl (hedge ▸ he)

theorem growth_insertCollectionItem {ids : GroupIds}
    {entry : (JobSubmission × ResolvedPlacement) × Nat}
    (h : insertCollectionItem codec env authorization key ids db entry = .ok db')
    (hpub : ∃ limit, db.board.collection ids.groupId = some limit) :
    Growth (·.collectionId = some ids.groupId) db.board db'.board ∧
      db'.board.edge = db.board.edge ∧ db'.board.collection = db.board.collection := by
  obtain ⟨⟨item, placement⟩, index⟩ := entry
  simp only [insertCollectionItem, bind_ok_iff] at h
  obtain ⟨db₁, hbound, items, -, hevidence⟩ := h
  obtain ⟨J, -, -, -, hboard, hgrowth⟩ :=
    growth_insertBoundJob hbound rfl (fun g hg => by cases hg) (by
      intro c hc
      cases hc
      exact hpub)
  have hevidence' := board_insertAcceptanceEvidence hevidence
  rw [show db'.board = db₁.board from hevidence']
  refine ⟨hgrowth.mono ?_, by rw [hboard]; rfl, by rw [hboard]; rfl⟩
  rintro _ rfl
  rfl

/-- A new collection receives its children; no other collection does. -/
theorem growth_submitCollection {ids : GroupIds} {submission : CollectionSubmission}
    {result : CollectionResult}
    (h : submitCollection codec env queued auth key ids submission db = .ok (result, db')) :
    db'.board = db.board ∨ db.board.collection ids.groupId = none ∧
      Growth (·.collectionId = some ids.groupId) db.board db'.board ∧
      db'.board.edge = db.board.edge := by
  simp only [submitCollection, bind_ok_iff] at h
  obtain ⟨_, -, _, -, authorization, -, ⟨replayed, db₁⟩, hreserve, h⟩ := h
  obtain ⟨t, rfl⟩ := reserveIdempotency_ok hreserve
  cases replayed with
  | some _ =>
      simp only [bind_ok_iff, pure_ok_iff, Prod.mk.injEq] at h
      obtain ⟨_, -, -, rfl⟩ := h
      exact Or.inl rfl
  | none =>
      simp only [bind_ok_iff, need_ok_iff, pure_ok_iff, Prod.mk.injEq] at h
      obtain ⟨_, -, placements, -, mode, -, collections, hinsert, db₂, hitems, db₃, hcomplete, db₄,
        hout, _, -, -, rfl⟩ := h
      obtain ⟨t₃, rfl⟩ := completeIdempotency_ok hcomplete
      have hnone : db.board.collection ids.groupId = none :=
        Option.map_eq_none_iff.mpr (Table.insert?_free hinsert)
      generalize hpublished : ({ db with idempotency := t, collections := collections } : Db) = dbc
        at hitems
      have hpublish : Growth (·.collectionId = some ids.groupId) db.board dbc.board := by
        refine growth_of_job_eq ?_ (by rw [← hpublished]; rfl)
        rw [← hpublished]
        simp only [Db.board, Db.map_get?_insert CollectionRow.limit hinsert]
        exact .publishCollection _ hnone
      have hpub : ∃ limit, dbc.board.collection ids.groupId = some limit := by
        rw [← hpublished]
        simp [Db.board, Table.get?_insert hinsert]
      obtain ⟨hgrowth, hedges, -⟩ : Growth (·.collectionId = some ids.groupId) db.board db₂.board ∧
          db₂.board.edge = db.board.edge ∧ db₂.board.collection = dbc.board.collection := by
        refine foldlM_ok_induction
          (P := fun d => Growth (·.collectionId = some ids.groupId) db.board d.board ∧
            d.board.edge = db.board.edge ∧ d.board.collection = dbc.board.collection) _ ?_
          ⟨hpublish, by rw [← hpublished]; rfl, rfl⟩ hitems
        rintro d entry d' - ⟨hd, hedge, hcoll⟩ hstep
        obtain ⟨hgrow, hedge', hcoll'⟩ :=
          growth_insertCollectionItem hstep (by rw [hcoll]; exact hpub)
        exact ⟨hd.trans hgrow, hedge'.trans hedge, hcoll'.trans hcoll⟩
      rw [Db.board_insertOutbox hout (by simp), Db.board_appendAudit]
      exact Or.inr ⟨hnone, hgrowth, hedges⟩

theorem effect_submitCollection {ids : GroupIds} {submission : CollectionSubmission}
    {result : CollectionResult}
    (h : submitCollection codec env queued auth key ids submission db = .ok (result, db')) :
    Effect .submission locked db.board db'.board := by
  obtain hsame | ⟨-, hgrowth, hedge⟩ := growth_submitCollection h
  · rw [hsame]
    exact .refl _ _
  · exact hgrowth.effect fun key edge he => Or.inl (hedge ▸ he)

theorem importCompletedHistory_cases {dryRun : Bool} {result : HistoryImportResult}
    (h : importCompletedHistory codec env auth key dryRun jobId outboxId request db =
      .ok (result, db')) :
    db'.board = db.board ∨ ∃ b J J' n o, Growth (· = .standalone) db.board b ∧
      b = db.board.putJob jobId J ∧ J.progress = .live .accepted ∧ J'.progress = .terminal o ∧
      J'.namespaceId = J.namespaceId ∧ J.grouping = .standalone ∧ J'.grouping = .standalone ∧
      b.notice n = none ∧ db'.board = (b.putJob jobId J').putNotice n ⟨jobId, o, J'.revision⟩ := by
  simp only [importCompletedHistory, bind_ok_iff] at h
  obtain ⟨_, -, _, -, authorization, -, placement, -, h⟩ := h
  split at h
  · cases h
    exact Or.inl rfl
  · simp only [bind_ok_iff] at h
    obtain ⟨⟨replayed, db₁⟩, hreserve, h⟩ := h
    obtain ⟨t, rfl⟩ := reserveIdempotency_ok hreserve
    cases replayed with
    | some _ =>
        simp only [bind_ok_iff, pure_ok_iff] at h
        obtain ⟨_, -, heq⟩ := h
        cases heq
        exact Or.inl rfl
    | none =>
        simp only [bind_ok_iff, pure_ok_iff] at h
        obtain ⟨_, -, db₂, hworkload, db₃, hinsert, db₄, hupdate, db₅, hcomplete, db₆, hout, _, -,
          heq⟩ := h
        cases heq
        obtain ⟨t₂, rfl⟩ := insertWorkloadRevision_ok hworkload
        obtain ⟨t₄, rfl⟩ := completeIdempotency_ok hcomplete
        obtain ⟨hnone, -, hboard₃⟩ := board_insertJob hinsert
        have hfinal : db'.board = db₄.board := by
          rw [Db.board_insertOutbox hout (by simp), Db.board_appendAudit]
          rfl
        rw [hfinal]
        have hJ : db₃.board.job jobId =
            some (newJobRow env authorization request.job placement).facts := by
          rw [hboard₃]
          exact update_self _ _ _
        obtain ⟨old, changed, n, o, hold, hf, ho, hfree, hboard₄⟩ :=
          Db.board_updateJob_terminal hupdate hJ rfl (by
            rintro old changed hold ⟨⟩
            have hacc : old.progress = .live .accepted := congrArg JobFacts.progress hold
            simp [importTerminal, JobRow.isAccepted, hacc])
        have hacc : old.progress = .live .accepted := congrArg JobFacts.progress hold
        cases hf
        rw [importTerminal, if_pos (by simp [JobRow.isAccepted, hacc])] at ho hboard₄
        have hns : old.namespaceId = authorization.namespaceId := congrArg JobFacts.namespaceId hold
        have hgroup : old.grouping = .standalone := congrArg JobFacts.grouping hold
        refine Or.inr ⟨db₃.board, _, _, n, o, ?_, hboard₃, rfl, ho, ?_, rfl, ?_, hfree, hboard₄⟩
        · rw [hboard₃]
          exact growth_arrive rfl hnone rfl rfl rfl (fun g hg => by cases hg)
            (fun c hc => by cases hc)
        · exact hns
        · exact hgroup

theorem effect_importCompletedHistory {dryRun : Bool} {result : HistoryImportResult}
    (h : importCompletedHistory codec env auth key dryRun jobId outboxId request db =
      .ok (result, db')) : Effect .submission locked db.board db'.board := by
  obtain hsame | ⟨b, J, J', n, o, hgrowth, hb, hacc, ho, hns, hgroup, hgroup', hfree, hboard⟩ :=
    importCompletedHistory_cases h
  · rw [hsame]
    exact .refl _ _
  have hJ : b.job jobId = some J := by
    rw [hb]
    exact update_self _ _ _
  rw [hboard]
  refine ⟨hgrowth.moves.tail (Move.settle hJ hacc ho hns (hgroup'.trans hgroup.symm) hfree),
    fun g => Or.inl ?_, fun key edge he => Or.inl ?_⟩
  · intro k K p hK hg hp
    obtain ⟨-, rfl⟩ | ⟨-, hsame⟩ := update_cases hK
    · rw [hgroup'] at hg
      cases hg
    · exact hgrowth.quiet k K p hsame hp
  · rw [hb] at he
    exact he

end JobmanControl
