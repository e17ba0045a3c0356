import JobmanControl.Concurrency.Sweep

/-!
Acceptances among sweeps. As long as every listing gets its locks before the work
of the listed jobs has moved on, a sweep commits what it would have written with
nobody else at work, and no accepted offer is lost. A listing that had to wait for
an acceptance closes the work the agent has just accepted.
-/

namespace JobmanControl

open Relational Interleaving Lifecycle Lifecycle.Board

variable {M : Licence}

/-- An accepted offer is honoured: its execution ends only with a report of its
agent, and a request to cancel its job has been put before the agent. -/
structure Db.AcceptanceHonoured (db : Db) : Prop where
  reported : ∀ a assignment execution result, db.assignments.get? a = some assignment →
    assignment.state.decision = .accepted →
    db.executions.get? assignment.executionId = some execution →
    execution.progress = .terminal result →
    result.processResult ≠ .cancelledBeforeLaunch ∧
      ∃ v event, db.events.get? v = some event ∧ event.executionId = assignment.executionId ∧
        completionEvent event.eventType = true
  asked : ∀ a assignment execution run job, db.assignments.get? a = some assignment →
    assignment.state.decision = .accepted →
    db.executions.get? assignment.executionId = some execution →
    db.runs.get? execution.runId = some run → db.jobs.get? run.jobId = some job →
    job.desiredState = .cancel →
    ∃ n action, db.actions.get? n = some action ∧ action.executionId = assignment.executionId ∧
      action.state = .pending

theorem acceptanceHonoured_of_answered {db : Db} (hc : Coupled db.board)
    (ha : Answered db.board) : db.AcceptanceHonoured := by
  have hbundle : ∀ {a assignment execution}, db.assignments.get? a = some assignment →
      db.executions.get? assignment.executionId = some execution → ∃ j J r R,
        db.board.Bundle j J r R assignment.executionId execution.facts a assignment.facts := by
    intro a assignment execution hassign hexec
    obtain ⟨j, J, r, R, E, hb⟩ := hc.linked.bundle_of_assignment
      (Db.board_assignment hassign)
    cases (Db.board_execution hexec).symm.trans hb.execution
    exact ⟨j, J, r, R, hb⟩
  refine ⟨?_, ?_⟩
  · intro a assignment execution result hassign hacc hexec hterm
    obtain ⟨j, J, r, R, hb⟩ := hbundle hassign hexec
    obtain ⟨v, V, hv, he, hcompletes⟩ := ha.reported _ _ _ _ _ _ _ _ result hb hacc hterm
    obtain ⟨event, hevent, rfl⟩ := Option.map_eq_some_iff.mp hv
    refine ⟨?_, v, event, hevent, he, hcompletes⟩
    exact (hc.stage _ _ _ _ _ _ _ _ hb).reported hacc hterm
  · intro a assignment execution run job hassign hacc hexec hrun hjob hcancel
    obtain ⟨j, J, r, R, hb⟩ := hbundle hassign hexec
    have hR := Db.board_run hrun
    cases hb.execution_run
    cases hR.symm.trans hb.run
    cases hb.run_job
    have hJ := Db.board_job hjob
    cases hJ.symm.trans hb.job
    have hkept : assignment.facts.decision ≠ .withdrawn := by
      rw [show assignment.facts.decision = .accepted from hacc]
      simp
    obtain ⟨n, X, hn, he⟩ := ha.asked _ _ _ _ _ _ _ _ hb hkept hcancel
    obtain ⟨action, haction, rfl⟩ := Option.map_eq_some_iff.mp hn
    exact ⟨n, action, haction, he, ha.pending n _ hn⟩

theorem Lifecycle.Current.kept {b b' : Board} {row : CollectionSibling} (h : Current b row)
    (hc : Coupled b) (hm : Moves M b b') (hsame : b'.job row.jobId = b.job row.jobId) :
    Current b' row := by
  unfold Current at h ⊢
  cases hx : row.execution with
  | none =>
      simp only [hx] at h ⊢
      rw [hsame]
      exact h
  | some x =>
      simp only [hx] at h ⊢
      obtain ⟨J, R, E, a, A, hb, hphase, p, hp⟩ := h
      obtain ⟨J', R', E', a', A', hb'⟩ := hb.later hc hm
      have hJ : J' = J := Option.some.inj (hb'.job.symm.trans (hsame.trans hb.job))
      subst hJ
      refine ⟨J', R', E', a', A', hb', ?_, p, hp⟩
      rw [hphase]
      exact (hc.stage _ _ _ _ _ _ _ _ hb).execution_eq
        ((hm.coupled hc).stage _ _ _ _ _ _ _ _ hb') ⟨p, hp⟩ rfl

def SweepRequest.reports : SweepRequest → Option Id
  | .cancelGraph _ _ _ _ => none
  | .recordExecutionEvent _ event => some event.executionId

/-- What a sweep can rely on. The rows it has locked are current; each job is listed
once; and a completion lists other jobs than its own, in no graph. -/
structure SweepKnows (db : Db) (request : SweepRequest) (held : List RowKey)
    (pending listed : List CollectionSibling) : Prop where
  current : ∀ row ∈ listed, Current db.board row
  locked : ∀ row ∈ listed, RowKey.job row.jobId ∈ held
  nodup : ((listed ++ pending).map (·.jobId)).Nodup
  apart : ∀ e, request.reports = some e → ∀ row ∈ listed ++ pending,
    (∃ K, db.board.job row.jobId = some K ∧ K.grouping.graphId = none) ∧
      ∃ j J r R E a A, db.board.Bundle j J r R e E a A ∧ row.jobId ≠ j

section Knows

variable {db db' : Db} {request : SweepRequest} {held : List RowKey}
  {pending listed : List CollectionSibling}

theorem SweepKnows.kept (h : SweepKnows db request held pending listed) (hc : Coupled db.board)
    (hm : Moves M db.board db'.board) (hsame : ∀ k ∈ held, db.sameRow k db' = true) :
    SweepKnows db' request held pending listed := by
  refine ⟨?_, h.locked, h.nodup, ?_⟩
  · intro row hrow
    refine Current.kept (h.current row hrow) hc hm ?_
    have hjob := of_decide_eq_true (hsame _ (h.locked row hrow))
    simp only [Db.board, hjob]
  · intro e he row hrow
    obtain ⟨⟨K, hK, hnone⟩, j, J, r, R, E, a, A, hb, hne⟩ := h.apart e he row hrow
    obtain ⟨K', hK', -, hgraph, -⟩ := (hm.persists hc).job _ K hK
    obtain ⟨J', R', E', a', A', hb'⟩ := hb.later hc hm
    exact ⟨⟨K', hK', hgraph.trans hnone⟩, j, J', r, R', E', a', A', hb', hne⟩

theorem sweepKnows_lists (hc : Coupled db.board) :
    SweepKnows db request held (request.lists db) [] := by
  refine ⟨by simp, by simp, ?_, ?_⟩
  · rw [List.nil_append]
    unfold SweepRequest.lists
    split
    · obtain ⟨-, hnodup, -⟩ := listing_spec _ _ hc (by
        intro k job hp
        simp only [Bool.and_eq_true, Bool.not_eq_true'] at hp
        exact hp.2) (graphCancellationNodes db _) rfl
      exact hnodup
    · split
      · simp
      · split
        · simp
        · split
          · exact (listed_failFastSiblings hc _ _).1.nodup
          · simp
  · intro e he row hrow
    rw [List.nil_append] at hrow
    cases request with
    | cancelGraph => cases he
    | recordExecutionEvent identity event =>
        cases he
        simp only [SweepRequest.lists] at hrow
        split at hrow
        · cases hrow
        · rename_i j job hown
          split at hrow
          · cases hrow
          · split at hrow
            · obtain ⟨hlisted, hother⟩ := listed_failFastSiblings hc _ j
              obtain ⟨J, r, R, E, a, A, hb⟩ := bundle_of_reportingJob hc hown
              exact ⟨hlisted.outside row hrow, j, J, r, R, E, a, A, hb, hother row hrow⟩
            · cases hrow

theorem SweepKnows.grant {row : CollectionSibling} {rest : List CollectionSibling}
    (h : SweepKnows db request held (row :: rest) listed) (hc : Coupled db.board)
    (hstands : ∀ job, db.jobs.get? row.jobId = some job → job.progress.isTerminal = false →
      (siblingRows db row.jobId job).map (·.execution) = [row.execution]) :
    SweepKnows db request (held ++ [.job row.jobId]) rest (grantRow db row listed) := by
  -- A row that no longer meets the condition of the listing is dropped.
  have hdrop : SweepKnows db request (held ++ [.job row.jobId]) rest listed := by
    have hsub : (listed ++ rest).Sublist (listed ++ row :: rest) :=
      (List.sublist_cons_self row rest).append_left listed
    refine ⟨h.current, fun r hr => List.mem_append_left _ (h.locked r hr),
      h.nodup.sublist (hsub.map _), ?_⟩
    intro e he r hr
    exact h.apart e he r (hsub.subset hr)
  unfold grantRow
  split
  · exact hdrop
  · rename_i job hjob
    split
    · exact hdrop
    · rename_i hlive
      have hlive' : job.progress.isTerminal = false := Bool.eq_false_iff.mpr hlive
      obtain ⟨s, hrows, hid, hcur⟩ := siblingRows_current hc hjob hlive'
      have hexec : s.execution = row.execution := by
        have hlist := hstands job hjob hlive'
        rw [hrows] at hlist
        exact List.head_eq_of_cons_eq hlist
      have hrow : Current db.board { row with phase := job.progress } := by
        unfold Current at hcur ⊢
        rw [hexec, hid] at hcur
        exact hcur
      refine ⟨?_, ?_, ?_, ?_⟩
      · intro r hr
        rcases List.mem_append.mp hr with hold | hnew
        · exact h.current r hold
        · rw [List.mem_singleton.mp hnew]
          exact hrow
      · intro r hr
        rcases List.mem_append.mp hr with hold | hnew
        · exact List.mem_append_left _ (h.locked r hold)
        · rw [List.mem_singleton.mp hnew]
          exact List.mem_append_right _ List.mem_cons_self
      · have hnodup := h.nodup
        rw [List.append_assoc, List.singleton_append]
        rw [List.map_append, List.map_cons] at hnodup ⊢
        exact hnodup
      · intro e he r hr
        rw [List.append_assoc, List.singleton_append] at hr
        rcases List.mem_append.mp hr with hold | hnew
        · exact h.apart e he r (List.mem_append_left _ hold)
        · rcases List.mem_cons.mp hnew with rfl | hrest
          · exact h.apart e he row (List.mem_append_right _ List.mem_cons_self)
          · exact h.apart e he r (List.mem_append_right _ (List.mem_cons_of_mem _ hrest))

/-- A sweep that has all its rows writes what it would have written alone. -/
theorem SweepKnows.moves {codec : Codec} {env : Env} {skipped : Id → Bool}
    (h : SweepKnows db request held [] listed) (ho : db.Ordered)
    (hrun : request.run codec env ⟨fun _ _ _ => listed, fun _ _ => listed, skipped⟩ db =
      some db') : Moves .nothing db.board db'.board := by
  have hnodup : (listed.map (·.jobId)).Nodup := by
    have := h.nodup
    rwa [List.append_nil] at this
  cases request with
  | cancelGraph authorization graphId key digest =>
      obtain ⟨result, hok⟩ := (committed_eq_some_iff _ _ _).mp hrun
      obtain hsame | ⟨namespaceId, t, db₂, hboard, hcancel⟩ := cancelGraph_cases hok
      · rw [hsame]
      · rw [hboard]
        have hc : Coupled ({ db with idempotency := t } : Db).board := ho.coupled
        exact (moves_cancelSiblings listed hc h.current hnodup hcancel).1
  | recordExecutionEvent identity event =>
      obtain ⟨replayed, hok⟩ := (committed_eq_some_iff _ _ _).mp hrun
      refine (effect_recordExecutionEvent ho.coupled ho.wired ?_ hok).moves
      intro d j J r R E a A hb _ honly collectionId
      have hne : ∀ row ∈ listed, row.jobId ≠ j := by
        intro row hrow
        obtain ⟨-, j', J', r', R', E', a', A', hb', hne⟩ :=
          h.apart _ rfl row (List.mem_append_left _ hrow)
        cases hb.execution.symm.trans hb'.execution
        cases hb.execution_run.symm.trans hb'.execution_run
        cases hb.run.symm.trans hb'.run
        rw [← hb.run_job, hb'.run_job]
        exact hne
      refine ⟨fun row hrow => (h.current row hrow).only honly (hne row hrow), hnodup, ?_⟩
      intro row hrow
      obtain ⟨⟨K, hK, hnone⟩, -⟩ := h.apart _ rfl row (List.mem_append_left _ hrow)
      exact ⟨K, (honly.job _ (hne row hrow)).trans hK, hnone⟩

end Knows

def SweepHolds (db : Db) (s : Session Sweep RowKey) : Prop :=
  match s.state.stage with
  | .opening | .grouping | .listing => True
  | .locking pending listed => SweepKnows db s.state.request s.held pending listed
  | .ready listed _ => SweepKnows db s.state.request s.held [] listed

theorem SweepHolds.kept {db db' : Db} {s : Session Sweep RowKey} (h : SweepHolds db s)
    (hc : Coupled db.board) (hm : Moves M db.board db'.board)
    (hsame : ∀ k ∈ s.held, db.sameRow k db' = true) : SweepHolds db' s := by
  unfold SweepHolds at h ⊢
  split
  · trivial
  · trivial
  · trivial
  · rename_i hstage
    simp only [hstage] at h
    exact h.kept hc hm hsame
  · rename_i hstage
    simp only [hstage] at h
    exact h.kept hc hm hsame

theorem Sweep.commit_some {codec : Codec} {sweep : Sweep} {db db' : Db}
    (h : sweep.commit codec db = some db') :
    ∃ listed skipped, sweep.stage = .ready listed skipped ∧
      sweep.request.run codec sweep.env ⟨fun _ _ _ => listed, fun _ _ => listed, skipped⟩ db =
        some db' := by
  unfold Sweep.commit at h
  split at h
  · rename_i listed skipped hstage
    exact ⟨listed, skipped, hstage, h⟩
  · cases h

theorem maintains_sweeping (codec : Codec) :
    (sweeping codec).Maintains (fun w a => undisturbed w a = true) Db.Ordered SweepHolds where
  start _ _ _ := trivial
  advance w i s hw hallow hs := by
    have hc := hw.committed.coupled
    have hknows := hw.sessions i s hs
    unfold SweepHolds at hknows
    simp only [sweeping, SweepHolds, Sweep.advance, Sweep.wants]
    cases hstage : s.state.stage with
    | opening | grouping => trivial
    | listing => exact sweepKnows_lists hc
    | locking pending listed =>
        rw [hstage] at hknows
        cases pending with
        | nil =>
            simp only [List.append_nil]
            exact hknows
        | cons row rest =>
            exact hknows.grant hc fun job hjob hlive =>
              undisturbed_row hallow hs hstage hjob hlive
    | ready listed skipped =>
        rw [hstage] at hknows
        simp only [List.append_nil]
        exact hknows
  call w c hw _ := hw.committed.moves (moves_apply codec c hw.committed)
  frame_call w c t hw _ ht hsame :=
    ht.kept hw.committed.coupled (moves_apply codec c hw.committed) hsame
  commit w i s new hw _ hs hnew := by
    obtain ⟨listed, skipped, hstage, hrun⟩ := Sweep.commit_some hnew
    have hknows := hw.sessions i s hs
    simp only [SweepHolds, hstage] at hknows
    exact hw.committed.moves (hknows.moves hw.committed hrun)
  frame_commit w i s new t hw _ hs hnew ht hsame _ := by
    obtain ⟨listed, skipped, hstage, hrun⟩ := Sweep.commit_some hnew
    have hknows := hw.sessions i s hs
    simp only [SweepHolds, hstage] at hknows
    exact ht.kept hw.committed.coupled (hknows.moves hw.committed hrun) hsame

/-- Every interleaving of sweeps with other transactions honours the accepted
offers, if no listing had to wait until the work of a listed job had moved on. -/
theorem acceptances_survive_sweeps {codec : Codec} {db : Db} (hdb : Db.Arises codec db)
    {w : SweepWorld} (h : Transition.Reaches (sweeping codec).Step
      (fun w a => undisturbed w a = true) ⟨db, .empty⟩ w) :
    w.committed.AcceptanceHonoured := by
  have hw := (maintains_sweeping codec).holds (Protocol.holds_quiet (ordered_of_arises hdb)) h
  exact acceptanceHonoured_of_answered hw.committed.coupled hw.committed.answered

theorem acceptances_survive_sweeps_early :
    ∃ w : SweepWorld,
      Transition.Reaches (sweeping Sample.codec).Step (fun w a => undisturbed w a = true)
        ⟨Sample.offered, .empty⟩ w ∧
      (w.committed.actions.any fun _ action => action.executionId = 41) = true ∧
      w.committed.AcceptanceHonoured := by
  have hrun : ((Transition.exec
      (fun w a => if undisturbed w a then (sweeping Sample.codec).next w a else none)
      ⟨Sample.offered, .empty⟩ Sample.earlyAcceptance).map fun w =>
        w.committed.actions.any fun _ action => action.executionId = 41) = some true := by decide
  obtain ⟨w, hw, hasked⟩ := Option.map_eq_some_iff.mp hrun
  have hreach := Transition.reaches_of_exec hw
  exact ⟨w, hreach, hasked, acceptances_survive_sweeps Sample.offered_arises hreach⟩

/-- An acceptance that commits while the listing waits is closed as work that was
never launched. -/
theorem sweep_closes_accepted_work :
    ∃ w : SweepWorld,
      Transition.Reachable (sweeping Sample.codec).Step ⟨Sample.offered, .empty⟩ w ∧
      (w.committed.assignments.get? 42).map (·.state) = some (.accepted 4 "accept" "{}") ∧
      (w.committed.executions.get? 41).map (·.progress) =
        some (.terminal ⟨.cancelled, .cancelledBeforeLaunch⟩) ∧
      ¬w.committed.AcceptanceHonoured := by
  have hrun : ((Transition.exec (sweeping Sample.codec).next ⟨Sample.offered, .empty⟩
      Sample.lateAcceptance).map fun w =>
        ((w.committed.assignments.get? 42).map fun a => (a.executionId, a.state),
          (w.committed.executions.get? 41).map (·.progress))) =
      some (some (41, .accepted 4 "accept" "{}"),
        some (.terminal ⟨.cancelled, .cancelledBeforeLaunch⟩)) := by decide
  obtain ⟨w, hw, hrows⟩ := Option.map_eq_some_iff.mp hrun
  obtain ⟨hassignment, hexecution⟩ := Prod.mk.inj hrows
  obtain ⟨assignment, hassign, hcolumns⟩ := Option.map_eq_some_iff.mp hassignment
  obtain ⟨hid, hstate⟩ := Prod.mk.inj hcolumns
  obtain ⟨execution, hexec, hprogress⟩ := Option.map_eq_some_iff.mp hexecution
  refine ⟨w, Transition.reachable_of_exec hw, ?_, ?_, ?_⟩
  · rw [hassign, Option.map_some, hstate]
  · rw [hexec, Option.map_some, hprogress]
  · intro hhonoured
    have hkept := (hhonoured.reported 42 assignment execution _ hassign (by rw [hstate]; rfl)
      (by rw [hid]; exact hexec) hprogress).1
    exact hkept rfl

end JobmanControl
