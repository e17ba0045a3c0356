import JobmanControl.Lifecycle.GraphArrival

/-!
The coupling of the four tables over whole runs. Every call has an effect the
board's moves account for, so every store that can arise is sound and nothing
that is final is ever rewritten; both are read back here on the rows themselves.
-/

namespace JobmanControl

open Relational Lifecycle Lifecycle.Board

variable {db db' : Db} {e : Id} {job : JobRow} {execution : ExecutionRow}

variable {M : Licence}

theorem effect_atomically {α : Type} {locked : Id → Bool} {tx : Tx StoreError Db α}
    (h : ∀ a db', tx db = .ok (a, db') → Effect M locked db.board db'.board) :
    Effect M locked db.board (atomically tx db).board := by
  obtain ⟨a, hok⟩ | hsame := atomically_cases tx db
  · exact h a _ hok
  · rw [hsame]
    exact .refl _ _

/-- What a call may bring about. -/
def Operation.licence : Operation → Licence
  | .submitJob .. | .submitCollection .. | .submitGraph .. | .importCompletedHistory .. =>
      .submission
  | .reconcileOneAssignment _ => .dispatch
  | .configure _ => .configuration
  | _ => .nothing

theorem effect_apply (codec : Codec) (call : Call) (hc : Coupled db.board) (hw : Wired db.board) :
    Effect call.operation.licence (fun _ => false) db.board (call.apply codec db).board := by
  obtain ⟨env, operation⟩ := call
  cases operation with
  | configure configuration =>
      exact ⟨.single (.configure _ rfl), fun g => Or.inl (Spares.refl g _), fun _ _ he => Or.inl he⟩
  | submitJob => exact effect_atomically fun _ _ => effect_submitJob
  | submitCollection => exact effect_atomically fun _ _ => effect_submitCollection
  | submitGraph => exact effect_atomically fun _ _ => effect_submitGraph
  | reconcileOneAssignment ids =>
      exact effect_atomically fun _ _ => effect_reconcileOneAssignment hw
  | acceptAssignment => exact effect_atomically fun _ _ => effect_acceptAssignment hc
  | recordExecutionEvent =>
      exact effect_atomically fun _ _ => effect_recordExecutionEvent hc hw
        fun d j _ _ _ _ _ _ _ hcd _ collectionId =>
          (listed_failFastSiblings hcd collectionId j).1
  | cancelJob => exact effect_atomically fun _ _ => effect_cancelJob hc hw
  | cancelGraph => exact effect_atomically fun _ _ => effect_cancelGraph hc
  | reconcileStaleExecution => exact effect_atomically fun _ _ => effect_reconcileStaleExecution hc
  | importCompletedHistory => exact effect_atomically fun _ _ => effect_importCompletedHistory

theorem sound_step {codec : Codec} {call : Call} (hs : Sound db.board)
    (h : Db.Step codec db call db') : Sound db'.board := by
  subst h
  exact (effect_apply codec call hs.coupled hs.wired).sound hs

theorem sound_empty : Sound Db.empty.board := by
  have hjob : ∀ j J, Db.empty.board.job j ≠ some J := fun _ _ h => by cases h
  have hrun : ∀ r R, Db.empty.board.run r ≠ some R := fun _ _ h => by cases h
  have hedge : ∀ key edge, Db.empty.board.edge key ≠ some edge := fun _ _ h => by cases h
  refine ⟨⟨⟨?_, ?_, ?_, ?_, ?_, ?_, ?_, ?_⟩, ?_, ?_, ?_, ?_⟩, ⟨?_, ?_, ?_, ?_, ?_⟩, ⟨?_, ?_⟩, ?_⟩
  · exact fun _ _ _ _ _ h => by cases h
  · exact fun _ _ _ _ _ h => by cases h
  · exact fun _ _ _ h => by cases h
  · exact fun _ _ _ h => by cases h
  · exact fun _ _ _ h => by cases h
  · exact fun _ _ h => by cases h
  · exact fun _ _ _ h => by cases h
  · exact fun _ _ _ h => by cases h
  · exact fun j J _ _ _ _ _ _ hb => absurd hb.job (hjob j J)
  · exact fun j J h => absurd h (hjob j J)
  · exact fun j J h => absurd h (hjob j J)
  · exact fun _ _ h => by cases h
  · exact fun key edge h => absurd h (hedge key edge)
  · exact fun j J _ h => absurd h (hjob j J)
  · exact fun j J _ h => absurd h (hjob j J)
  · exact fun key edge h => absurd h (hedge key edge)
  · exact fun key edge h => absurd h (hedge key edge)
  · exact fun r R _ _ h => absurd h (hrun r R)
  · exact fun j J _ _ _ h => absurd h (hjob j J)
  · rintro j ⟨⟨J, hJ, -⟩, -, -⟩
    exact hjob j J hJ

theorem sound_later {codec : Codec} (hs : Sound db.board) (h : Db.Later codec db db') :
    Sound db'.board :=
  h.invariant (P := fun db => Sound db.board) hs fun _ _ _ hP _ hstep => sound_step hP hstep

theorem moves_later {codec : Codec} (hs : Sound db.board) (h : Db.Later codec db db') :
    Moves .anything db.board db'.board := by
  refine h.relates (P := fun db => Sound db.board)
    (R := fun db db' => Moves .anything db.board db'.board) hs
    (fun _ _ _ hP _ hstep => sound_step hP hstep) (fun _ => .refl) (fun _ _ _ => .trans) ?_
  rintro db call db' hP - rfl
  exact (effect_apply codec call hP.coupled hP.wired).moves.anything

namespace Db

def RunOf (db : Db) (j r : Id) (run : RunRow) : Prop := db.runs.get? r = some run ∧ run.jobId = j

def ExecutionOf (db : Db) (j e : Id) (execution : ExecutionRow) : Prop :=
  db.executions.get? e = some execution ∧ ∃ run, db.RunOf j execution.runId run

def AssignmentOf (db : Db) (j a : Id) (assignment : AssignmentRow) : Prop :=
  db.assignments.get? a = some assignment ∧
    ∃ execution, db.ExecutionOf j assignment.executionId execution

/-- How the rows of jobs, runs, executions and assignments fit together. -/
structure LifecycleCoupled (db : Db) : Prop where
  one_run : ∀ j r r' run run', db.RunOf j r run → db.RunOf j r' run' → r = r'
  one_execution : ∀ j e e' execution execution', db.ExecutionOf j e execution →
    db.ExecutionOf j e' execution' → e = e'
  one_assignment : ∀ j a a' assignment assignment', db.AssignmentOf j a assignment →
    db.AssignmentOf j a' assignment' → a = a'
  accepted_iff : ∀ j job, db.jobs.get? j = some job →
    (job.progress = .live .accepted ↔
      job.progress.isTerminal = false ∧ ¬∃ r run, db.RunOf j r run)
  assigning_iff : ∀ j job, db.jobs.get? j = some job →
    (job.progress = .live .assigning ↔ ∃ e execution a assignment,
      db.ExecutionOf j e execution ∧ execution.progress = .live .planned ∧
      db.AssignmentOf j a assignment ∧ assignment.state = .offered)
  acceptedExecution_iff : ∀ j job, db.jobs.get? j = some job →
    (job.progress = .live .acceptedExecution ↔ ∃ e execution,
      db.ExecutionOf j e execution ∧ execution.progress = .live .accepted)
  running_iff : ∀ j job, db.jobs.get? j = some job →
    (job.progress = .live .running ↔ ∃ e execution,
      db.ExecutionOf j e execution ∧ execution.progress = .live .running)
  terminal_run : ∀ j job o r run, db.jobs.get? j = some job → job.progress = .terminal o →
    db.RunOf j r run → run.progress = .terminal o
  terminal_execution : ∀ j job o e execution, db.jobs.get? j = some job →
    job.progress = .terminal o → db.ExecutionOf j e execution →
    ∃ result, execution.progress = .terminal ⟨o, result⟩
  withdrawn_silent : ∀ a assignment v event, db.assignments.get? a = some assignment →
    assignment.state = .withdrawn → db.events.get? v = some event →
    event.executionId ≠ assignment.executionId

/-- What is final in the first store is the same in the second. -/
structure FinalKept (db db' : Db) : Prop where
  job : ∀ j job o, db.jobs.get? j = some job → job.progress = .terminal o →
    ∃ job', db'.jobs.get? j = some job' ∧ job'.progress = .terminal o
  run : ∀ r run o, db.runs.get? r = some run → run.progress = .terminal o →
    ∃ run', db'.runs.get? r = some run' ∧ run'.progress = .terminal o
  execution : ∀ e execution x, db.executions.get? e = some execution →
    execution.progress = .terminal x →
    ∃ execution', db'.executions.get? e = some execution' ∧ execution'.progress = .terminal x
  job_cancel : ∀ j job, db.jobs.get? j = some job → job.desiredState = .cancel →
    ∃ job', db'.jobs.get? j = some job' ∧ job'.desiredState = .cancel
  run_cancel : ∀ r run, db.runs.get? r = some run → run.desiredState = .cancel →
    ∃ run', db'.runs.get? r = some run' ∧ run'.desiredState = .cancel

end Db

section Rows

variable {j : Id}

theorem bundle_of_runOf (hc : Coupled db.board) {r : Id} {run : RunRow} (h : db.RunOf j r run) :
    ∃ J e E a A, db.board.Bundle j J r run.facts e E a A := by
  obtain ⟨hrun, rfl⟩ := h
  exact hc.linked.bundle_of_run (Db.board_run hrun)

theorem bundle_of_executionOf (hc : Coupled db.board) (h : db.ExecutionOf j e execution) :
    ∃ J R a A, db.board.Bundle j J execution.runId R e execution.facts a A := by
  obtain ⟨hexec, run, hrun, rfl⟩ := h
  obtain ⟨j', J, R, a, A, hb⟩ := hc.linked.bundle_of_execution
    (Db.board_execution hexec)
  have hR := Db.board_run hrun
  have hj : j' = run.jobId := by
    rw [← hb.run_job, Option.some.inj (hb.run.symm.trans hR)]
    rfl
  subst hj
  exact ⟨J, R, a, A, hb⟩

theorem bundle_of_assignmentOf (hc : Coupled db.board) {a : Id} {assignment : AssignmentRow}
    (h : db.AssignmentOf j a assignment) :
    ∃ J r R E, db.board.Bundle j J r R assignment.executionId E a assignment.facts := by
  obtain ⟨hassign, execution, hexec⟩ := h
  obtain ⟨J, R, a', A, hb⟩ := bundle_of_executionOf hc hexec
  have hA := Db.board_assignment hassign
  have ha : a' = a := hc.linked.assignment_unique a' a assignment.executionId hb.assignmentLink
    (assignmentLink_eq hA)
  subst ha
  cases hb.assignment.symm.trans hA
  exact ⟨J, _, R, _, hb⟩

theorem rows_of_bundle {r a : Id} {J : JobFacts} {R : RunFacts} {E : ExecutionFacts}
    {A : AssignmentFacts} (hb : db.board.Bundle j J r R e E a A) :
    ∃ run execution assignment, db.RunOf j r run ∧ db.ExecutionOf j e execution ∧
      execution.facts = E ∧ db.AssignmentOf j a assignment ∧ assignment.facts = A := by
  obtain ⟨run, hrun, rfl⟩ := Db.board_run_eq_some.mp hb.run
  obtain ⟨execution, hexec, rfl⟩ := Db.board_execution_eq_some.mp hb.execution
  obtain ⟨assignment, hassign, rfl⟩ := Db.board_assignment_eq_some.mp hb.assignment
  have hrunOf : db.RunOf j execution.runId run := by
    refine ⟨?_, hb.run_job⟩
    rw [show execution.runId = r from hb.execution_run]
    exact hrun
  have hexecOf : db.ExecutionOf j e execution := ⟨hexec, run, hrunOf⟩
  refine ⟨run, execution, assignment, ⟨hrun, hb.run_job⟩, hexecOf, rfl, ⟨hassign, execution, ?_⟩,
    rfl⟩
  rw [show assignment.executionId = e from hb.assignment_execution]
  exact hexecOf

theorem dispatched_or_idle (hc : Coupled db.board) (hjob : db.jobs.get? j = some job) :
    (∃ r R e E a A, db.board.Bundle j job.facts r R e E a A ∧ Stage (phases job.facts R E A)) ∨
      (¬∃ r run, db.RunOf j r run) ∧
        (job.progress = .live .accepted ∨ ∃ o, job.progress = .terminal o) := by
  have hJ := Db.board_job hjob
  by_cases hrun : ∃ r run, db.RunOf j r run
  · obtain ⟨r, run, hr⟩ := hrun
    obtain ⟨J, e, E, a, A, hb⟩ := bundle_of_runOf hc hr
    cases hJ.symm.trans hb.job
    exact Or.inl ⟨r, run.facts, e, E, a, A, hb, hc.stage _ _ _ _ _ _ _ _ hb⟩
  · refine Or.inr ⟨hrun, hc.idle j job.facts hJ ?_⟩
    intro r R hR hRj
    obtain ⟨run, hr, rfl⟩ := Db.board_run_eq_some.mp hR
    exact hrun ⟨r, run, hr, hRj⟩

theorem stage_of_executionOf (hc : Coupled db.board) (hjob : db.jobs.get? j = some job)
    (h : db.ExecutionOf j e execution) :
    ∃ r R a A, db.board.Bundle j job.facts r R e execution.facts a A ∧
      Stage (phases job.facts R execution.facts A) := by
  obtain ⟨J, R, a, A, hb⟩ := bundle_of_executionOf hc h
  have hJ := Db.board_job hjob
  cases hJ.symm.trans hb.job
  exact ⟨_, R, a, A, hb, hc.stage _ _ _ _ _ _ _ _ hb⟩

theorem live_iff_executionOf (hc : Coupled db.board) (hjob : db.jobs.get? j = some job)
    {p : JobPhase} {q : ExecutionPhase} (hp : p ≠ .accepted)
    (hiff : ∀ P, Stage P → (P.job = .live p ↔ P.execution = .live q)) :
    job.progress = .live p ↔ ∃ e execution, db.ExecutionOf j e execution ∧
      execution.progress = .live q := by
  constructor
  · intro hprogress
    obtain ⟨r, R, e, E, a, A, hb, hstage⟩ | ⟨-, hacc | ⟨o, ho⟩⟩ := dispatched_or_idle hc hjob
    · obtain ⟨-, execution, -, -, hexec, rfl, -⟩ := rows_of_bundle hb
      exact ⟨e, execution, hexec, (hiff _ hstage).mp hprogress⟩
    · rw [hprogress] at hacc
      cases hacc
      exact absurd rfl hp
    · rw [hprogress] at ho
      cases ho
  · rintro ⟨e, execution, hexec, hq⟩
    obtain ⟨r, R, a, A, -, hstage⟩ := stage_of_executionOf hc hjob hexec
    exact (hiff _ hstage).mpr hq

theorem AssignmentState.eq_offered {state : AssignmentState} (h : state.decision = .offered) :
    state = .offered := by
  cases state with
  | offered => rfl
  | accepted _ _ _ | rejected _ _ | withdrawn => cases h

/-- A coupled board is what the four tables look like row by row. -/
theorem lifecycleCoupled_of_coupled (hc : Coupled db.board) : db.LifecycleCoupled := by
  refine ⟨?_, ?_, ?_, ?_, ?_, ?_, ?_, ?_, ?_, ?_⟩
  · intro j r r' run run' hr hr'
    obtain ⟨J, e, E, a, A, hb⟩ := bundle_of_runOf hc hr
    obtain ⟨J', e', E', a', A', hb'⟩ := bundle_of_runOf hc hr'
    exact (hc.linked.bundle_unique hb' hb).1
  · intro j e e' execution execution' he he'
    obtain ⟨J, R, a, A, hb⟩ := bundle_of_executionOf hc he
    obtain ⟨J', R', a', A', hb'⟩ := bundle_of_executionOf hc he'
    exact (hc.linked.bundle_unique hb' hb).2.1
  · intro j a a' assignment assignment' ha ha'
    obtain ⟨J, r, R, E, hb⟩ := bundle_of_assignmentOf hc ha
    obtain ⟨J', r', R', E', hb'⟩ := bundle_of_assignmentOf hc ha'
    exact (hc.linked.bundle_unique hb' hb).2.2
  · intro j job hjob
    constructor
    · intro hacc
      refine ⟨(Progress.not_isTerminal_iff _).mpr ⟨_, hacc⟩, ?_⟩
      obtain ⟨r, R, e, E, a, A, -, hstage⟩ | ⟨hnone, -⟩ := dispatched_or_idle hc hjob
      · exact absurd hacc hstage.job_ne_accepted
      · exact hnone
    · rintro ⟨hlive, hnone⟩
      obtain ⟨r, R, e, E, a, A, hb, -⟩ | ⟨-, hacc | ⟨o, ho⟩⟩ := dispatched_or_idle hc hjob
      · obtain ⟨run, -, -, hrun, -⟩ := rows_of_bundle hb
        exact absurd ⟨r, run, hrun⟩ hnone
      · exact hacc
      · rw [ho] at hlive
        cases hlive
  · intro j job hjob
    rw [live_iff_executionOf hc hjob (by simp) fun P hP => hP.job_iff_execution.1]
    constructor
    · rintro ⟨e, execution, hexec, hplanned⟩
      obtain ⟨r, R, a, A, hb, hstage⟩ := stage_of_executionOf hc hjob hexec
      obtain ⟨-, -, assignment, -, -, -, hassign, hA⟩ := rows_of_bundle hb
      have hdecision : A.decision = .offered := congrArg Phases.decision (hstage.planned hplanned)
      rw [← hA] at hdecision
      exact ⟨e, execution, a, assignment, hexec, hplanned, hassign,
        AssignmentState.eq_offered hdecision⟩
    · rintro ⟨e, execution, -, -, hexec, hplanned, -, -⟩
      exact ⟨e, execution, hexec, hplanned⟩
  · intro j job hjob
    exact live_iff_executionOf hc hjob (by simp) fun P hP => hP.job_iff_execution.2.1
  · intro j job hjob
    exact live_iff_executionOf hc hjob (by simp) fun P hP => hP.job_iff_execution.2.2
  · intro j job o r run hjob ho hrun
    obtain ⟨J, e, E, a, A, hb⟩ := bundle_of_runOf hc hrun
    have hJ := Db.board_job hjob
    cases hJ.symm.trans hb.job
    exact ((hc.stage _ _ _ _ _ _ _ _ hb).terminal ho).1
  · intro j job o e execution hjob ho hexec
    obtain ⟨r, R, a, A, -, hstage⟩ := stage_of_executionOf hc hjob hexec
    exact (hstage.terminal ho).2
  · intro a assignment v event hassign hwithdrawn hevent hsame
    have hA := Db.board_assignment hassign
    have hv : db.board.event v = some event.facts := Option.map_eq_some_iff.mpr ⟨event, hevent, rfl⟩
    obtain ⟨a', A', hA', he', hacc⟩ := hc.heard v event.facts hv
    have ha : a' = a := by
      refine hc.linked.assignment_unique a' a event.executionId ?_ ?_
      · rw [assignmentLink_eq hA', he']
        rfl
      · rw [assignmentLink_eq hA, hsame]
        rfl
    subst ha
    cases hA.symm.trans hA'
    rw [show assignment.facts.decision = assignment.state.decision from rfl, hwithdrawn] at hacc
    cases hacc

theorem finalKept_of_persists (hp : Persists db.board db'.board) :
    db.FinalKept db' := by
  refine ⟨?_, ?_, ?_, ?_, ?_⟩
  · intro j job o hjob ho
    obtain ⟨job', hjob', hsame⟩ := Db.board_job_eq_some.mp
      (hp.job_terminal j job.facts o (Db.board_job hjob) ho)
    exact ⟨job', hjob', (congrArg JobFacts.progress hsame).trans ho⟩
  · intro r run o hrun ho
    obtain ⟨run', hrun', hsame⟩ := Db.board_run_eq_some.mp
      (hp.run_terminal r run.facts o (Db.board_run hrun) ho)
    exact ⟨run', hrun', (congrArg RunFacts.progress hsame).trans ho⟩
  · intro e execution x hexec hx
    obtain ⟨execution', hexec', hsame⟩ := Db.board_execution_eq_some.mp
      (hp.execution_terminal e execution.facts x
        (Db.board_execution hexec) hx)
    exact ⟨execution', hexec', (congrArg ExecutionFacts.progress hsame).trans hx⟩
  · intro j job hjob hcancel
    obtain ⟨J', hJ', -, -, hkept⟩ := hp.job j job.facts (Db.board_job hjob)
    obtain ⟨job', hjob', rfl⟩ := Db.board_job_eq_some.mp hJ'
    exact ⟨job', hjob', hkept hcancel⟩
  · intro r run hrun hcancel
    obtain ⟨R', hR', -, hkept⟩ := hp.run r run.facts (Db.board_run hrun)
    obtain ⟨run', hrun', rfl⟩ := Db.board_run_eq_some.mp hR'
    exact ⟨run', hrun', hkept hcancel⟩

end Rows

/-- Whatever is called in whatever order, the four tables stay coupled, and what is
final or asked to be cancelled stays so. -/
theorem lifecycle_coupled {codec : Codec} (h : Db.Arises codec db) :
    db.LifecycleCoupled ∧ ∀ db', Db.Later codec db db' → db.FinalKept db' := by
  have hs := sound_later sound_empty h
  refine ⟨lifecycleCoupled_of_coupled hs.coupled, ?_⟩
  intro db' hlater
  exact finalKept_of_persists ((moves_later hs hlater).persists hs.coupled)

namespace Sample

theorem submitted_arises : Db.Arises codec submitted :=
  (Db.later_run codec Db.empty _).trans (Db.later_run codec installed _)

theorem offered_arises : Db.Arises codec offered :=
  submitted_arises.trans (Db.later_run codec submitted _)

end Sample

theorem lifecycle_coupled_pair :
    let db := Sample.submitted.run Sample.codec (Sample.firstNode .failure)
    db.LifecycleCoupled ∧ (∀ db', Db.Later Sample.codec db db' → db.FinalKept db') ∧
      (db.jobs.get? 10).map JobRow.progress = some (.terminal .failure) ∧
      (db.jobs.get? 11).map JobRow.progress = some (.terminal .aborted) := by
  have h := lifecycle_coupled (Sample.submitted_arises.trans
    (Db.later_run Sample.codec Sample.submitted (Sample.firstNode .failure)))
  exact ⟨h.1, h.2, by decide, by decide⟩

end JobmanControl
