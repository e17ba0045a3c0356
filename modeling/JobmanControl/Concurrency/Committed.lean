import JobmanControl.Lifecycle.Answers
import JobmanControl.Lifecycle.Licences

/-!
What interleaved transactions share: the rows they lock, and what holds of every
committed state whatever they do.
-/

namespace JobmanControl

open Relational Lifecycle Lifecycle.Board

variable {M : Licence}

inductive RowKey
  | job (id : Id)
  | collection (id : Id)
  | graph (id : Id)
  | policy (namespaceId : Id)
  | idempotency (key : IdempotencyKey)
  deriving DecidableEq, Repr

/-- The row is the same in both states. -/
def Db.sameRow (key : RowKey) (db db' : Db) : Bool :=
  match key with
  | .job id => db.jobs.get? id = db'.jobs.get? id
  | .collection id => db.collections.get? id = db'.collections.get? id
  | .graph id => db.graphs.get? id = db'.graphs.get? id
  | .policy namespaceId => db.policies.get? namespaceId = db'.policies.get? namespaceId
  | .idempotency key => db.idempotency.get? key = db'.idempotency.get? key

/-- The job an event reports on. -/
def Db.reportingJob (db : Db) (event : ExecutionObservation) : Option (Id × JobRow) := do
  let execution ← db.executions.get? event.executionId
  let run ← db.runs.get? execution.runId
  let job ← db.jobs.get? run.jobId
  pure (run.jobId, job)

/-- What every committed state satisfies. -/
structure Db.Ordered (db : Db) : Prop where
  coupled : Coupled db.board
  wired : Wired db.board
  answered : Answered db.board

theorem Db.Ordered.moves {db db' : Db} (h : db.Ordered) (hm : Moves M db.board db'.board) :
    db'.Ordered :=
  ⟨hm.coupled h.coupled, hm.wired h.coupled h.wired, hm.answered h.coupled h.answered⟩

theorem moves_apply (codec : Codec) (call : Call) {db : Db} (h : db.Ordered) :
    Moves call.operation.licence db.board (call.apply codec db).board :=
  (effect_apply codec call h.coupled h.wired).moves

theorem Lifecycle.Board.Bundle.later {b b' : Board} {j r e a : Id} {J : JobFacts} {R : RunFacts}
    {E : ExecutionFacts} {A : AssignmentFacts} (hb : b.Bundle j J r R e E a A) (hc : Coupled b)
    (hm : Moves M b b') : ∃ J' R' E' a' A', b'.Bundle j J' r R' e E' a' A' := by
  have hp := hm.persists hc
  obtain ⟨E', hE', hEr⟩ := hp.execution e E hb.execution
  obtain ⟨R', hR', hRj, -⟩ := hp.run r R hb.run
  obtain ⟨j', J', R'', a', A', hb'⟩ := (hm.coupled hc).linked.bundle_of_execution hE'
  rw [hEr, hb.execution_run] at hb'
  cases hR'.symm.trans hb'.run
  have hj : j' = j := by rw [← hb'.run_job, hRj, hb.run_job]
  rw [hj] at hb'
  exact ⟨J', R', E', a', A', hb'⟩

theorem bundle_of_reportingJob {db : Db} {event : ExecutionObservation} {j : Id} {job : JobRow}
    (hc : Coupled db.board) (h : db.reportingJob event = some (j, job)) :
    ∃ J r R E a A, db.board.Bundle j J r R event.executionId E a A := by
  simp only [Db.reportingJob, Option.bind_eq_bind, Option.bind_eq_some_iff,
    Option.pure_def, Option.some.injEq, Prod.mk.injEq] at h
  obtain ⟨execution, hexec, run, hrun, row, hrow, hj, -⟩ := h
  have hE := Db.board_execution hexec
  have hR := Db.board_run hrun
  obtain ⟨j', J, R, a, A, hb⟩ := hc.linked.bundle_of_execution hE
  cases hR.symm.trans hb.run
  have hjob : j' = j := hb.run_job.symm.trans hj
  rw [hjob] at hb
  exact ⟨J, _, _, _, a, A, hb⟩

theorem answered_empty : Answered Db.empty.board := by
  have hjob : ∀ j J, Db.empty.board.job j ≠ some J := fun _ _ h => by cases h
  refine ⟨?_, ?_, ?_⟩
  · exact fun j J _ _ _ _ _ _ _ hb => absurd hb.job (hjob j J)
  · exact fun j J _ _ _ _ _ _ hb => absurd hb.job (hjob j J)
  · exact fun _ _ h => by cases h

theorem ordered_of_arises {codec : Codec} {db : Db} (h : Db.Arises codec db) : db.Ordered := by
  have hempty : Db.Ordered Db.empty := ⟨sound_empty.coupled, sound_empty.wired, answered_empty⟩
  exact hempty.moves (moves_later sound_empty h)

end JobmanControl
