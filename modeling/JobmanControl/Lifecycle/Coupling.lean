import JobmanControl.Lifecycle.Board

/-!
Every move keeps the board coupled. The links between rows are followed through
the columns that never change, so a move that only rewrites the rows of one
dispatched job leaves them as they are; what is left to show is the stage of
that one job.
-/

namespace JobmanControl

variable {b : Board} {a e j r : Id} {R : RunFacts} {E : ExecutionFacts} {A : AssignmentFacts}
  {J : JobFacts}

variable {n : Id} {p : Phases}

namespace Lifecycle
namespace Board

/-- The columns of a row that tie it to its parent. -/
def runLink (b : Board) (r : Id) : Option (Id × Id) :=
  (b.run r).map fun R => (R.namespaceId, R.jobId)

def executionLink (b : Board) (e : Id) : Option (Id × Id) :=
  (b.execution e).map fun E => (E.namespaceId, E.runId)

def assignmentLink (b : Board) (a : Id) : Option Id := (b.assignment a).map (·.executionId)

def jobNamespace (b : Board) (j : Id) : Option Id := (b.job j).map (·.namespaceId)

/-- Foreign keys and uniqueness: runs, executions and assignments come in threes,
one of each for a dispatched job, all in its namespace. -/
structure Linked (b : Board) : Prop where
  run_unique : ∀ r r' n n' j, b.runLink r = some (n, j) → b.runLink r' = some (n', j) → r = r'
  execution_unique : ∀ e e' n n' r,
    b.executionLink e = some (n, r) → b.executionLink e' = some (n', r) → e = e'
  assignment_unique : ∀ a a' e, b.assignmentLink a = some e → b.assignmentLink a' = some e → a = a'
  run_job : ∀ r n j, b.runLink r = some (n, j) → b.jobNamespace j = some n
  execution_run : ∀ e n r, b.executionLink e = some (n, r) → ∃ j, b.runLink r = some (n, j)
  assignment_execution : ∀ a e, b.assignmentLink a = some e → ∃ n r, b.executionLink e = some (n, r)
  run_execution : ∀ r n j, b.runLink r = some (n, j) → ∃ e, b.executionLink e = some (n, r)
  execution_assignment : ∀ e n r, b.executionLink e = some (n, r) → ∃ a, b.assignmentLink a = some e

theorem Linked.congr {b' : Board} (h : Linked b) (hrun : b'.runLink = b.runLink)
    (hexec : b'.executionLink = b.executionLink) (hassign : b'.assignmentLink = b.assignmentLink)
    (hjob : ∀ j n, b.jobNamespace j = some n → b'.jobNamespace j = some n) : Linked b' := by
  refine ⟨?_, ?_, ?_, ?_, ?_, ?_, ?_, ?_⟩
  · simpa only [hrun] using h.run_unique
  · simpa only [hexec] using h.execution_unique
  · simpa only [hassign] using h.assignment_unique
  · intro r n j hr
    rw [hrun] at hr
    exact hjob j n (h.run_job r n j hr)
  · simpa only [hrun, hexec] using h.execution_run
  · simpa only [hassign, hexec] using h.assignment_execution
  · simpa only [hrun, hexec] using h.run_execution
  · simpa only [hassign, hexec] using h.execution_assignment

theorem runLink_eq (h : b.run r = some R) :
    b.runLink r = some (R.namespaceId, R.jobId) := by
  rw [runLink, h]
  rfl

theorem executionLink_eq (h : b.execution e = some E) :
    b.executionLink e = some (E.namespaceId, E.runId) := by
  rw [executionLink, h]
  rfl

theorem assignmentLink_eq (h : b.assignment a = some A) :
    b.assignmentLink a = some A.executionId := by
  rw [assignmentLink, h]
  rfl

theorem jobNamespace_eq (h : b.job j = some J) :
    b.jobNamespace j = some J.namespaceId := by
  rw [jobNamespace, h]
  rfl

theorem run_of_runLink (h : b.runLink r = some (n, j)) :
    ∃ R, b.run r = some R ∧ R.jobId = j := by
  obtain ⟨R, hR, hlink⟩ := Option.map_eq_some_iff.mp h
  exact ⟨R, hR, congrArg Prod.snd hlink⟩

theorem execution_of_executionLink (h : b.executionLink e = some (n, r)) :
    ∃ E, b.execution e = some E ∧ E.runId = r := by
  obtain ⟨E, hE, hlink⟩ := Option.map_eq_some_iff.mp h
  exact ⟨E, hE, congrArg Prod.snd hlink⟩

theorem assignment_of_assignmentLink (h : b.assignmentLink a = some e) :
    ∃ A, b.assignment a = some A ∧ A.executionId = e :=
  Option.map_eq_some_iff.mp h

theorem job_of_jobNamespace (h : b.jobNamespace j = some n) :
    ∃ J, b.job j = some J ∧ J.namespaceId = n :=
  Option.map_eq_some_iff.mp h

theorem Linked.bundle_of_run (h : Linked b) (hR : b.run r = some R) :
    ∃ J e E a A, b.Bundle R.jobId J r R e E a A := by
  have hr := runLink_eq hR
  obtain ⟨J, hJ, -⟩ := job_of_jobNamespace (h.run_job _ _ _ hr)
  obtain ⟨e, he⟩ := h.run_execution _ _ _ hr
  obtain ⟨E, hE, hEr⟩ := execution_of_executionLink he
  obtain ⟨a, ha⟩ := h.execution_assignment _ _ _ he
  obtain ⟨A, hA, hAe⟩ := assignment_of_assignmentLink ha
  exact ⟨J, e, E, a, A, hJ, hR, hE, hA, rfl, hEr, hAe⟩

theorem Linked.bundle_of_execution (h : Linked b) (hE : b.execution e = some E) :
    ∃ j J R a A, b.Bundle j J E.runId R e E a A := by
  have he := executionLink_eq hE
  obtain ⟨j, hr⟩ := h.execution_run _ _ _ he
  obtain ⟨R, hR, hRj⟩ := run_of_runLink hr
  obtain ⟨J, hJ, -⟩ := job_of_jobNamespace (h.run_job _ _ _ hr)
  obtain ⟨a, ha⟩ := h.execution_assignment _ _ _ he
  obtain ⟨A, hA, hAe⟩ := assignment_of_assignmentLink ha
  exact ⟨j, J, R, a, A, hJ, hR, hE, hA, hRj, rfl, hAe⟩

theorem Linked.bundle_of_assignment (h : Linked b) (hA : b.assignment a = some A) :
    ∃ j J r R E, b.Bundle j J r R A.executionId E a A := by
  obtain ⟨n, r, he⟩ := h.assignment_execution _ _ (assignmentLink_eq hA)
  obtain ⟨E, hE, hEr⟩ := execution_of_executionLink he
  obtain ⟨j, hr⟩ := h.execution_run _ _ _ he
  obtain ⟨R, hR, hRj⟩ := run_of_runLink hr
  obtain ⟨J, hJ, -⟩ := job_of_jobNamespace (h.run_job _ _ _ hr)
  exact ⟨j, J, r, R, E, hJ, hR, hE, hA, hRj, hEr, rfl⟩

section Bundle

theorem Bundle.runLink (h : b.Bundle j J r R e E a A) : b.runLink r = some (R.namespaceId, j) := by
  rw [runLink_eq h.run, h.run_job]

theorem Bundle.executionLink (h : b.Bundle j J r R e E a A) :
    b.executionLink e = some (E.namespaceId, r) := by
  rw [executionLink_eq h.execution, h.execution_run]

theorem Bundle.assignmentLink (h : b.Bundle j J r R e E a A) : b.assignmentLink a = some e := by
  rw [assignmentLink_eq h.assignment, h.assignment_execution]

theorem Linked.bundle_namespace (h : Linked b) (hb : b.Bundle j J r R e E a A) :
    J.namespaceId = E.namespaceId := by
  obtain ⟨j', hr⟩ := h.execution_run _ _ _ hb.executionLink
  have hpair := Option.some.inj (hr.symm.trans hb.runLink)
  obtain ⟨J', hJ', hns⟩ := job_of_jobNamespace (h.run_job _ _ _ hr)
  rw [(Prod.mk.inj hpair).2, hb.job] at hJ'
  cases hJ'
  exact hns

theorem Bundle.putJob_eq (h : b.Bundle j J r R e E a A) (J' : JobFacts) :
    b.putJob j J' = b.putBundle j J' r R e E a A := by
  have hR : Function.update b.run r (some R) = b.run := Function.update_eq_self_iff.mpr h.run.symm
  have hE : Function.update b.execution e (some E) = b.execution :=
    Function.update_eq_self_iff.mpr h.execution.symm
  have hA : Function.update b.assignment a (some A) = b.assignment :=
    Function.update_eq_self_iff.mpr h.assignment.symm
  rw [putBundle, hR, hE, hA]
  rfl

theorem Linked.bundle_unique (h : Linked b) {r' e' a' : Id} {J' : JobFacts} {R' : RunFacts}
    {E' : ExecutionFacts} {A' : AssignmentFacts} (hb : b.Bundle j J r R e E a A)
    (hb' : b.Bundle j J' r' R' e' E' a' A') : r' = r ∧ e' = e ∧ a' = a := by
  have hr : r' = r := h.run_unique r' r _ _ j hb'.runLink hb.runLink
  subst hr
  have he : e' = e := h.execution_unique e' e _ _ r' hb'.executionLink hb.executionLink
  subst he
  exact ⟨rfl, rfl, h.assignment_unique a' a e' hb'.assignmentLink hb.assignmentLink⟩

end Bundle

end Board

open Board

/-- The board is coupled: dispatched work is in one of the five stages, work
that was not dispatched is waiting or settled, and events come from work an
agent has accepted. -/
structure Coupled (b : Board) : Prop where
  linked : b.Linked
  stage : ∀ j J r R e E a A, b.Bundle j J r R e E a A → Stage (phases J R E A)
  idle : ∀ j J, b.job j = some J → b.Idle j →
    J.progress = .live .accepted ∨ ∃ o, J.progress = .terminal o
  waiting : ∀ j J, b.job j = some J → J.progress = .live .accepted → J.desiredState = .run
  heard : ∀ v V, b.event v = some V →
    ∃ a A, b.assignment a = some A ∧ A.executionId = V.executionId ∧ A.decision = .accepted

theorem Stage.job_ne_accepted (h : Stage p) : p.job ≠ .live .accepted := by
  cases h <;> simp

theorem Stage.engaged (h : Stage p)
    (hexec : p.execution = .live .accepted ∨ p.execution = .live .running) : Engaged p := by
  cases h with
  | accepted => exact .accepted
  | running => exact .running
  | offered | completed _ _ | withdrawn => simp at hexec

theorem Stage.engaged_of_live (h : Stage p) (hlive : ∃ q, p.job = .live q)
    (hexec : p.execution ≠ .live .planned) : Engaged p := by
  obtain ⟨q, hq⟩ := hlive
  cases h with
  | offered => exact absurd rfl hexec
  | accepted => exact .accepted
  | running => exact .running
  | completed _ _ | withdrawn => cases hq

theorem Stage.planned (h : Stage p) (hexec : p.execution = .live .planned) :
    p = ⟨.live .assigning, .live .assigning, .live .planned, .offered⟩ := by
  cases h with
  | offered => rfl
  | accepted | running | completed _ _ | withdrawn => simp at hexec

theorem Stage.open_offer (h : Stage p) (hdecision : p.decision = .offered) :
    p = ⟨.live .assigning, .live .assigning, .live .planned, .offered⟩ := by
  cases h with
  | offered => rfl
  | accepted | running | completed _ _ | withdrawn => simp at hdecision

/-- The phase of the job tells the phase of the execution and the other way round. -/
theorem Stage.job_iff_execution (h : Stage p) :
    (p.job = .live .assigning ↔ p.execution = .live .planned) ∧
      (p.job = .live .acceptedExecution ↔ p.execution = .live .accepted) ∧
      (p.job = .live .running ↔ p.execution = .live .running) := by
  cases h <;> simp

theorem Stage.terminal {o : Outcome} (h : Stage p) (hjob : p.job = .terminal o) :
    p.run = .terminal o ∧ ∃ result, p.execution = .terminal ⟨o, result⟩ := by
  cases h with
  | offered | accepted | running => cases hjob
  | completed _ document =>
      cases hjob
      exact ⟨rfl, _, rfl⟩
  | withdrawn =>
      cases hjob
      exact ⟨rfl, _, rfl⟩

theorem Engaged.decision (h : Engaged p) : p.decision = .accepted := by
  cases h <;> rfl

theorem Engaged.run (h : Engaged p) : p.run = .live .accepted ∨ p.run = .live .running := by
  cases h with
  | accepted => exact Or.inl rfl
  | running => exact Or.inr rfl

theorem Engaged.start {q : Phases} (h : Engaged p) (hjob : q.job = .live .running)
    (hrun : q.run = .live .running) (hexec : q.execution = .live .running)
    (hdecision : q.decision = p.decision) : Advance p q := by
  obtain ⟨job, run, execution, decision⟩ := q
  cases hjob
  cases hrun
  cases hexec
  cases hdecision.trans h.decision
  exact .start h

theorem Engaged.complete {q : Phases} {o : Outcome} {document : String} (h : Engaged p)
    (hjob : q.job = .terminal o) (hrun : q.run = .terminal o)
    (hexec : q.execution = .terminal ⟨o, .reported document⟩)
    (hdecision : q.decision = p.decision) : Finish p q o := by
  obtain ⟨job, run, execution, decision⟩ := q
  cases hjob
  cases hrun
  cases hexec
  cases hdecision.trans h.decision
  exact .complete o document h

/-- A job that is waiting has not been dispatched. -/
theorem Coupled.idle_of_accepted (h : Coupled b) (hJ : b.job j = some J)
    (hacc : J.progress = .live .accepted) : b.Idle j := by
  intro r R hR hRj
  obtain ⟨J', e, E, a, A, hb⟩ := h.linked.bundle_of_run hR
  have hsame : J' = J := by
    have := hb.job
    rw [hRj, hJ] at this
    exact (Option.some.inj this).symm
  subst hsame
  exact (h.stage _ _ _ _ _ _ _ _ hb).job_ne_accepted hacc

end Lifecycle
end JobmanControl
