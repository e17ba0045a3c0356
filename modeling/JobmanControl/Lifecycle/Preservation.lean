import JobmanControl.Lifecycle.Coupling

/-!
`Coupled` is kept by every move, and no move takes back what a terminal row or
a cancellation request says.
-/

namespace JobmanControl

variable {M : Licence} {b : Board} {j r e a : Id} {J J' : JobFacts} {R R' : RunFacts}
  {E E' : ExecutionFacts} {A A' : AssignmentFacts}

namespace Lifecycle

open Board Function

theorem update_keeps {α β : Type} [DecidableEq α] {f : α → Option β} {k : α} {x : β}
    (hk : f k = none) {k' : α} {y : β} (h : f k' = some y) :
    update f k (some x) k' = some y := by
  rw [update_of_ne, h]
  rintro rfl
  rw [hk] at h
  cases h

theorem update_cases {α β : Type} [DecidableEq α] {f : α → Option β} {i : α} {x : β} {k : α}
    {y : β} (h : update f i (some x) k = some y) :
    k = i ∧ y = x ∨ k ≠ i ∧ f k = some y := by
  by_cases hk : k = i
  · subst hk
    rw [update_self] at h
    exact Or.inl ⟨rfl, (Option.some.inj h).symm⟩
  · rw [update_of_ne hk] at h
    exact Or.inr ⟨hk, h⟩

/-- A new value that shares its key with no old one leaves the key unique. -/
theorem update_unique {α β γ : Type} [DecidableEq α] {f : α → Option β} {i : α} {x : β} {p : β → γ}
    (hfresh : ∀ k y, f k = some y → p y ≠ p x)
    (hunique : ∀ k k' y y', f k = some y → f k' = some y' → p y = p y' → k = k') {k k' : α}
    {y y' : β} (h : update f i (some x) k = some y) (h' : update f i (some x) k' = some y')
    (hp : p y = p y') : k = k' := by
  obtain ⟨rfl, rfl⟩ | ⟨-, hold⟩ := update_cases h <;>
    obtain ⟨rfl, rfl⟩ | ⟨-, hold'⟩ := update_cases h'
  · rfl
  · exact absurd hp.symm (hfresh k' y' hold')
  · exact absurd hp (hfresh k y hold)
  · exact hunique k k' y y' hold hold' hp

/-- Only the rows of the lifecycle matter to the coupling. -/
theorem Coupled.congr {b' : Board} (h : Coupled b) (hjob : b'.job = b.job) (hrun : b'.run = b.run)
    (hexec : b'.execution = b.execution) (hassign : b'.assignment = b.assignment)
    (hevent : b'.event = b.event) : Coupled b' := by
  have hlinked : b'.Linked := by
    refine h.linked.congr ?_ ?_ ?_ ?_
    · funext r; simp only [runLink, hrun]
    · funext e; simp only [executionLink, hexec]
    · funext a; simp only [assignmentLink, hassign]
    · intro j n hj; simpa only [jobNamespace, hjob] using hj
  refine ⟨hlinked, ?_, ?_, ?_, ?_⟩
  · intro j J r R e E a A hb
    refine h.stage j J r R e E a A ⟨?_, ?_, ?_, ?_, hb.run_job, hb.execution_run,
      hb.assignment_execution⟩
    · rw [← hjob]; exact hb.job
    · rw [← hrun]; exact hb.run
    · rw [← hexec]; exact hb.execution
    · rw [← hassign]; exact hb.assignment
  · simpa only [Idle, hjob, hrun] using h.idle
  · simpa only [hjob] using h.waiting
  · simpa only [hevent, hassign] using h.heard

/-- Adding or rewriting a job that is not dispatched keeps the rest as it is. -/
theorem Coupled.putJob (h : Coupled b) (hidle : b.Idle j)
    (hns : ∀ J, b.job j = some J → J'.namespaceId = J.namespaceId)
    (hprog : J'.progress = .live .accepted ∧ J'.desiredState = .run ∨
      ∃ o, J'.progress = .terminal o) : Coupled (b.putJob j J') := by
  have hlinked : (b.putJob j J').Linked := by
    refine h.linked.congr rfl rfl rfl ?_
    intro k n hk
    by_cases hkj : k = j
    · subst hkj
      obtain ⟨J, hJ, hn⟩ := job_of_jobNamespace hk
      simp only [jobNamespace, Board.putJob, update_self, Option.map_some, hns J hJ, hn]
    · simpa only [jobNamespace, Board.putJob, update_of_ne hkj] using hk
  refine ⟨hlinked, ?_, ?_, ?_, h.heard⟩
  · intro k K r R e E a A hb
    have hkj : k ≠ j := fun hkj => hidle r R hb.run (hb.run_job.trans hkj)
    refine h.stage k K r R e E a A { hb with job := ?_ }
    simpa only [Board.putJob, update_of_ne hkj] using hb.job
  · intro k K hK hkidle
    obtain ⟨-, rfl⟩ | ⟨-, hold⟩ := update_cases hK
    · exact hprog.imp_left And.left
    · exact h.idle k K hold hkidle
  · intro k K hK hacc
    obtain ⟨-, rfl⟩ | ⟨-, hold⟩ := update_cases hK
    · obtain ⟨-, hrun⟩ | ⟨o, ho⟩ := hprog
      · exact hrun
      · rw [ho] at hacc
        cases hacc
    · exact h.waiting k K hold hacc

theorem bundle_putBundle (hRj : R.jobId = j) (hEr : E.runId = r) (hAe : A.executionId = e) :
    (b.putBundle j J r R e E a A).Bundle j J r R e E a A := by
  refine ⟨?_, ?_, ?_, ?_, hRj, hEr, hAe⟩ <;> simp [putBundle]

theorem bundle_of_putBundle_ne {j₁ r₁ e₁ a₁ : Id} {J₁ : JobFacts} {R₁ : RunFacts}
    {E₁ : ExecutionFacts} {A₁ : AssignmentFacts}
    (hb : (b.putBundle j J r R e E a A).Bundle j₁ J₁ r₁ R₁ e₁ E₁ a₁ A₁)
    (hRj : R.jobId = j) (hEr : E.runId = r) (hAe : A.executionId = e) (hj : j₁ ≠ j) :
    b.Bundle j₁ J₁ r₁ R₁ e₁ E₁ a₁ A₁ := by
  obtain ⟨rfl, -⟩ | ⟨-, hjob⟩ := update_cases hb.job
  · exact absurd rfl hj
  obtain ⟨-, rfl⟩ | ⟨hr, hrun⟩ := update_cases hb.run
  · exact absurd (hb.run_job.symm.trans hRj) hj
  obtain ⟨-, rfl⟩ | ⟨he, hexec⟩ := update_cases hb.execution
  · exact absurd (hb.execution_run.symm.trans hEr) hr
  obtain ⟨-, rfl⟩ | ⟨-, hassign⟩ := update_cases hb.assignment
  · exact absurd (hb.assignment_execution.symm.trans hAe) he
  exact ⟨hjob, hrun, hexec, hassign, hb.run_job, hb.execution_run, hb.assignment_execution⟩

theorem runLink_putBundle : (b.putBundle j J r R e E a A).runLink =
    update b.runLink r (some (R.namespaceId, R.jobId)) :=
  comp_update (Option.map fun R : RunFacts => (R.namespaceId, R.jobId)) b.run r (some R)

theorem executionLink_putBundle : (b.putBundle j J r R e E a A).executionLink =
    update b.executionLink e (some (E.namespaceId, E.runId)) :=
  comp_update (Option.map fun E : ExecutionFacts => (E.namespaceId, E.runId)) b.execution e (some E)

theorem assignmentLink_putBundle : (b.putBundle j J r R e E a A).assignmentLink =
    update b.assignmentLink a (some A.executionId) :=
  comp_update (Option.map AssignmentFacts.executionId) b.assignment a (some A)

/-- A rewritten job stays in its namespace. -/
theorem jobNamespace_putBundle (hJ : b.job j = some J) (hns : J'.namespaceId = J.namespaceId) :
    (b.putBundle j J' r R e E a A).jobNamespace = b.jobNamespace := by
  have hput : (b.putBundle j J' r R e E a A).jobNamespace =
      update b.jobNamespace j (some J'.namespaceId) :=
    comp_update (Option.map JobFacts.namespaceId) b.job j (some J')
  rw [hput, hns, ← jobNamespace_eq hJ, update_eq_self]

theorem SameWork.linked (hl : b.Linked) (hb : b.Bundle j J r R e E a A)
    (hs : SameWork J R E A J' R' E' A') : (b.putBundle j J' r R' e E' a A').Linked := by
  refine hl.congr ?_ ?_ ?_ ?_
  · rw [runLink_putBundle, hs.run_namespace, hs.run_jobId, ← runLink_eq hb.run, update_eq_self]
  · rw [executionLink_putBundle, hs.execution_namespace, hs.execution_runId,
      ← executionLink_eq hb.execution, update_eq_self]
  · rw [assignmentLink_putBundle, hs.assignment_executionId, ← assignmentLink_eq hb.assignment,
      update_eq_self]
  · rw [jobNamespace_putBundle hb.job hs.job_namespace]
    exact fun _ _ => id

/-- Writing the rows of dispatched work keeps the coupling when they are in a stage of their
own, take the place of the same job's rows, and leave an accepted offer accepted. -/
theorem Coupled.putBundle (h : Coupled b) (hlinked : (b.putBundle j J r R e E a A).Linked)
    (hRj : R.jobId = j) (hEr : E.runId = r) (hAe : A.executionId = e)
    (hstage : Stage (phases J R E A)) (hrun : ∀ R₁, b.run r = some R₁ → R₁.jobId = j)
    (hassign : ∀ A₁, b.assignment a = some A₁ →
      A₁.executionId = e ∧ (A₁.decision = .accepted → A.decision = .accepted)) :
    Coupled (b.putBundle j J r R e E a A) := by
  have hnew : (b.putBundle j J r R e E a A).Bundle j J r R e E a A := bundle_putBundle hRj hEr hAe
  refine ⟨hlinked, ?_, ?_, ?_, ?_⟩
  · intro j₁ J₁ r₁ R₁ e₁ E₁ a₁ A₁ hb₁
    by_cases hj : j₁ = j
    · subst hj
      obtain ⟨rfl, rfl, rfl⟩ := hlinked.bundle_unique hnew hb₁
      have hJ := Option.some.inj (hb₁.job.symm.trans hnew.job)
      have hR := Option.some.inj (hb₁.run.symm.trans hnew.run)
      have hE := Option.some.inj (hb₁.execution.symm.trans hnew.execution)
      have hA := Option.some.inj (hb₁.assignment.symm.trans hnew.assignment)
      rw [hJ, hR, hE, hA]
      exact hstage
    · exact h.stage _ _ _ _ _ _ _ _ (bundle_of_putBundle_ne hb₁ hRj hEr hAe hj)
  · intro k K hK hidle
    have hkj : k ≠ j := by
      rintro rfl
      exact hidle r R hnew.run hRj
    refine h.idle k K (by simpa only [Board.putBundle, update_of_ne hkj] using hK) ?_
    intro r₁ R₁ hR₁ hR₁k
    have hr : r₁ ≠ r := by
      rintro rfl
      exact hkj (hR₁k.symm.trans (hrun R₁ hR₁))
    exact hidle r₁ R₁ (by simpa only [Board.putBundle, update_of_ne hr] using hR₁) hR₁k
  · intro k K hK hacc
    obtain ⟨-, rfl⟩ | ⟨-, hold⟩ := update_cases hK
    · exact absurd hacc hstage.job_ne_accepted
    · exact h.waiting k K hold hacc
  · intro v x hv
    obtain ⟨a₁, A₁, hA₁, hx, hacc⟩ := h.heard v x hv
    by_cases ha : a₁ = a
    · subst ha
      obtain ⟨he, hdec⟩ := hassign A₁ hA₁
      exact ⟨a₁, A, hnew.assignment, hAe.trans (he.symm.trans hx), hdec hacc⟩
    · exact ⟨a₁, A₁, by simpa only [Board.putBundle, update_of_ne ha] using hA₁, hx, hacc⟩

theorem Coupled.rewrite (h : Coupled b) (hb : b.Bundle j J r R e E a A)
    (hs : SameWork J R E A J' R' E' A') (hstage : Stage (phases J' R' E' A'))
    (hdec : A.decision = .accepted → A'.decision = .accepted) :
    Coupled (b.putBundle j J' r R' e E' a A') := by
  refine h.putBundle (hs.linked h.linked hb) (hs.run_jobId.trans hb.run_job)
    (hs.execution_runId.trans hb.execution_run)
    (hs.assignment_executionId.trans hb.assignment_execution) hstage ?_ ?_
  · intro R₁ hR₁
    cases hb.run.symm.trans hR₁
    exact hb.run_job
  · intro A₁ hA₁
    cases hb.assignment.symm.trans hA₁
    exact ⟨hb.assignment_execution, hdec⟩

/-- A job dispatched into fresh rows. -/
structure FreshBundle (b : Board) (j : Id) (J : JobFacts) (r : Id) (R : RunFacts) (e : Id)
    (E : ExecutionFacts) (a : Id) (A : AssignmentFacts) : Prop where
  job : b.job j = some J
  idle : b.Idle j
  run : b.run r = none
  execution : b.execution e = none
  assignment : b.assignment a = none
  run_namespace : R.namespaceId = J.namespaceId
  run_job : R.jobId = j
  execution_namespace : E.namespaceId = J.namespaceId
  execution_run : E.runId = r
  assignment_execution : A.executionId = e

theorem FreshBundle.linked (hl : b.Linked) (hf : FreshBundle b j J r R e E a A)
    (hns : J'.namespaceId = J.namespaceId) : (b.putBundle j J' r R e E a A).Linked := by
  have hrun : (b.putBundle j J' r R e E a A).runLink =
      update b.runLink r (some (J.namespaceId, j)) := by
    rw [runLink_putBundle, hf.run_namespace, hf.run_job]
  have hexec : (b.putBundle j J' r R e E a A).executionLink =
      update b.executionLink e (some (J.namespaceId, r)) := by
    rw [executionLink_putBundle, hf.execution_namespace, hf.execution_run]
  have hassign : (b.putBundle j J' r R e E a A).assignmentLink =
      update b.assignmentLink a (some e) := by
    rw [assignmentLink_putBundle, hf.assignment_execution]
  have hrnone : b.runLink r = none := by simp [runLink, hf.run]
  have henone : b.executionLink e = none := by simp [executionLink, hf.execution]
  have hanone : b.assignmentLink a = none := by simp [assignmentLink, hf.assignment]
  -- No row of the board points at the fresh identities or at the idle job.
  have hnorun : ∀ k link, b.runLink k = some link → link.2 ≠ j := by
    intro k link hk hj
    obtain ⟨R₁, hR₁, hj₁⟩ := run_of_runLink hk
    exact hf.idle k R₁ hR₁ (hj₁.trans hj)
  have hnoexec : ∀ k link, b.executionLink k = some link → link.2 ≠ r := by
    rintro k link hk rfl
    obtain ⟨j₁, hj₁⟩ := hl.execution_run k _ _ hk
    cases hrnone.symm.trans hj₁
  have hnoassign : ∀ k e₁, b.assignmentLink k = some e₁ → e₁ ≠ e := by
    rintro k _ hk rfl
    obtain ⟨n, r₁, he₁⟩ := hl.assignment_execution k _ hk
    cases henone.symm.trans he₁
  constructor <;> simp only [hrun, hexec, hassign, jobNamespace_putBundle hf.job hns]
  case run_unique =>
    intro r₁ r₂ n₁ n₂ k h₁ h₂
    refine update_unique (p := Prod.snd) hnorun ?_ h₁ h₂ rfl
    rintro k k' ⟨n, i⟩ ⟨n', _⟩ h h' ⟨⟩
    exact hl.run_unique k k' n n' i h h'
  case execution_unique =>
    intro e₁ e₂ n₁ n₂ k h₁ h₂
    refine update_unique (p := Prod.snd) hnoexec ?_ h₁ h₂ rfl
    rintro k k' ⟨n, i⟩ ⟨n', _⟩ h h' ⟨⟩
    exact hl.execution_unique k k' n n' i h h'
  case assignment_unique =>
    intro a₁ a₂ k h₁ h₂
    refine update_unique (p := id) hnoassign ?_ h₁ h₂ rfl
    rintro k k' i _ h h' ⟨⟩
    exact hl.assignment_unique k k' i h h'
  case run_job =>
    intro r₁ n k h₁
    obtain ⟨-, ⟨⟩⟩ | ⟨-, hold⟩ := update_cases h₁
    · exact jobNamespace_eq hf.job
    · exact hl.run_job r₁ n k hold
  case execution_run =>
    intro e₁ n k h₁
    obtain ⟨-, ⟨⟩⟩ | ⟨-, hold⟩ := update_cases h₁
    · exact ⟨j, update_self ..⟩
    · obtain ⟨j₁, hj₁⟩ := hl.execution_run e₁ n k hold
      exact ⟨j₁, update_keeps hrnone hj₁⟩
  case assignment_execution =>
    intro a₁ k h₁
    obtain ⟨-, rfl⟩ | ⟨-, hold⟩ := update_cases h₁
    · exact ⟨J.namespaceId, r, update_self ..⟩
    · obtain ⟨n, r₁, he₁⟩ := hl.assignment_execution a₁ k hold
      exact ⟨n, r₁, update_keeps henone he₁⟩
  case run_execution =>
    intro r₁ n k h₁
    obtain ⟨rfl, ⟨⟩⟩ | ⟨-, hold⟩ := update_cases h₁
    · exact ⟨e, update_self ..⟩
    · obtain ⟨e₁, he₁⟩ := hl.run_execution r₁ n k hold
      exact ⟨e₁, update_keeps henone he₁⟩
  case execution_assignment =>
    intro e₁ n k h₁
    obtain ⟨rfl, -⟩ | ⟨-, hold⟩ := update_cases h₁
    · exact ⟨a, update_self ..⟩
    · obtain ⟨a₁, ha₁⟩ := hl.execution_assignment e₁ n k hold
      exact ⟨a₁, update_keeps hanone ha₁⟩

theorem Coupled.dispatch (h : Coupled b) (hf : FreshBundle b j J r R e E a A)
    (hns : J'.namespaceId = J.namespaceId)
    (hphases : phases J' R E A = ⟨.live .assigning, .live .assigning, .live .planned, .offered⟩) :
    Coupled (b.putBundle j J' r R e E a A) := by
  refine h.putBundle (hf.linked h.linked hns) hf.run_job hf.execution_run hf.assignment_execution
    (by rw [hphases]; exact .offered) ?_ ?_
  · intro R₁ hR₁
    cases hf.run.symm.trans hR₁
  · intro A₁ hA₁
    cases hf.assignment.symm.trans hA₁

theorem Advance.stage {p q : Phases} (h : Advance p q) : Stage q := by
  cases h with
  | accept => exact .accepted
  | start _ => exact .running
  | keep h =>
      cases h with
      | accepted => exact .accepted
      | running => exact .running

theorem Advance.decision {p q : Phases} (h : Advance p q) : q.decision = .accepted := by
  cases h with
  | accept | start _ => rfl
  | keep h => exact h.decision

theorem Finish.stage {p q : Phases} {o : Outcome} (h : Finish p q o) : Stage q := by
  cases h with
  | complete o document _ => exact .completed o document
  | withdraw => exact .withdrawn

theorem Finish.decision {p q : Phases} {o : Outcome} (h : Finish p q o)
    (hp : p.decision = .accepted) : q.decision = .accepted := by
  cases h with
  | complete _ _ _ => rfl
  | withdraw => cases hp

theorem coupled_move {b' : Board} (h : Coupled b) (hm : Move M b b') : Coupled b' := by
  cases hm with
  | @arrive j J _ hnone hacc hrun _ _ =>
      refine h.putJob ?_ ?_ (Or.inl ⟨hacc, hrun⟩)
      · intro r R hR hRj
        obtain ⟨J₁, hJ₁, -⟩ := job_of_jobNamespace (h.linked.run_job _ _ _ (runLink_eq hR))
        rw [hRj, hnone] at hJ₁
        cases hJ₁
      · intro J₁ hJ₁
        rw [hnone] at hJ₁
        cases hJ₁
  | configure | publishCollection | publishGraph | enrol | ask => exact h.congr rfl rfl rfl rfl rfl
  | link _ _ _ _ _ _ _ _ _ _ => exact h.congr rfl rfl rfl rfl rfl
  | settle hJ hacc hterm hns _ _ =>
      refine (h.putJob (h.idle_of_accepted hJ hacc) ?_ (Or.inr ⟨_, hterm⟩)).congr
        rfl rfl rfl rfl rfl
      intro J₁ hJ₁
      cases hJ.symm.trans hJ₁
      exact hns
  | dispose hJ hacc _ _ _ _ _ hterm hns _ _ =>
      refine (h.putJob (h.idle_of_accepted hJ hacc) ?_ (Or.inr ⟨_, hterm⟩)).congr
        rfl rfl rfl rfl rfl
      intro J₁ hJ₁
      cases hJ.symm.trans hJ₁
      exact hns
  | dispatch _ hJ hacc _ hr he ha _ hns _ hRn hRj hEn hEr hAe hphases _ =>
      exact h.dispatch ⟨hJ, h.idle_of_accepted hJ hacc, hr, he, ha, hRn, hRj, hEn, hEr, hAe⟩ hns
        hphases
  | advance hb hs hadv _ => exact h.rewrite hb hs hadv.stage fun _ => hadv.decision
  | finish hb hs hfin _ _ =>
      exact (h.rewrite hb hs hfin.stage hfin.decision).congr rfl rfl rfl rfl rfl
  | @record v V E hv hE hprog =>
      refine ⟨h.linked.congr rfl rfl rfl fun _ _ hj => hj, ?_, h.idle, h.waiting, ?_⟩
      · intro j J r R e E a A hb
        exact h.stage j J r R e E a A { hb with }
      · intro w x hw
        obtain ⟨-, rfl⟩ | ⟨-, hold⟩ := update_cases hw
        · obtain ⟨j, J, R, a, A, hb⟩ := h.linked.bundle_of_execution hE
          have hengaged := (h.stage _ _ _ _ _ _ _ _ hb).engaged hprog
          exact ⟨a, A, hb.assignment, hb.assignment_execution, hengaged.decision⟩
        · exact h.heard w x hold

end Lifecycle
end JobmanControl
