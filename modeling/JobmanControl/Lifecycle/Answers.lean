import JobmanControl.Lifecycle.Coherence

/-!
What becomes of an accepted offer. Work that an agent has accepted ends with a
report of the agent, and a request to cancel it is put before the agent. Both
follow from what one move can do to the rows of dispatched work.
-/

namespace JobmanControl
namespace Lifecycle

open Board

variable {M : Licence}

section Moves

variable {b b' : Board} {j r e a : Id} {J' : JobFacts} {R' : RunFacts} {E' : ExecutionFacts}
  {A' : AssignmentFacts}

theorem bundle_of_putJob {k : Id} {K : JobFacts} (hidle : b.Idle k)
    (hb : (b.putJob k K).Bundle j J' r R' e E' a A') : b.Bundle j J' r R' e E' a A' := by
  have hjk : j ≠ k := fun hjk => hidle r R' hb.run (hb.run_job.trans hjk)
  refine { hb with job := ?_ }
  simpa only [putJob, Function.update_of_ne hjk] using hb.job

theorem bundle_of_putBundle {j₁ r₁ e₁ a₁ : Id} {J₁ : JobFacts} {R₁ : RunFacts}
    {E₁ : ExecutionFacts} {A₁ : AssignmentFacts} (hl : (b.putBundle j₁ J₁ r₁ R₁ e₁ E₁ a₁ A₁).Linked)
    (hRj : R₁.jobId = j₁) (hEr : E₁.runId = r₁) (hAe : A₁.executionId = e₁)
    (hb : (b.putBundle j₁ J₁ r₁ R₁ e₁ E₁ a₁ A₁).Bundle j J' r R' e E' a A') :
    b.Bundle j J' r R' e E' a A' ∨
      (j = j₁ ∧ r = r₁ ∧ e = e₁ ∧ a = a₁) ∧ J' = J₁ ∧ R' = R₁ ∧ E' = E₁ ∧ A' = A₁ := by
  by_cases hj : j = j₁
  · subst hj
    have hnew := @bundle_putBundle b j r₁ e₁ a₁ J₁ R₁ E₁ A₁ hRj hEr hAe
    obtain ⟨rfl, rfl, rfl⟩ := hl.bundle_unique hnew hb
    exact Or.inr ⟨⟨rfl, rfl, rfl, rfl⟩, Option.some.inj (hb.job.symm.trans hnew.job),
      Option.some.inj (hb.run.symm.trans hnew.run),
      Option.some.inj (hb.execution.symm.trans hnew.execution),
      Option.some.inj (hb.assignment.symm.trans hnew.assignment)⟩
  · exact Or.inl (bundle_of_putBundle_ne hb hRj hEr hAe hj)

theorem Move.bundle_cases (hc : Coupled b) (hm : Move M b b')
    (hb : b'.Bundle j J' r R' e E' a A') :
    b.Bundle j J' r R' e E' a A' ∨
      (phases J' R' E' A' = ⟨.live .assigning, .live .assigning, .live .planned, .offered⟩ ∧
        J'.desiredState = .run) ∨
      ∃ J R E A, b.Bundle j J r R e E a A ∧
        (Advance (phases J R E A) (phases J' R' E' A') ∧
            (J'.desiredState = .cancel → J.desiredState = .cancel ∨ b.Asked e) ∨
          ∃ o, Finish (phases J R E A) (phases J' R' E' A') o ∧
            (A'.decision = .accepted → b.Reported e ∧ J'.desiredState = J.desiredState)) := by
  have hc' := coupled_move hc hm
  have hsame : b'.job = b.job → b'.run = b.run → b'.execution = b.execution →
      b'.assignment = b.assignment → b.Bundle j J' r R' e E' a A' := by
    intro hjob hrun hexec hassign
    exact ⟨hjob ▸ hb.job, hrun ▸ hb.run, hexec ▸ hb.execution, hassign ▸ hb.assignment, hb.run_job,
      hb.execution_run, hb.assignment_execution⟩
  cases hm with
  | @arrive k K _ hnone _ _ _ _ =>
      refine Or.inl (bundle_of_putJob ?_ hb)
      intro r₁ R₁ hR₁ hk
      obtain ⟨J₁, hJ₁, -⟩ := job_of_jobNamespace (hc.linked.run_job _ _ _ (runLink_eq hR₁))
      rw [hk, hnone] at hJ₁
      cases hJ₁
  | configure | publishCollection | publishGraph | enrol | link | record | ask =>
      exact Or.inl (hsame rfl rfl rfl rfl)
  | @settle k n K K' o hK hacc _ _ _ _ =>
      refine Or.inl (bundle_of_putJob (k := k) (K := K') (hc.idle_of_accepted hK hacc) ?_)
      exact { hb with }
  | @dispose k n g i d K K' policy key edge hK hacc _ _ _ _ _ _ _ _ _ =>
      refine Or.inl (bundle_of_putJob (k := k) (K := K') (hc.idle_of_accepted hK hacc) ?_)
      exact { hb with }
  | dispatch _ hJ hacc _ _ _ _ _ _ _ _ hRj _ hEr hAe hphases hrun =>
      obtain hold | ⟨-, rfl, rfl, rfl, rfl⟩ := bundle_of_putBundle hc'.linked hRj hEr hAe hb
      · exact Or.inl hold
      · exact Or.inr (Or.inl ⟨hphases, hrun⟩)
  | advance hb₁ hs hadv hasked =>
      obtain hold | ⟨⟨rfl, rfl, rfl, rfl⟩, rfl, rfl, rfl, rfl⟩ :=
        bundle_of_putBundle hc'.linked (hs.run_jobId.trans hb₁.run_job)
          (hs.execution_runId.trans hb₁.execution_run)
          (hs.assignment_executionId.trans hb₁.assignment_execution) hb
      · exact Or.inl hold
      · exact Or.inr (Or.inr ⟨_, _, _, _, hb₁, Or.inl ⟨hadv, hasked⟩⟩)
  | @finish j₁ r₁ e₁ a₁ n J₁ J₁' R₁ R₁' E₁ E₁' A₁ A₁' o hb₁ hs hfin _ hreported =>
      have hb₂ : (b.putBundle j₁ J₁' r₁ R₁' e₁ E₁' a₁ A₁').Bundle j J' r R' e E' a A' := { hb with }
      obtain hold | ⟨⟨rfl, rfl, rfl, rfl⟩, rfl, rfl, rfl, rfl⟩ :=
        bundle_of_putBundle (hs.linked hc.linked hb₁) (hs.run_jobId.trans hb₁.run_job)
          (hs.execution_runId.trans hb₁.execution_run)
          (hs.assignment_executionId.trans hb₁.assignment_execution) hb₂
      · exact Or.inl hold
      · exact Or.inr (Or.inr ⟨_, _, _, _, hb₁, Or.inr ⟨o, hfin, hreported⟩⟩)

/-- Accepted work that ended has its report, and work that is to be cancelled has
its request, which is still pending. -/
structure Answered (b : Board) : Prop where
  reported : ∀ j J r R e E a A x, b.Bundle j J r R e E a A → A.decision = .accepted →
    E.progress = .terminal x → b.Reported e
  asked : ∀ j J r R e E a A, b.Bundle j J r R e E a A → A.decision ≠ .withdrawn →
    J.desiredState = .cancel → b.Asked e
  pending : ∀ n X, b.action n = some X → X.state = .pending

theorem Board.Reported.persists (h : b.Reported e) (hp : Persists b b') : b'.Reported e := by
  obtain ⟨v, V, hv, he, hcompletes⟩ := h
  exact ⟨v, V, hp.event v V hv, he, hcompletes⟩

theorem Board.Asked.persists (h : b.Asked e) (hp : Persists b b') : b'.Asked e := by
  obtain ⟨n, X, hn, he⟩ := h
  exact ⟨n, X, hp.action n X hn, he⟩

theorem Advance.open_after {p q : Phases} (h : Advance p q) :
    p.decision ≠ .withdrawn ∧ ∃ phase, q.execution = .live phase := by
  cases h with
  | accept => exact ⟨by simp, _, rfl⟩
  | start h => exact ⟨by simp [h.decision], _, rfl⟩
  | keep h => exact ⟨by simp [h.decision], h.live.2.2⟩

/-- Accepted work that ended was not withdrawn before its launch. -/
theorem Stage.reported {p : Phases} {x : ExecutionResult} (h : Stage p)
    (hacc : p.decision = .accepted) (hx : p.execution = .terminal x) :
    x.processResult ≠ .cancelledBeforeLaunch := by
  cases h with
  | offered | accepted | running => cases hx
  | completed o document =>
      cases hx
      simp
  | withdrawn => cases hacc

/-- The phase of an unfinished job tells the phase of its execution. -/
theorem Stage.execution_eq {p q : Phases} (hp : Stage p) (hq : Stage q)
    (hlive : ∃ phase, p.job = .live phase) (hjob : p.job = q.job) :
    p.execution = q.execution := by
  obtain ⟨phase, hphase⟩ := hlive
  cases hp <;> cases hq <;> first | rfl | (cases hphase; done) | cases hjob

theorem Finish.decisions {p q : Phases} {o : Outcome} (h : Finish p q o) :
    p.decision = .accepted ∧ q.decision = .accepted ∨ q.decision = .withdrawn := by
  cases h with
  | complete _ _ h => exact Or.inl ⟨h.decision, rfl⟩
  | withdraw => exact Or.inr rfl

theorem answered_move (h : Answered b) (hc : Coupled b) (hm : Move M b b') : Answered b' := by
  have hp := persists_move hc hm
  refine ⟨?_, ?_, ?_⟩
  · intro j J r R e E a A x hb hacc hx
    obtain hold | ⟨hphases, -⟩ | ⟨J₀, R₀, E₀, A₀, hb₀, ⟨hadv, -⟩ | ⟨o, hfin, hreported⟩⟩ :=
      hm.bundle_cases hc hb
    · exact (h.reported j J r R e E a A x hold hacc hx).persists hp
    · rw [show A.decision = .offered from congrArg Phases.decision hphases] at hacc
      cases hacc
    · obtain ⟨-, p, hlive⟩ := hadv.open_after
      rw [show E.progress = .live p from hlive] at hx
      cases hx
    · exact (hreported hacc).1.persists hp
  · intro j J r R e E a A hb hdec hcancel
    obtain hold | ⟨-, hrun⟩ | ⟨J₀, R₀, E₀, A₀, hb₀, ⟨hadv, hasked⟩ | ⟨o, hfin, hreported⟩⟩ :=
      hm.bundle_cases hc hb
    · exact (h.asked j J r R e E a A hold hdec hcancel).persists hp
    · rw [hrun] at hcancel
      cases hcancel
    · obtain hbefore | hnow := hasked hcancel
      · exact (h.asked j J₀ r R₀ e E₀ a A₀ hb₀ hadv.open_after.1 hbefore).persists hp
      · exact hnow.persists hp
    · obtain ⟨hbefore, hacc⟩ | hwithdrawn := hfin.decisions
      · refine (h.asked j J₀ r R₀ e E₀ a A₀ hb₀ ?_ ((hreported hacc).2 ▸ hcancel)).persists hp
        rw [show A₀.decision = .accepted from hbefore]
        simp
      · exact absurd hwithdrawn hdec
  · intro n X hX
    cases hm with
    | ask X₀ _ hpending =>
        obtain ⟨-, rfl⟩ | ⟨-, hold⟩ := update_cases hX
        · exact hpending
        · exact h.pending n X hold
    | _ => exact h.pending n X hX

theorem Moves.answered (hm : Moves M b b') (hc : Coupled b) (h : Answered b) : Answered b' := by
  induction hm with
  | refl => exact h
  | tail hfirst hlast ih => exact answered_move ih (Moves.coupled hfirst hc) hlast

end Moves

end Lifecycle
end JobmanControl
