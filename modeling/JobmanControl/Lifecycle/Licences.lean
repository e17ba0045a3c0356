import JobmanControl.Lifecycle.Coherence

/-!
What a transaction without a licence leaves alone. Without submissions no job
appears, without dispatches no job becomes active, and without administration the
policies stay; so the counts the limits are about do not grow.
-/

namespace JobmanControl

variable {j : Id} {p : Phases} {J' : JobFacts}

namespace Lifecycle

open Board

variable {M : Licence} {b b' : Board}

/-- The job is with an agent or on its way there. -/
def JobFacts.Active (J : JobFacts) : Prop := ∃ phase, J.progress = .live phase ∧ phase ≠ .accepted

theorem Move.job_known (hM : M.submits = false) (hm : Move M b b') (h : b'.job j ≠ none) :
    b.job j ≠ none := by
  have hput : ∀ {k : Id} {K K' : JobFacts}, b.job k = some K →
      Function.update b.job k (some K') j ≠ none → b.job j ≠ none := by
    intro k K K' hK hj
    by_cases hk : j = k
    · rw [hk, hK]
      simp
    · rwa [Function.update_of_ne hk] at hj
  cases hm with
  | arrive hsubmits => rw [hM] at hsubmits; cases hsubmits
  | configure | publishCollection | publishGraph | enrol | link | record | ask => exact h
  | settle hJ => exact hput hJ h
  | dispose hJ => exact hput hJ h
  | dispatch _ hJ => exact hput hJ h
  | advance hb => exact hput hb.job h
  | finish hb => exact hput hb.job h

theorem Moves.job_known (hM : M.submits = false) (hm : Moves M b b') (h : b'.job j ≠ none) :
    b.job j ≠ none := by
  induction hm with
  | refl => exact h
  | tail _ hlast ih => exact ih (hlast.job_known hM h)

theorem Move.policy_eq (hM : M.configures = false) (hm : Move M b b') : b'.policy = b.policy := by
  cases hm with
  | configure _ hconfigures => rw [hM] at hconfigures; cases hconfigures
  | _ => rfl

theorem Moves.policy_eq (hM : M.configures = false) (hm : Moves M b b') :
    b'.policy = b.policy := by
  induction hm with
  | refl => rfl
  | tail _ hlast ih => exact (hlast.policy_eq hM).trans ih

theorem Engaged.active (h : Engaged p) : ∃ phase, p.job = .live phase ∧ phase ≠ .accepted := by
  cases h with
  | accepted => exact ⟨_, rfl, by decide⟩
  | running => exact ⟨_, rfl, by decide⟩

theorem Advance.active_before {q : Phases} (h : Advance p q) :
    ∃ phase, p.job = .live phase ∧ phase ≠ .accepted := by
  cases h with
  | accept => exact ⟨_, rfl, by decide⟩
  | start h | keep h => exact h.active

theorem Finish.job_terminal {q : Phases} {o : Outcome} (h : Finish p q o) :
    q.job = .terminal o := by
  cases h with
  | complete | withdraw => rfl

/-- Only a dispatch makes a job active. -/
theorem Move.active_before (hM : M.dispatches = false) (hm : Move M b b') (hJ' : b'.job j = some J')
    (hactive : J'.Active) : ∃ J, b.job j = some J ∧ J.Active := by
  have hput : ∀ {k : Id} {K' : JobFacts}, Function.update b.job k (some K') j = some J' →
      (K'.Active → ∃ J, b.job k = some J ∧ J.Active) → ∃ J, b.job j = some J ∧ J.Active := by
    intro k K' hj hK
    obtain ⟨rfl, rfl⟩ | ⟨-, hold⟩ := update_cases hj
    · exact hK hactive
    · exact ⟨J', hold, hactive⟩
  cases hm with
  | arrive _ _ hacc =>
      refine hput hJ' ?_
      rintro ⟨phase, hp, hne⟩
      rw [hacc] at hp
      cases hp
      exact absurd rfl hne
  | configure | publishCollection | publishGraph | enrol | link | record | ask =>
      exact ⟨J', hJ', hactive⟩
  | settle _ _ hterminal =>
      refine hput hJ' ?_
      rintro ⟨phase, hp, -⟩
      rw [hterminal] at hp
      cases hp
  | dispose _ _ _ _ _ _ _ hterminal =>
      refine hput hJ' ?_
      rintro ⟨phase, hp, -⟩
      rw [hterminal] at hp
      cases hp
  | dispatch hdispatches => rw [hM] at hdispatches; cases hdispatches
  | advance hb _ hadvance => exact hput hJ' fun _ => ⟨_, hb.job, hadvance.active_before⟩
  | finish hb _ hfinish =>
      refine hput hJ' ?_
      rintro ⟨phase, hp, -⟩
      cases hp.symm.trans hfinish.job_terminal

theorem Moves.active_before (hM : M.dispatches = false) (hm : Moves M b b')
    (hJ' : b'.job j = some J') (hactive : J'.Active) : ∃ J, b.job j = some J ∧ J.Active := by
  induction hm generalizing J' with
  | refl => exact ⟨J', hJ', hactive⟩
  | tail _ hlast ih =>
      obtain ⟨J, hJ, hJactive⟩ := hlast.active_before hM hJ' hactive
      exact ih hJ hJactive

/-- Without submissions, the unfinished jobs were unfinished before. -/
theorem Moves.live_before (hM : M.submits = false) (hm : Moves M b b') (hc : Coupled b)
    {phase : JobPhase} (hJ' : b'.job j = some J') (hlive : J'.progress = .live phase) :
    ∃ J phase, b.job j = some J ∧ J.progress = .live phase ∧ J.namespaceId = J'.namespaceId := by
  obtain ⟨J, hJ⟩ := Option.ne_none_iff_exists'.mp (hm.job_known hM (by rw [hJ']; simp))
  have hp := hm.persists hc
  obtain ⟨J'', hJ'', hns, -⟩ := hp.job j J hJ
  cases hJ'.symm.trans hJ''
  cases hprogress : J.progress with
  | live phase => exact ⟨J, phase, hJ, hprogress, hns.symm⟩
  | terminal o =>
      cases hJ'.symm.trans (hp.job_terminal j J o hJ hprogress)
      cases hprogress.symm.trans hlive

end Lifecycle

end JobmanControl
