import JobmanControl.Lifecycle.Licences

/-!
What is announced about finished jobs. Whatever moves a transaction makes, a job
that becomes terminal is announced once, with the outcome and the revision it then
has, and nothing else is announced.
-/

namespace JobmanControl
namespace Lifecycle

open Board Function

variable {M : Licence} {b b' b'' : Board}

/-- The notices that were added are those of the jobs that became terminal. -/
structure Announces (b b' : Board) : Prop where
  kept : ∀ n N, b.notice n = some N → b'.notice n = some N
  terminal : ∀ j J o, b.job j = some J → J.progress = .terminal o → b'.job j = some J
  sound : ∀ n N, b.notice n = none → b'.notice n = some N →
    (∃ J, b'.job N.jobId = some J ∧ J.progress = .terminal N.outcome ∧ J.revision = N.revision) ∧
      ∀ J o, b.job N.jobId = some J → J.progress ≠ .terminal o
  complete : ∀ j J o, b'.job j = some J → J.progress = .terminal o →
    b.job j = some J ∨ ∃ n, b.notice n = none ∧ b'.notice n = some ⟨j, o, J.revision⟩
  once : ∀ n n' N N', b.notice n = none → b.notice n' = none → b'.notice n = some N →
    b'.notice n' = some N' → N.jobId = N'.jobId → n = n'

theorem Announces.refl (b : Board) : Announces b b where
  kept _ _ h := h
  terminal _ _ _ h _ := h
  sound _ _ hnone hsome := by cases hnone.symm.trans hsome
  complete _ _ _ h _ := Or.inl h
  once _ _ _ _ hnone _ hsome _ _ := by cases hnone.symm.trans hsome

theorem Announces.notice_cases (h : Announces b' b'') {n : Id} {N : Notice}
    (hsome : b''.notice n = some N) : b'.notice n = none ∨ b'.notice n = some N := by
  cases hmid : b'.notice n with
  | none => exact Or.inl rfl
  | some N' => exact Or.inr ((h.kept n N' hmid).symm.trans hsome)

theorem Announces.trans (h : Announces b b') (h' : Announces b' b'') : Announces b b'' := by
  have hlive : ∀ j J o, b.job j = some J → J.progress = .terminal o →
      ¬∀ J o, b'.job j = some J → J.progress ≠ .terminal o :=
    fun j J o hJ ho hnot => hnot J o (h.terminal j J o hJ ho) ho
  refine ⟨?_, ?_, ?_, ?_, ?_⟩
  · exact fun n N hN => h'.kept n N (h.kept n N hN)
  · exact fun j J o hJ ho => h'.terminal j J o (h.terminal j J o hJ ho) ho
  · intro n N hnone hsome
    obtain hmid | hmid := h'.notice_cases hsome
    · obtain ⟨hterminal, hnot⟩ := h'.sound n N hmid hsome
      exact ⟨hterminal, fun J o hJ ho => hlive _ J o hJ ho hnot⟩
    · obtain ⟨⟨J, hJ, ho, hrevision⟩, hnot⟩ := h.sound n N hnone hmid
      exact ⟨⟨J, h'.terminal _ J _ hJ ho, ho, hrevision⟩, hnot⟩
  · intro j J o hJ ho
    obtain hmid | ⟨n, hfree, hnew⟩ := h'.complete j J o hJ ho
    · obtain hold | ⟨n, hfree, hnew⟩ := h.complete j J o hmid ho
      · exact Or.inl hold
      · exact Or.inr ⟨n, hfree, h'.kept n _ hnew⟩
    · refine Or.inr ⟨n, ?_, hnew⟩
      cases hn : b.notice n with
      | none => rfl
      | some N => cases hfree.symm.trans (h.kept n N hn)
  · intro n n' N N' hnone hnone' hsome hsome' hjob
    obtain hmid | hmid := h'.notice_cases hsome <;>
      obtain hmid' | hmid' := h'.notice_cases hsome'
    · exact h'.once n n' N N' hmid hmid' hsome hsome' hjob
    · -- The job of the earlier notice was terminal before the later one was written.
      obtain ⟨⟨J, hJ, ho, -⟩, -⟩ := h.sound n' N' hnone' hmid'
      exact absurd ho ((h'.sound n N hmid hsome).2 J _ (hjob ▸ hJ))
    · obtain ⟨⟨J, hJ, ho, -⟩, -⟩ := h.sound n N hnone hmid
      exact absurd ho ((h'.sound n' N' hmid' hsome').2 J _ (hjob ▸ hJ))
    · exact h.once n n' N N' hnone hnone' hmid hmid' hjob

theorem announces_quiet (hp : Persists b b') (hnotice : b'.notice = b.notice)
    (hjob : ∀ j J o, b'.job j = some J → J.progress = .terminal o → b.job j = some J) :
    Announces b b' := by
  refine ⟨?_, hp.job_terminal, ?_, fun j J o hJ ho => Or.inl (hjob j J o hJ ho), ?_⟩
  · intro n N hN
    rw [hnotice]
    exact hN
  · intro n N hnone hsome
    rw [hnotice, hnone] at hsome
    cases hsome
  · intro n n' N N' hnone _ hsome
    rw [hnotice, hnone] at hsome
    cases hsome

theorem announces_finish (hp : Persists b b') {j n : Id} {J J' : JobFacts} {p : JobPhase}
    {o : Outcome} (hJ : b.job j = some J) (hlive : J.progress = .live p)
    (ho : J'.progress = .terminal o) (hjob : b'.job = update b.job j (some J'))
    (hfree : b.notice n = none)
    (hnotice : b'.notice = update b.notice n (some ⟨j, o, J'.revision⟩)) :
    Announces b b' := by
  have hnew : ∀ n' N, b.notice n' = none → b'.notice n' = some N →
      n' = n ∧ N = ⟨j, o, J'.revision⟩ := by
    intro n' N hnone hsome
    rw [hnotice] at hsome
    obtain hnew | ⟨-, hold⟩ := update_cases hsome
    · exact hnew
    · cases hnone.symm.trans hold
  refine ⟨?_, hp.job_terminal, ?_, ?_, ?_⟩
  · intro n' N hN
    rw [hnotice]
    exact update_keeps hfree hN
  · intro n' N hnone hsome
    obtain ⟨rfl, rfl⟩ := hnew n' N hnone hsome
    refine ⟨⟨J', by rw [hjob, update_self], ho, rfl⟩, ?_⟩
    intro K o' hK hterminal
    cases hJ.symm.trans hK
    cases hlive.symm.trans hterminal
  · intro k K o' hK hterminal
    rw [hjob] at hK
    obtain ⟨rfl, rfl⟩ | ⟨-, hold⟩ := update_cases hK
    · cases ho.symm.trans hterminal
      exact Or.inr ⟨n, hfree, by rw [hnotice, update_self]⟩
    · exact Or.inl hold
  · intro n₁ n₂ N₁ N₂ hnone₁ hnone₂ hsome₁ hsome₂ _
    exact (hnew n₁ N₁ hnone₁ hsome₁).1.trans (hnew n₂ N₂ hnone₂ hsome₂).1.symm

theorem terminal_of_update {job : Id → Option JobFacts} {j k : Id} {J' K : JobFacts}
    {p : JobPhase} {o : Outcome} (hlive : J'.progress = .live p)
    (hK : update job j (some J') k = some K) (ho : K.progress = .terminal o) :
    job k = some K := by
  obtain ⟨-, rfl⟩ | ⟨-, hold⟩ := update_cases hK
  · cases hlive.symm.trans ho
  · exact hold

theorem Advance.job_live {p q : Phases} (h : Advance p q) : ∃ phase, q.job = .live phase := by
  cases h with
  | accept | start => exact ⟨_, rfl⟩
  | keep h => exact h.live.1

theorem announces_move (hc : Coupled b) (hm : Move M b b') : Announces b b' := by
  have hp := persists_move hc hm
  cases hm with
  | arrive _ _ hlive =>
      exact announces_quiet hp rfl fun _ _ _ hJ ho => terminal_of_update hlive hJ ho
  | configure | publishCollection | publishGraph | enrol | link | record | ask =>
      exact announces_quiet hp rfl fun _ _ _ hJ _ => hJ
  | settle hJ hlive ho _ _ hfree => exact announces_finish hp hJ hlive ho rfl hfree rfl
  | dispose hJ hlive _ _ _ _ _ ho _ _ hfree => exact announces_finish hp hJ hlive ho rfl hfree rfl
  | dispatch _ _ _ _ _ _ _ _ _ _ _ _ _ _ _ hphases =>
      exact announces_quiet hp rfl fun _ _ _ hJ ho =>
        terminal_of_update (congrArg Phases.job hphases) hJ ho
  | advance _ _ hadvance =>
      obtain ⟨p, hlive⟩ := hadvance.job_live
      exact announces_quiet hp rfl fun _ _ _ hJ ho => terminal_of_update hlive hJ ho
  | finish hb _ hfinish hfree =>
      obtain ⟨p, hlive⟩ := hfinish.live.1
      exact announces_finish hp hb.job hlive hfinish.job_terminal rfl hfree rfl

theorem Moves.announces (hm : Moves M b b') (hc : Coupled b) : Announces b b' := by
  induction hm with
  | refl => exact .refl b
  | tail hfirst hlast ih => exact ih.trans (announces_move (Moves.coupled hfirst hc) hlast)

end Lifecycle
end JobmanControl
