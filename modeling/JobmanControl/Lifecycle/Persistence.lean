import JobmanControl.Lifecycle.Preservation

/-!
What no move takes back: a terminal job, run or execution keeps its row, a
request to cancel stays a request, events, edges and graphs stay recorded, and
dispatched work stays dispatched.
-/

namespace JobmanControl

variable {j : Id} {J' J : JobFacts} {b b' : Board} {p : Phases}

namespace Lifecycle

open Board Function

variable {M : Licence}

structure Persists (b b' : Board) : Prop where
  job : ∀ j J, b.job j = some J → ∃ J', b'.job j = some J' ∧ J'.namespaceId = J.namespaceId ∧
    J'.grouping.graphId = J.grouping.graphId ∧ DesireKept J.desiredState J'.desiredState
  job_collection : ∀ j J J', b.job j = some J → b'.job j = some J' →
    J'.grouping.collectionId = J.grouping.collectionId
  job_terminal : ∀ j J o, b.job j = some J → J.progress = .terminal o → b'.job j = some J
  job_waiting : ∀ j J J', b.job j = some J → b'.job j = some J' →
    J'.progress = .live .accepted → J' = J
  run : ∀ r R, b.run r = some R → ∃ R', b'.run r = some R' ∧ R'.jobId = R.jobId ∧
    DesireKept R.desiredState R'.desiredState
  run_terminal : ∀ r R o, b.run r = some R → R.progress = .terminal o → b'.run r = some R
  execution : ∀ e E, b.execution e = some E → ∃ E', b'.execution e = some E' ∧ E'.runId = E.runId
  execution_terminal : ∀ e E x, b.execution e = some E → E.progress = .terminal x →
    b'.execution e = some E
  event : ∀ v V, b.event v = some V → b'.event v = some V
  action : ∀ n X, b.action n = some X → b'.action n = some X
  edge : ∀ key edge, b.edge key = some edge → b'.edge key = some edge
  collection : ∀ c limit, b.collection c = some limit → b'.collection c = some limit
  graph : ∀ g policy, b.graph g = some policy → b'.graph g = some policy
  graphLimit : ∀ g limit, b.graphLimit g = some limit → b'.graphLimit g = some limit
  node : ∀ k member, b.node k = some member → b'.node k = some member

theorem DesireKept.refl (d : DesiredState) : DesireKept d d := fun h => h

theorem Persists.refl (b : Board) : Persists b b :=
  ⟨fun _ J h => ⟨J, h, rfl, rfl, .refl _⟩,
    fun _ _ _ h h' => by rw [Option.some.inj (h'.symm.trans h)], fun _ _ _ h _ => h,
    fun _ _ _ h h' _ => Option.some.inj (h'.symm.trans h), fun _ R h => ⟨R, h, rfl, .refl _⟩,
    fun _ _ _ h _ => h, fun _ E h => ⟨E, h, rfl⟩, fun _ _ _ h _ => h, fun _ _ h => h,
    fun _ _ h => h, fun _ _ h => h, fun _ _ h => h, fun _ _ h => h, fun _ _ h => h, fun _ _ h => h⟩

theorem Persists.trans {b₁ b₂ b₃ : Board} (h : Persists b₁ b₂) (h' : Persists b₂ b₃) :
    Persists b₁ b₃ := by
  refine ⟨?_, ?_, ?_, ?_, ?_, ?_, ?_, ?_, ?_, ?_, ?_, ?_, ?_, ?_, ?_⟩
  · intro j J hJ
    obtain ⟨J₂, hJ₂, hn₂, hg₂, hd₂⟩ := h.job j J hJ
    obtain ⟨J₃, hJ₃, hn₃, hg₃, hd₃⟩ := h'.job j J₂ hJ₂
    exact ⟨J₃, hJ₃, hn₃.trans hn₂, hg₃.trans hg₂, fun hc => hd₃ (hd₂ hc)⟩
  · intro j J J₃ hJ hJ₃
    obtain ⟨J₂, hJ₂, -⟩ := h.job j J hJ
    exact (h'.job_collection j J₂ J₃ hJ₂ hJ₃).trans (h.job_collection j J J₂ hJ hJ₂)
  · intro j J o hJ ho
    exact h'.job_terminal j J o (h.job_terminal j J o hJ ho) ho
  · intro j J J₃ hJ hJ₃ hacc
    obtain ⟨J₂, hJ₂, -⟩ := h.job j J hJ
    have hsame := h'.job_waiting j J₂ J₃ hJ₂ hJ₃ hacc
    subst hsame
    exact h.job_waiting j J J₃ hJ hJ₂ hacc
  · intro r R hR
    obtain ⟨R₂, hR₂, hj₂, hd₂⟩ := h.run r R hR
    obtain ⟨R₃, hR₃, hj₃, hd₃⟩ := h'.run r R₂ hR₂
    exact ⟨R₃, hR₃, hj₃.trans hj₂, fun hc => hd₃ (hd₂ hc)⟩
  · intro r R o hR ho
    exact h'.run_terminal r R o (h.run_terminal r R o hR ho) ho
  · intro e E hE
    obtain ⟨E₂, hE₂, hr₂⟩ := h.execution e E hE
    obtain ⟨E₃, hE₃, hr₃⟩ := h'.execution e E₂ hE₂
    exact ⟨E₃, hE₃, hr₃.trans hr₂⟩
  · intro e E x hE hx
    exact h'.execution_terminal e E x (h.execution_terminal e E x hE hx) hx
  · intro v V hv
    exact h'.event v V (h.event v V hv)
  · intro n X hn
    exact h'.action n X (h.action n X hn)
  · intro key edge he
    exact h'.edge key edge (h.edge key edge he)
  · intro c limit hlimit
    exact h'.collection c limit (h.collection c limit hlimit)
  · intro g policy hg
    exact h'.graph g policy (h.graph g policy hg)
  · intro g limit hlimit
    exact h'.graphLimit g limit (h.graphLimit g limit hlimit)
  · intro k member hk
    exact h'.node k member (h.node k member hk)

/-- A row is rewritten when it is the one at hand, and stays as it is otherwise. -/
theorem update_rewritten {α β : Type} [DecidableEq α] {f : α → Option β} {i k : α} {x y : β}
    (x' : β) (hi : f i = some x) (h : f k = some y) :
    y = x ∧ update f i (some x') k = some x' ∨ update f i (some x') k = some y := by
  by_cases hk : k = i
  · subst hk
    exact Or.inl ⟨Option.some.inj (h.symm.trans hi), update_self ..⟩
  · exact Or.inr ((update_of_ne hk ..).trans h)

theorem update_waiting {f : Id → Option JobFacts} (hleft : J'.progress ≠ .live .accepted) {k : Id}
    {K K' : JobFacts} (hK : f k = some K) (hK' : update f j (some J') k = some K')
    (hwait : K'.progress = .live .accepted) : K' = K := by
  obtain ⟨-, rfl⟩ | ⟨-, hold⟩ := update_cases hK'
  · exact absurd hwait hleft
  · exact Option.some.inj (hold.symm.trans hK)

theorem update_collection {f : Id → Option JobFacts} (hJ : f j = some J)
    (hsame : J'.grouping.collectionId = J.grouping.collectionId) {k : Id} {K K' : JobFacts}
    (hK : f k = some K) (hK' : update f j (some J') k = some K') :
    K'.grouping.collectionId = K.grouping.collectionId := by
  obtain ⟨rfl, rfl⟩ | ⟨-, hold⟩ := update_cases hK'
  · cases hJ.symm.trans hK
    exact hsame
  · cases hold.symm.trans hK
    rfl

theorem persists_putJob (hJ : b.job j = some J) (hacc : J.progress = .live .accepted)
    (hrun : J.desiredState = .run) (hns : J'.namespaceId = J.namespaceId)
    (hg : J'.grouping.graphId = J.grouping.graphId)
    (hcoll : J'.grouping.collectionId = J.grouping.collectionId)
    (hleft : J'.progress ≠ .live .accepted) : Persists b (b.putJob j J') := by
  refine { Persists.refl b with
    job := ?_, job_collection := fun k K K' => update_collection hJ hcoll,
    job_terminal := ?_, job_waiting := ?_ }
  · intro k K hK
    obtain ⟨rfl, hK'⟩ | hK' := update_rewritten J' hJ hK
    · refine ⟨J', hK', hns, hg, ?_⟩
      intro hc
      rw [hrun] at hc
      cases hc
    · exact ⟨K, hK', rfl, rfl, .refl _⟩
  · intro k K o hK ho
    obtain ⟨rfl, -⟩ | hK' := update_rewritten J' hJ hK
    · cases hacc.symm.trans ho
    · exact hK'
  · intro k K K' hK hK' hwait
    exact update_waiting hleft hK hK' hwait

theorem persists_putBundle {r e a : Id} {R R' : RunFacts} {E E' : ExecutionFacts}
    {A A' : AssignmentFacts} (hb : b.Bundle j J r R e E a A) (hs : SameWork J R E A J' R' E' A')
    (hJ : ∃ p, J.progress = .live p) (hR : ∃ p, R.progress = .live p)
    (hE : ∃ p, E.progress = .live p) (hleft : J'.progress ≠ .live .accepted) :
    Persists b (b.putBundle j J' r R' e E' a A') := by
  obtain ⟨pj, hJ⟩ := hJ
  obtain ⟨pr, hR⟩ := hR
  obtain ⟨pe, hE⟩ := hE
  refine { Persists.refl b with
    job := ?_, job_collection := fun k K K' => update_collection hb.job (by rw [hs.job_grouping]),
    job_terminal := ?_, job_waiting := ?_, run := ?_, run_terminal := ?_,
    execution := ?_, execution_terminal := ?_ }
  · intro k K hK
    obtain ⟨rfl, hK'⟩ | hK' := update_rewritten J' hb.job hK
    · exact ⟨J', hK', hs.job_namespace, by rw [hs.job_grouping], hs.job_desired⟩
    · exact ⟨K, hK', rfl, rfl, .refl _⟩
  · intro k K o hK ho
    obtain ⟨rfl, -⟩ | hK' := update_rewritten J' hb.job hK
    · cases hJ.symm.trans ho
    · exact hK'
  · intro k K K' hK hK' hwait
    exact update_waiting hleft hK hK' hwait
  · intro k K hK
    obtain ⟨rfl, hK'⟩ | hK' := update_rewritten R' hb.run hK
    · exact ⟨R', hK', hs.run_jobId, hs.run_desired⟩
    · exact ⟨K, hK', rfl, .refl _⟩
  · intro k K o hK ho
    obtain ⟨rfl, -⟩ | hK' := update_rewritten R' hb.run hK
    · cases hR.symm.trans ho
    · exact hK'
  · intro k K hK
    obtain ⟨rfl, hK'⟩ | hK' := update_rewritten E' hb.execution hK
    · exact ⟨E', hK', hs.execution_runId⟩
    · exact ⟨K, hK', rfl⟩
  · intro k K x hK hx
    obtain ⟨rfl, -⟩ | hK' := update_rewritten E' hb.execution hK
    · cases hE.symm.trans hx
    · exact hK'

/-- A notice is invisible to the rows. -/
theorem Persists.putNotice (h : Persists b b') (n : Id) (N : Notice) :
    Persists b (b'.putNotice n N) :=
  { h with }

theorem Engaged.live (h : Engaged p) :
    (∃ q, p.job = .live q) ∧ (∃ q, p.run = .live q) ∧ ∃ q, p.execution = .live q := by
  cases h <;> exact ⟨⟨_, rfl⟩, ⟨_, rfl⟩, _, rfl⟩

theorem Advance.live {q : Phases} (h : Advance p q) :
    (∃ q, p.job = .live q) ∧ (∃ q, p.run = .live q) ∧ ∃ q, p.execution = .live q := by
  cases h with
  | accept => exact ⟨⟨_, rfl⟩, ⟨_, rfl⟩, _, rfl⟩
  | start h | keep h => exact h.live

theorem Finish.live {q : Phases} {o : Outcome} (h : Finish p q o) :
    (∃ q, p.job = .live q) ∧ (∃ q, p.run = .live q) ∧ ∃ q, p.execution = .live q := by
  cases h with
  | complete _ _ h => exact h.live
  | withdraw => exact ⟨⟨_, rfl⟩, ⟨_, rfl⟩, _, rfl⟩

theorem persists_move (h : Coupled b) (hm : Move M b b') : Persists b b' := by
  cases hm with
  | @arrive j J _ hnone _ _ _ _ =>
      refine { Persists.refl b with
        job := ?_, job_collection := ?_, job_terminal := ?_, job_waiting := ?_ }
      · intro k K hK
        exact ⟨K, update_keeps hnone hK, rfl, rfl, .refl _⟩
      · intro k K K' hK hK'
        rw [Option.some.inj (hK'.symm.trans (update_keeps hnone hK))]
      · intro k K o hK _
        exact update_keeps hnone hK
      · intro k K K' hK hK' _
        exact Option.some.inj (hK'.symm.trans (update_keeps hnone hK))
  | configure _ _ => exact { Persists.refl b with }
  | publishCollection _ hnone =>
      exact { Persists.refl b with collection := fun c limit hlimit => update_keeps hnone hlimit }
  | publishGraph _ _ hnone hnone' =>
      exact { Persists.refl b with
        graph := fun g policy hg => update_keeps hnone hg
        graphLimit := fun g limit hlimit => update_keeps hnone' hlimit }
  | enrol _ hnone => exact { Persists.refl b with node := fun k member hk => update_keeps hnone hk }
  | link _ hnone _ _ _ _ _ _ _ _ =>
      exact { Persists.refl b with edge := fun key edge he => update_keeps hnone he }
  | settle hJ hacc hterm hns hg _ =>
      refine (persists_putJob hJ hacc (h.waiting _ _ hJ hacc) hns (by rw [hg]) (by rw [hg])
        ?_).putNotice _ _
      simp [hterm]
  | dispose hJ hacc hgroup _ _ _ _ hterm hns hg _ =>
      refine (persists_putJob hJ hacc (h.waiting _ _ hJ hacc) hns ?_ ?_ ?_).putNotice _ _
      · rw [hgroup, hg]
        rfl
      · rw [hgroup, hg]
        rfl
      · simp [hterm]
  | @dispatch j r e a J J' R E A _ hJ hacc hrun hr he _ _ hns hg _ _ _ _ _ hphases _ =>
      have hleft : J'.progress ≠ .live .accepted := by
        rw [show J'.progress = .live .assigning from congrArg Phases.job hphases]
        simp
      have hjob := persists_putJob hJ hacc hrun hns (congrArg Grouping.graphId hg)
        (congrArg Grouping.collectionId hg) hleft
      refine { Persists.refl b with
        job := hjob.job, job_collection := hjob.job_collection,
        job_terminal := hjob.job_terminal, job_waiting := hjob.job_waiting,
        run := ?_, run_terminal := ?_, execution := ?_, execution_terminal := ?_ }
      · intro k K hK
        exact ⟨K, update_keeps hr hK, rfl, .refl _⟩
      · intro k K o hK _
        exact update_keeps hr hK
      · intro k K hK
        exact ⟨K, update_keeps he hK, rfl⟩
      · intro k K x hK _
        exact update_keeps he hK
  | advance hb hs hadv _ =>
      obtain ⟨hJ, hR, hE⟩ := hadv.live
      exact persists_putBundle hb hs hJ hR hE hadv.stage.job_ne_accepted
  | finish hb hs hfin _ _ =>
      obtain ⟨hJ, hR, hE⟩ := hfin.live
      exact (persists_putBundle hb hs hJ hR hE hfin.stage.job_ne_accepted).putNotice _ _
  | record _ hv _ _ => exact { Persists.refl b with event := fun w x hw => update_keeps hv hw }
  | ask _ hn _ => exact { Persists.refl b with action := fun n X h => update_keeps hn h }

/-- Finitely many moves. -/
abbrev Moves (M : Licence) : Board → Board → Prop := Relation.ReflTransGen (Move M)

theorem Move.anything (hm : Move M b b') : Move .anything b b' := by
  cases hm with
  | arrive _ h₁ h₂ h₃ h₄ h₅ h₆ => exact .arrive rfl h₁ h₂ h₃ h₄ h₅ h₆
  | configure policy _ => exact .configure policy rfl
  | publishCollection limit h => exact .publishCollection limit h
  | publishGraph policy limit h h' => exact .publishGraph policy limit h h'
  | enrol member h => exact .enrol member h
  | link edge h₁ h₂ h₃ h₄ h₅ h₆ h₇ h₈ h₉ => exact .link edge h₁ h₂ h₃ h₄ h₅ h₆ h₇ h₈ h₉
  | settle h₁ h₂ h₃ h₄ h₅ h₆ => exact .settle h₁ h₂ h₃ h₄ h₅ h₆
  | dispose h₁ h₂ h₃ h₄ h₅ h₆ h₇ h₈ h₉ h₁₀ h₁₁ => exact .dispose h₁ h₂ h₃ h₄ h₅ h₆ h₇ h₈ h₉ h₁₀ h₁₁
  | dispatch _ h₁ h₂ h₃ h₄ h₅ h₆ h₇ h₈ h₉ h₁₀ h₁₁ h₁₂ h₁₃ h₁₄ h₁₅ h₁₆ =>
      exact .dispatch rfl h₁ h₂ h₃ h₄ h₅ h₆ h₇ h₈ h₉ h₁₀ h₁₁ h₁₂ h₁₃ h₁₄ h₁₅ h₁₆
  | advance h₁ h₂ h₃ h₄ => exact .advance h₁ h₂ h₃ h₄
  | finish h₁ h₂ h₃ h₄ h₅ => exact .finish h₁ h₂ h₃ h₄ h₅
  | record V h₁ h₂ h₃ => exact .record V h₁ h₂ h₃
  | ask X h₁ h₂ => exact .ask X h₁ h₂

theorem Moves.anything (hm : Moves M b b') : Moves .anything b b' := by
  induction hm with
  | refl => exact .refl
  | tail _ hlast ih => exact .tail ih hlast.anything

theorem Moves.coupled (hm : Moves M b b') (h : Coupled b) : Coupled b' := by
  induction hm with
  | refl => exact h
  | tail _ hlast ih => exact coupled_move ih hlast

theorem Moves.persists (hm : Moves M b b') (h : Coupled b) : Persists b b' := by
  induction hm with
  | refl => exact .refl b
  | tail hfirst hlast ih => exact ih.trans (persists_move (Moves.coupled hfirst h) hlast)

end Lifecycle
end JobmanControl
