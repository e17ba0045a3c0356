import JobmanControl.Lifecycle.Persistence

/-!
The dependency graphs on the board. Every edge joins two nodes of a published
graph; a dispatched node has its incoming edges satisfied for good; a node that
carries a disposition was never dispatched and has an edge that refused it.
-/

namespace JobmanControl

variable {j g : Id} {J J' : JobFacts} {key : EdgeKey} {edge : EdgeRow} {locked : Id → Bool}
  {M : Licence} {b b' : Board}

namespace Lifecycle

open Board

theorem update_present {α β : Type} [DecidableEq α] {f : α → Option β} {i : α} {x x' : β}
    (hi : f i = some x) {k : α} {y : β} (h : Function.update f i (some x') k = some y) :
    ∃ y₀, f k = some y₀ := by
  obtain ⟨rfl, -⟩ | ⟨-, hk⟩ := update_cases h
  · exact ⟨x, hi⟩
  · exact ⟨y, hk⟩

theorem Move.new_job (hm : Move M b b') (hJ : b'.job j = some J) (hnone : b.job j = none) :
    J.progress = .live .accepted ∧ J.grouping.graphDisposition = none ∧
      (∀ g, J.grouping.graphId = some g → ∃ policy, b.graph g = some policy) ∧
      ∀ c, J.grouping.collectionId = some c → ∃ limit, b.collection c = some limit := by
  have habsent : ¬∃ J₀, b.job j = some J₀ := by
    rintro ⟨J₀, hJ₀⟩
    rw [hnone] at hJ₀
    cases hJ₀
  cases hm with
  | @arrive i I _ _ hacc _ hdisp hpub hhouse =>
      obtain ⟨-, rfl⟩ | ⟨-, hold⟩ := update_cases hJ
      · exact ⟨hacc, hdisp, hpub, hhouse⟩
      · exact absurd ⟨J, hold⟩ habsent
  | configure | publishCollection | publishGraph | enrol | link | record | ask =>
      exact absurd ⟨J, hJ⟩ habsent
  | settle hI | dispose hI | dispatch _ hI => exact absurd (update_present hI hJ) habsent
  | advance hb | finish hb => exact absurd (update_present hb.job hJ) habsent

theorem Move.new_edge (hm : Move M b b') (he : b'.edge key = some edge)
    (hnone : b.edge key = none) :
    (b'.Enrolled key.graphId key.upstreamJobId ∧ b'.Enrolled key.graphId key.downstreamJobId) ∧
    (∃ U, b'.job key.upstreamJobId = some U ∧ U.progress = .live .accepted ∧
        U.grouping.graphId = some key.graphId) ∧
      ∃ D, b'.job key.downstreamJobId = some D ∧ D.progress = .live .accepted ∧
        D.grouping.graphId = some key.graphId := by
  cases hm with
  | @link key' _ U D _ hup hdown hU hUacc hUg hD hDacc hDg =>
      obtain ⟨rfl, -⟩ | ⟨-, hold⟩ := update_cases he
      · exact ⟨⟨hup, hdown⟩, ⟨U, hU, hUacc, hUg⟩, D, hD, hDacc, hDg⟩
      · rw [hnone] at hold
        cases hold
  | _ =>
      rw [show b.edge key = some edge from he] at hnone
      cases hnone

theorem Move.new_run (hm : Move M b b') {r : Id} {R : RunFacts} (hR : b'.run r = some R)
    (hnone : b.run r = none) :
    ∃ J, b.job R.jobId = some J ∧ J.progress = .live .accepted ∧
      (J.grouping.graphId ≠ none → ∀ key edge, b'.edge key = some edge →
        key.downstreamJobId = R.jobId → b.Satisfied key edge) := by
  have habsent : ¬∃ R₀, b.run r = some R₀ := by
    rintro ⟨R₀, hR₀⟩
    rw [hnone] at hR₀
    cases hR₀
  cases hm with
  | @dispatch j r' e a J J' R' E A _ hJ hacc _ _ _ _ hready _ _ _ hRj =>
      obtain ⟨-, rfl⟩ | ⟨-, hold⟩ := update_cases hR
      · rw [hRj]
        exact ⟨J, hJ, hacc, hready⟩
      · exact absurd ⟨R, hold⟩ habsent
  | advance hb | finish hb => exact absurd (update_present hb.run hR) habsent
  | _ => exact absurd ⟨R, hR⟩ habsent

theorem Move.new_disposition (hm : Move M b b') {i : Id} {d : GraphDisposition}
    (hJ : b.job j = some J) (hJ' : b'.job j = some J') (hd : J'.grouping = .graph g i (some d))
    (hold : J.grouping ≠ J'.grouping) :
    J.progress = .live .accepted ∧ b'.run = b.run ∧
      (∃ key edge, b.edge key = some edge ∧ key.downstreamJobId = j ∧ b.Refuted key edge) ∧
      ∃ policy, b.graph g = some policy ∧ d = (unsatisfiedDisposition policy).1 ∧
        J'.progress = .terminal (unsatisfiedDisposition policy).2.1 := by
  have hkept : b'.job j ≠ b.job j := by
    intro hsame
    rw [hJ, hJ'] at hsame
    cases hsame
    exact hold rfl
  cases hm with
  | arrive _ hnone =>
      refine absurd (Function.update_of_ne ?_ _ _) hkept
      rintro rfl
      rw [hJ] at hnone
      cases hnone
  | configure | publishCollection | publishGraph | enrol | link | record | ask =>
      exact absurd rfl hkept
  | @settle k _ K K' _ hK _ _ _ hgroup =>
      obtain ⟨rfl, rfl⟩ | ⟨-, hsame⟩ := update_cases hJ'
      · cases hJ.symm.trans hK
        exact absurd hgroup.symm hold
      · exact absurd (hJ'.trans hsame.symm) hkept
  | @dispose k _ g' i' _ K K' policy key edge hK hacc _ hpolicy hedge hdown href hterm _ hgroup =>
      obtain ⟨rfl, rfl⟩ | ⟨-, hsame⟩ := update_cases hJ'
      · cases hJ.symm.trans hK
        rw [hgroup] at hd
        cases hd
        exact ⟨hacc, rfl, ⟨key, edge, hedge, hdown, href⟩, policy, hpolicy, rfl, hterm⟩
      · exact absurd (hJ'.trans hsame.symm) hkept
  | dispatch _ hK _ _ _ _ _ _ _ hgroup =>
      obtain ⟨rfl, rfl⟩ | ⟨-, hsame⟩ := update_cases hJ'
      · cases hJ.symm.trans hK
        exact absurd hgroup.symm hold
      · exact absurd (hJ'.trans hsame.symm) hkept
  | advance hb hs | finish hb hs =>
      obtain ⟨rfl, rfl⟩ | ⟨-, hsame⟩ := update_cases hJ'
      · cases hJ.symm.trans hb.job
        exact absurd hs.job_grouping.symm hold
      · exact absurd (hJ'.trans hsame.symm) hkept

theorem Board.Satisfied.persists (h : b.Satisfied key edge) (hp : Persists b b') :
    b'.Satisfied key edge := by
  obtain ⟨U, o, hU, ho, hacc⟩ := h
  exact ⟨U, o, hp.job_terminal _ U o hU ho, ho, hacc⟩

theorem Board.Refuted.persists (h : b.Refuted key edge) (hp : Persists b b') :
    b'.Refuted key edge := by
  obtain ⟨U, o, hU, ho, hacc⟩ := h
  exact ⟨U, o, hp.job_terminal _ U o hU ho, ho, hacc⟩

theorem Board.Enrolled.persists (h : b.Enrolled g j) (hp : Persists b b') : b'.Enrolled g j := by
  obtain ⟨index, name, hk⟩ := h
  exact ⟨index, name, hp.node _ _ hk⟩

/-- Every edge joins two listed nodes of its graph, and the group of every member is
published. -/
structure Wired (b : Board) : Prop where
  enrolled : ∀ key edge, b.edge key = some edge →
    b.Enrolled key.graphId key.upstreamJobId ∧ b.Enrolled key.graphId key.downstreamJobId
  published : ∀ j J g, b.job j = some J → J.grouping.graphId = some g →
    ∃ policy, b.graph g = some policy
  housed : ∀ j J c, b.job j = some J → J.grouping.collectionId = some c →
    ∃ limit, b.collection c = some limit
  upstream : ∀ key edge, b.edge key = some edge →
    ∃ U, b.job key.upstreamJobId = some U ∧ U.grouping.graphId = some key.graphId
  downstream : ∀ key edge, b.edge key = some edge →
    ∃ D, b.job key.downstreamJobId = some D ∧ D.grouping.graphId = some key.graphId

theorem wired_move (h : Wired b) (hc : Coupled b) (hm : Move M b b') : Wired b' := by
  have hp := persists_move hc hm
  refine ⟨?_, ?_, ?_, ?_, ?_⟩
  · intro key edge he
    cases hk : b.edge key with
    | none => exact (hm.new_edge he hk).1
    | some edge₀ =>
        obtain ⟨hup, hdown⟩ := h.enrolled key edge₀ hk
        exact ⟨hup.persists hp, hdown.persists hp⟩
  · intro j J g hJ hg
    have hpub : ∃ policy, b.graph g = some policy := by
      cases hj : b.job j with
      | none => exact (hm.new_job hJ hj).2.2.1 g hg
      | some J₀ =>
          obtain ⟨J', hJ', -, hsame, -⟩ := hp.job j J₀ hj
          cases hJ.symm.trans hJ'
          exact h.published j J₀ g hj (hsame.symm.trans hg)
    obtain ⟨policy, hpolicy⟩ := hpub
    exact ⟨policy, hp.graph g policy hpolicy⟩
  · intro j J c hJ hcoll
    have hpub : ∃ limit, b.collection c = some limit := by
      cases hj : b.job j with
      | none => exact (hm.new_job hJ hj).2.2.2 c hcoll
      | some J₀ => exact h.housed j J₀ c hj ((hp.job_collection j J₀ J hj hJ).symm.trans hcoll)
    obtain ⟨limit, hlimit⟩ := hpub
    exact ⟨limit, hp.collection c limit hlimit⟩
  · intro key edge he
    cases hk : b.edge key with
    | none =>
        obtain ⟨-, ⟨U, hU, -, hg⟩, -⟩ := hm.new_edge he hk
        exact ⟨U, hU, hg⟩
    | some edge₀ =>
        obtain ⟨U, hU, hg⟩ := h.upstream key edge₀ hk
        obtain ⟨U', hU', -, hsame, -⟩ := hp.job _ U hU
        exact ⟨U', hU', hsame.trans hg⟩
  · intro key edge he
    cases hk : b.edge key with
    | none =>
        obtain ⟨-, -, D, hD, -, hg⟩ := hm.new_edge he hk
        exact ⟨D, hD, hg⟩
    | some edge₀ =>
        obtain ⟨D, hD, hg⟩ := h.downstream key edge₀ hk
        obtain ⟨D', hD', -, hsame, -⟩ := hp.job _ D hD
        exact ⟨D', hD', hsame.trans hg⟩

/-- What dependencies guarantee: a dispatched node has every incoming edge satisfied,
and a node with a disposition was refused by an edge and never dispatched. -/
structure Governed (b : Board) : Prop where
  dispatched : ∀ r R key edge, b.run r = some R → b.edge key = some edge →
    key.downstreamJobId = R.jobId → b.Satisfied key edge
  disposed : ∀ j J g i d, b.job j = some J → J.grouping = .graph g i (some d) →
    b.Idle j ∧
      (∃ key edge, b.edge key = some edge ∧ key.downstreamJobId = j ∧ b.Refuted key edge) ∧
      ∃ policy, b.graph g = some policy ∧ d = (unsatisfiedDisposition policy).1 ∧
        J.progress = .terminal (unsatisfiedDisposition policy).2.1

theorem idle_move (hc : Coupled b) (hm : Move M b b') {o : Outcome} (hJ : b.job j = some J)
    (ho : J.progress = .terminal o) (hidle : b.Idle j) : b'.Idle j := by
  intro r R hR hRj
  cases hr : b.run r with
  | none =>
      obtain ⟨J₁, hJ₁, hacc, -⟩ := hm.new_run hR hr
      rw [hRj] at hJ₁
      cases hJ.symm.trans hJ₁
      rw [ho] at hacc
      cases hacc
  | some R₀ =>
      obtain ⟨R', hR', hsame, -⟩ := (persists_move hc hm).run r R₀ hr
      cases hR.symm.trans hR'
      exact hidle r R₀ hr (hsame.symm.trans hRj)

theorem governed_move (h : Governed b) (hw : Wired b) (hc : Coupled b) (hm : Move M b b') :
    Governed b' := by
  have hp := persists_move hc hm
  refine ⟨?_, ?_⟩
  · intro r R key edge hR he hdown
    cases hk : b.edge key with
    | none =>
        -- A new edge ends at a waiting node, and a waiting node has no run.
        obtain ⟨-, -, D, hD, hacc, -⟩ := hm.new_edge he hk
        exact absurd hdown.symm ((coupled_move hc hm).idle_of_accepted hD hacc r R hR)
    | some edge₀ =>
        have hsame := (hp.edge key edge₀ hk).symm.trans he
        cases hsame
        cases hr : b.run r with
        | none =>
            obtain ⟨J, hJ, -, hready⟩ := hm.new_run hR hr
            obtain ⟨D, hD, hg⟩ := hw.downstream key edge hk
            rw [hdown] at hD
            cases hJ.symm.trans hD
            exact (hready (by rw [hg]; simp) key edge he hdown).persists hp
        | some R₀ =>
            obtain ⟨R', hR', hjob, -⟩ := hp.run r R₀ hr
            cases hR.symm.trans hR'
            exact (h.dispatched r R₀ key edge hr hk (hdown.trans hjob)).persists hp
  · intro j J g i d hJ hd
    cases hj : b.job j with
    | none =>
        have hdisp := (hm.new_job hJ hj).2.1
        rw [hd] at hdisp
        cases hdisp
    | some J₀ =>
        by_cases hold : J₀.grouping = J.grouping
        · obtain ⟨hidle, ⟨key, edge, he, hdown, href⟩, policy, hpolicy, hdp, ho⟩ :=
            h.disposed j J₀ g i d hj (hold.trans hd)
          cases hJ.symm.trans (hp.job_terminal j J₀ _ hj ho)
          exact ⟨idle_move hc hm hj ho hidle,
            ⟨key, edge, hp.edge key edge he, hdown, href.persists hp⟩,
            policy, hp.graph g policy hpolicy, hdp, ho⟩
        · obtain ⟨hacc, hruns, ⟨key, edge, he, hdown, href⟩, policy, hpolicy, hdp, ho⟩ :=
            hm.new_disposition hj hJ hd hold
          refine ⟨?_, ⟨key, edge, hp.edge key edge he, hdown, href.persists hp⟩,
            policy, hp.graph g policy hpolicy, hdp, ho⟩
          intro r R hR
          rw [hruns] at hR
          exact hc.idle_of_accepted hj hacc r R hR

/-- No node of the graph finishes on the way from one board to the other. -/
def Spares (g : Id) (b b' : Board) : Prop :=
  ∀ j J o, b'.job j = some J → J.grouping.graphId = some g → J.progress = .terminal o →
    b.job j = some J

theorem stuck_move (hw : Wired b) (hc : Coupled b) (hm : Move M b b') (hs : Spares g b b')
    (hJ' : b'.job j = some J') (hg : J'.grouping.graphId = some g) (hstuck : b'.Stuck j) :
    b.job j = some J' ∧ b.Stuck j := by
  have hp := persists_move hc hm
  have hw' := wired_move hw hc hm
  obtain ⟨⟨J₁, hJ₁, hacc⟩, hfin, key, edge, he, hdown, U, o, hU, ho, hno⟩ := hstuck
  cases hJ₁.symm.trans hJ'
  have hgraph : ∀ key' edge', b'.edge key' = some edge' → key'.downstreamJobId = j →
      key'.graphId = g := by
    intro key' edge' he' hdown'
    obtain ⟨D, hD, hDg⟩ := hw'.downstream key' edge' he'
    rw [hdown', hJ'] at hD
    cases hD
    exact Option.some.inj (hDg.symm.trans hg)
  have hback : ∀ key' edge' V p, b'.edge key' = some edge' → key'.downstreamJobId = j →
      b'.job key'.upstreamJobId = some V → V.progress = .terminal p →
      b.job key'.upstreamJobId = some V := by
    intro key' edge' V p he' hdown' hV hVp
    obtain ⟨V', hV', hVg⟩ := hw'.upstream key' edge' he'
    cases hV.symm.trans hV'
    exact hs _ V p hV (by rw [hVg, hgraph key' edge' he' hdown']) hVp
  cases hk : b.edge key with
  | none =>
      obtain ⟨-, ⟨V, hV, hVacc, -⟩, -⟩ := hm.new_edge he hk
      cases hV.symm.trans hU
      rw [ho] at hVacc
      cases hVacc
  | some edge₀ =>
      cases (hp.edge key edge₀ hk).symm.trans he
      obtain ⟨D, hD, hDg⟩ := hw.downstream key edge hk
      rw [hdown] at hD
      have hsame := hp.job_waiting j D J' hD hJ' hacc
      subst hsame
      refine ⟨hD, ⟨J', hD, hacc⟩, ?_, key, edge, hk, hdown, U, o,
        hback key edge U o he hdown hU ho, ho, hno⟩
      intro key' edge' V hedge' hdown' hV
      have he' := hp.edge key' edge' hedge'
      obtain ⟨V', hV', -⟩ := hp.job _ V hV
      obtain ⟨p, hVp⟩ := hfin key' edge' V' he' hdown' hV'
      have hVb := hback key' edge' V' p he' hdown' hV' hVp
      cases hV.symm.trans hVb
      exact ⟨p, hVp⟩

theorem Moves.wired (hm : Moves M b b') (hc : Coupled b) (h : Wired b) : Wired b' := by
  induction hm with
  | refl => exact h
  | tail hfirst hlast ih => exact wired_move ih (Moves.coupled hfirst hc) hlast

theorem Moves.governed (hm : Moves M b b') (hc : Coupled b) (hw : Wired b) (h : Governed b) :
    Governed b' := by
  induction hm with
  | refl => exact h
  | tail hfirst hlast ih =>
      exact governed_move ih (Moves.wired hfirst hc hw) (Moves.coupled hfirst hc) hlast

theorem Moves.stuck (hm : Moves M b b') (hc : Coupled b) (hw : Wired b) (hs : Spares g b b')
    (hJ' : b'.job j = some J') (hg : J'.grouping.graphId = some g) (hstuck : b'.Stuck j) :
    b.job j = some J' ∧ b.Stuck j := by
  induction hm with
  | refl => exact ⟨hJ', hstuck⟩
  | @tail b₁ b₂ hfirst hlast ih =>
      have hc₁ := Moves.coupled hfirst hc
      have hp₁ := persists_move hc₁ hlast
      have hlate : Spares g b₁ b₂ := by
        intro k K o hK hKg ho
        exact (Moves.persists hfirst hc).job_terminal k K o (hs k K o hK hKg ho) ho
      obtain ⟨hJ₁, hstuck₁⟩ := stuck_move (Moves.wired hfirst hc hw) hc₁ hlast hlate hJ' hg hstuck
      refine ih ?_ hJ₁ hstuck₁
      intro k K o hK hKg ho
      exact hs k K o (hp₁.job_terminal k K o hK ho) hKg ho

/-- Moves after which each graph either lost no live node or has no stuck one but
those whose rows are locked, and that add edges only to a graph they publish. -/
structure Effect (M : Licence) (locked : Id → Bool) (b b' : Board) : Prop where
  moves : Moves M b b'
  settled : ∀ g, Spares g b b' ∨ ∀ k K, b'.job k = some K → K.grouping.graphId = some g →
    b'.Stuck k → locked k = true
  edges : ∀ key edge, b'.edge key = some edge → b.edge key = some edge ∨ b.graph key.graphId = none

theorem Spares.refl (g : Id) (b : Board) : Spares g b b := fun _ _ _ h _ _ => h

theorem Effect.refl (locked : Id → Bool) (b : Board) : Effect M locked b b :=
  ⟨.refl, fun g => Or.inl (Spares.refl g b), fun _ _ he => Or.inl he⟩

theorem spares_of_changed (hp : Persists b b') (hchanged : ∀ k, b'.job k ≠ b.job k →
      ∃ K, b.job k = some K ∧ K.grouping.graphId ≠ some g) : Spares g b b' := by
  intro j J o hJ hg _
  by_contra hold
  obtain ⟨K, hK, hne⟩ := hchanged j (by rw [hJ]; exact fun hsame => hold hsame.symm)
  obtain ⟨J', hJ', -, hsame, -⟩ := hp.job j K hK
  cases hJ.symm.trans hJ'
  exact hne (hsame.symm.trans hg)

theorem effect_of_live (hm : Moves M b b') (hedge : b'.edge = b.edge)
    (hjob : ∀ k, k ≠ j → b'.job k = b.job k)
    (hlive : ∀ J o, b'.job j = some J → J.progress ≠ .terminal o) : Effect M locked b b' := by
  refine ⟨hm, fun g => Or.inl ?_, fun key edge he => Or.inl (hedge ▸ he)⟩
  intro k K o hK _ ho
  by_cases hk : k = j
  · subst hk
    exact absurd ho (hlive K o hK)
  · rw [← hjob k hk]
    exact hK

/-- Jobs of one graph, or of none, finish; then the graph is searched for stuck nodes. -/
theorem effect_of_completion {b₁ : Board} {home : Option Id} (hc : Coupled b)
    (hfirst : Moves M b b₁) (hrest : Moves M b₁ b') (hedge : b'.edge = b.edge)
    (hchanged : ∀ k, b₁.job k ≠ b.job k →
      ∃ K, b.job k = some K ∧ (K.grouping.graphId = none ∨ K.grouping.graphId = home))
    (hchanged' : ∀ k, b'.job k ≠ b₁.job k → ∃ K, b₁.job k = some K ∧ K.grouping.graphId = home)
    (hdone : ∀ g, home = some g → ∀ k K, b'.job k = some K → K.grouping.graphId = some g →
      b'.Stuck k → locked k = true) : Effect M locked b b' := by
  have hmoves : Moves M b b' := hfirst.trans hrest
  refine ⟨hmoves, fun g => ?_, fun key edge he => Or.inl (hedge ▸ he)⟩
  by_cases hg : home = some g
  · exact Or.inr (hdone g hg)
  · refine Or.inl (spares_of_changed (hmoves.persists hc) ?_)
    intro k hk
    by_cases hk₁ : b₁.job k = b.job k
    · obtain ⟨K, hK, hKg⟩ := hchanged' k (by rw [hk₁]; exact hk)
      exact ⟨K, hk₁.symm.trans hK, by rw [hKg]; exact hg⟩
    · obtain ⟨K, hK, hKg⟩ := hchanged k hk₁
      refine ⟨K, hK, ?_⟩
      obtain hnone | hhome := hKg
      · rw [hnone]
        simp
      · rw [hhome]
        exact hg

/-- All that holds of a board whatever was called before. -/
structure Sound (b : Board) : Prop where
  coupled : Coupled b
  wired : Wired b
  governed : Governed b
  unstuck : ∀ j, ¬b.Stuck j

theorem Effect.stuck (h : Effect M locked b b') (hc : Coupled b) (hw : Wired b)
    (hstuck : b'.Stuck j) : b.Stuck j ∨ locked j = true := by
  obtain ⟨J, hJ, -⟩ := hstuck.waiting
  obtain ⟨key, edge, he, hdown, -⟩ := hstuck.refuted
  obtain ⟨D, hD, hg⟩ := (h.moves.wired hc hw).downstream key edge he
  rw [hdown] at hD
  cases hJ.symm.trans hD
  obtain hspares | hdone := h.settled key.graphId
  · exact Or.inl (h.moves.stuck hc hw hspares hJ hg hstuck).2
  · exact Or.inr (hdone j J hJ hg hstuck)

theorem Effect.sound (h : Effect M (fun _ => false) b b') (hs : Sound b) : Sound b' := by
  refine ⟨h.moves.coupled hs.coupled, h.moves.wired hs.coupled hs.wired,
    h.moves.governed hs.coupled hs.wired hs.governed, fun j hstuck => ?_⟩
  obtain hbefore | hlocked := h.stuck hs.coupled hs.wired hstuck
  · exact hs.unstuck j hbefore
  · cases hlocked

end Lifecycle
end JobmanControl
