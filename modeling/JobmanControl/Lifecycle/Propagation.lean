import JobmanControl.Lifecycle.Cancelling
import JobmanControl.Lifecycle.Wiring

/-!
What a completion does to the rest of its group. The edge predicate, written in
SQL's logic of three values, is two-valued on finished upstreams; a propagation
step settles one node whose dependencies are all finished and not all
satisfied, and the loop runs until the graph has no such node.
-/

namespace JobmanControl

open Relational Lifecycle Lifecycle.Board

variable {g namespaceId : Id} {locked : Id → Bool} {codec : Codec} {env : Env}
  {policy : UnsatisfiedPolicy}

variable {M : Licence}

variable {db db' : Db} {j : Id} {job : JobRow}

namespace EdgeRow

/-- On a finished upstream the SQL condition is the plain acceptance test. -/
theorem predicateHolds_some (edge : EdgeRow) (o : Outcome) :
    edge.predicateHolds (some o) = some (accepts edge o) := by
  obtain ⟨predicate, outcomes⟩ := edge
  cases predicate with
  | anyTerminal | success | failure =>
      cases o <;> simp [predicateHolds, accepts, Truth.or, Truth.and, Truth.eq, Truth.mem]
  | outcomes =>
      by_cases h : o ∈ outcomes <;>
        simp [predicateHolds, accepts, Truth.or, Truth.and, Truth.eq, Truth.mem, h]

theorem predicateHolds_none (edge : EdgeRow) : edge.predicateHolds none ≠ some false := by
  obtain ⟨predicate, outcomes⟩ := edge
  cases predicate <;>
    simp [predicateHolds, Truth.or, Truth.and, Truth.eq, Truth.mem]

theorem unsatisfied_holds_iff (edge : EdgeRow) (upstream : JobRow) :
    (edge.unsatisfied upstream).holds = true ↔
      ∃ o, upstream.progress = .terminal o ∧ accepts edge o = false := by
  unfold unsatisfied JobRow.outcome
  cases hp : upstream.progress with
  | live p =>
      have hnone := predicateHolds_none edge
      simp only [reduceCtorEq, false_and, exists_false, iff_false]
      cases hx : edge.predicateHolds none with
      | none => simp [Truth.not, Truth.holds]
      | some x =>
          cases x with
          | false => exact absurd hx hnone
          | true => simp [Truth.not, Truth.holds]
  | terminal o => simp [predicateHolds_some, Truth.not, Truth.holds]

theorem blocksDispatch_holds_iff (edge : EdgeRow) (upstream : JobRow) :
    (edge.blocksDispatch upstream).holds = true ↔
      ¬∃ o, upstream.progress = .terminal o ∧ accepts edge o = true := by
  unfold blocksDispatch JobRow.outcome
  cases hp : upstream.progress with
  | live p => simp [Truth.or, Truth.holds]
  | terminal o =>
      cases hacc : accepts edge o <;>
        simp [predicateHolds_some, hacc, Truth.not, Truth.or, Truth.holds]

end EdgeRow

namespace Db

theorem mem_incomingEdges {key : EdgeKey} {edge : EdgeRow} {U : JobRow} :
    ((key, edge), U) ∈ db.incomingEdges j ↔
      db.graphEdges.get? key = some edge ∧ key.downstreamJobId = j ∧
        db.jobs.get? key.upstreamJobId = some U := by
  simp only [incomingEdges, List.mem_filterMap, Prod.exists, Option.map_eq_some_iff, Prod.mk.injEq,
    Table.mem_select, decide_eq_true_eq]
  constructor
  · rintro ⟨key', edge', ⟨hedge, hdown⟩, U', hU, ⟨rfl, rfl⟩, rfl⟩
    exact ⟨hedge, hdown, hU⟩
  · rintro ⟨hedge, hdown, hU⟩
    exact ⟨key, edge, ⟨hedge, hdown⟩, U, hU, ⟨rfl, rfl⟩, rfl⟩

/-- The dependency part of the claim query asks for every edge to be satisfied. -/
theorem dependenciesReady_iff :
    db.dependenciesReady j = true ↔ ∀ key edge U, db.graphEdges.get? key = some edge →
      key.downstreamJobId = j → db.jobs.get? key.upstreamJobId = some U →
      ∃ o, U.progress = .terminal o ∧ accepts edge o = true := by
  simp only [dependenciesReady, Bool.not_eq_true', List.any_eq_false, Prod.forall,
    mem_incomingEdges, EdgeRow.blocksDispatch_holds_iff, not_not]
  constructor
  · intro h key edge U hedge hdown hU
    exact h key edge U ⟨hedge, hdown, hU⟩
  · rintro h key edge U ⟨hedge, hdown, hU⟩
    exact h key edge U hedge hdown hU

end Db

theorem isStuck_iff (hjob : db.jobs.get? j = some job) :
    isStuck db j job = true ↔ db.board.Stuck j := by
  have hJ := Db.board_job hjob
  simp only [isStuck, Bool.and_eq_true, Bool.not_eq_true', List.any_eq_false, List.any_eq_true,
    Prod.forall, Prod.exists, Db.mem_incomingEdges, Table.any_eq_true_iff, decide_eq_true_eq,
    EdgeRow.unsatisfied_holds_iff, JobRow.isAccepted, Bool.not_eq_false]
  constructor
  · rintro ⟨⟨⟨hacc, -⟩, hfin⟩, key, edge, U, ⟨hedge, hdown, hU⟩, o, ho, hno⟩
    refine ⟨⟨job.facts, hJ, hacc⟩, ?_, key, edge, hedge, hdown, U.facts, o, ?_, ho, hno⟩
    · intro key' edge' U' hedge' hdown' hU'
      obtain ⟨row, hrow, rfl⟩ := Db.board_job_eq_some.mp hU'
      exact (Progress.isTerminal_iff _).mp (hfin key' edge' row ⟨hedge', hdown', hrow⟩)
    · exact Db.board_job hU
  · rintro ⟨⟨J, hJ', hacc⟩, hfin, key, edge, hedge, hdown, U, o, hU, ho, hno⟩
    have hsame : J = job.facts := Option.some.inj (hJ'.symm.trans hJ)
    subst hsame
    obtain ⟨row, hrow, rfl⟩ := Db.board_job_eq_some.mp hU
    refine ⟨⟨⟨hacc, key, edge, hedge, hdown⟩, ?_⟩, key, edge, row, ⟨hedge, hdown, hrow⟩, o, ho, hno⟩
    rintro key' edge' U' ⟨hedge', hdown', hU'⟩
    have hU'' := Db.board_job hU'
    exact (Progress.isTerminal_iff _).mpr (hfin key' edge' U'.facts hedge' hdown' hU'')

theorem Lifecycle.Board.Stuck.accepted (h : db.board.Stuck j) (hjob : db.jobs.get? j = some job) :
    job.progress = .live .accepted := by
  obtain ⟨J, hJ, hacc⟩ := h.waiting
  have hsame : J = job.facts := Option.some.inj (hJ.symm.trans (Db.board_job hjob))
  subst hsame
  exact hacc

theorem propagationCandidate_some (h : propagationCandidate locked g db = some j) :
    ∃ job, db.jobs.get? j = some job ∧ job.grouping.graphId = some g ∧ db.board.Stuck j := by
  obtain ⟨⟨k, job⟩, hfirst, rfl⟩ := Option.map_eq_some_iff.mp h
  obtain ⟨hjob, hcond⟩ := (Table.mem_select _ _ _ _).mp (firstBy_mem hfirst)
  simp only [Bool.and_eq_true, decide_eq_true_eq, Bool.not_eq_true'] at hcond
  exact ⟨job, hjob, hcond.1.1, (isStuck_iff hjob).mp hcond.1.2⟩

/-- When the query returns nothing, every stuck node of the graph is locked. -/
theorem propagationCandidate_none (h : propagationCandidate locked g db = none) {J : JobFacts}
    (hJ : db.board.job j = some J) (hg : J.grouping.graphId = some g) (hstuck : db.board.Stuck j) :
    locked j = true := by
  rw [propagationCandidate, Option.map_eq_none_iff, firstBy_eq_none_iff] at h
  obtain ⟨job, hjob, rfl⟩ := Db.board_job_eq_some.mp hJ
  by_contra hfree
  have hmem : (j, job) ∈ db.jobs.select fun jobId job =>
      job.grouping.graphId = some g && isStuck db jobId job && !locked jobId := by
    refine (Table.mem_select _ _ _ _).mpr ⟨hjob, ?_⟩
    simp only [Bool.and_eq_true, decide_eq_true_eq, Bool.not_eq_true']
    exact ⟨⟨hg, (isStuck_iff hjob).mpr hstuck⟩, by simpa using hfree⟩
  rw [h] at hmem
  cases hmem

theorem move_disposeNode {J : JobFacts}
    (h : disposeNode codec env namespaceId policy j db = .ok db') (hJ : db.board.job j = some J)
    (hg : J.grouping.graphId = some g) (hpolicy : db.board.graph g = some policy)
    (hstuck : db.board.Stuck j) :
    Move M db.board db'.board ∧ Only j db.board db'.board := by
  obtain ⟨⟨J₁, hJ₁, hacc⟩, -, key, edge, hedge, hdown, hrefuted⟩ := hstuck
  have hsame : J₁ = J := Option.some.inj (hJ₁.symm.trans hJ)
  subst hsame
  simp only [disposeNode, bind_ok_iff, pure_ok_iff] at h
  obtain ⟨db₁, hupdate, rfl⟩ := h
  obtain ⟨old, changed, n, o, hfacts, hf, ho, hfree, hboard⟩ :=
    Db.board_updateJob_terminal hupdate hJ hacc (by
      intro old changed _ hf
      simp only [bind_ok_iff, pure_ok_iff] at hf
      obtain ⟨grouping, -, rfl⟩ := hf
      rfl)
  simp only [bind_ok_iff, pure_ok_iff] at hf
  obtain ⟨grouping, hdispose, rfl⟩ := hf
  cases ho
  have holdgroup : old.grouping = J₁.grouping := congrArg JobFacts.grouping hfacts
  rw [holdgroup] at hdispose
  cases hgroup : J₁.grouping with
  | standalone | collection _ _ =>
      rw [hgroup] at hg
      cases hg
  | graph g' i d =>
      rw [hgroup] at hg hdispose
      cases hg
      cases hdispose
      rw [Db.board_appendAudit, hboard]
      refine ⟨?_, (only_putJob _ _ _).putNotice _ _⟩
      refine Move.dispose hJ hacc hgroup hpolicy hedge hdown hrefuted rfl ?_ rfl hfree
      rw [← hfacts]
      rfl

/-- The waiting nodes of a graph, which every iteration makes fewer. -/
def waitingNodes (db : Db) (g : Id) : Nat :=
  db.jobs.count fun _ job => job.grouping.graphId = some g && job.isAccepted

theorem waitingNodes_disposeNode (h : disposeNode codec env namespaceId policy j db = .ok db')
    (hjob : db.jobs.get? j = some job) (hg : job.grouping.graphId = some g)
    (hacc : job.progress = .live .accepted) : waitingNodes db' g < waitingNodes db g := by
  simp only [disposeNode, bind_ok_iff, pure_ok_iff] at h
  obtain ⟨db₁, hupdate, rfl⟩ := h
  obtain ⟨changed, new, hf, hnew, hjobs⟩ := Db.jobs_updateJob hupdate hjob
  simp only [bind_ok_iff, pure_ok_iff] at hf
  obtain ⟨grouping, -, rfl⟩ := hf
  have hprog : new.progress = .terminal (unsatisfiedDisposition policy).2.1 :=
    congrArg JobFacts.progress hnew
  unfold waitingNodes
  rw [show (db₁.appendAudit _).jobs = db₁.jobs from rfl, hjobs]
  refine Table.count_modify_lt _ _ _ hjob ?_ ?_
  · simp [hg, JobRow.isAccepted, hacc]
  · simp [JobRow.isAccepted, hprog]

theorem graphs_disposeNode (h : disposeNode codec env namespaceId policy j db = .ok db') :
    db'.graphs = db.graphs := by
  simp only [disposeNode, bind_ok_iff, pure_ok_iff] at h
  obtain ⟨db₁, hupdate, rfl⟩ := h
  have hgraphs := Db.graphs_updateJob hupdate
  exact hgraphs

theorem moves_propagate (fuel : Nat) (hc : Coupled db.board)
    (hpolicy : db.board.graph g = some policy)
    (h : propagate codec env locked namespaceId g policy fuel db = .ok db') :
    Moves M db.board db'.board ∧ db'.board.edge = db.board.edge ∧
      ∀ k, db'.board.job k ≠ db.board.job k →
        ∃ J, db.board.job k = some J ∧ J.grouping.graphId = some g := by
  induction fuel generalizing db with
  | zero =>
      cases h
      exact ⟨.refl, rfl, fun k hk => absurd rfl hk⟩
  | succ fuel ih =>
      simp only [propagate] at h
      cases hcand : propagationCandidate locked g db with
      | none =>
          simp only [hcand] at h
          cases h
          exact ⟨.refl, rfl, fun k hk => absurd rfl hk⟩
      | some j =>
          simp only [hcand, bind_ok_iff] at h
          obtain ⟨db₁, hdispose, hrest⟩ := h
          obtain ⟨job, hjob, hg, hstuck⟩ := propagationCandidate_some hcand
          have hJ := Db.board_job hjob
          obtain ⟨hmove, honly⟩ := move_disposeNode hdispose hJ hg hpolicy hstuck
          have hpolicy₁ : db₁.board.graph g = some policy := by
            simpa only [Db.board, graphs_disposeNode hdispose] using hpolicy
          obtain ⟨hmoves, hedge, hframe⟩ := ih (coupled_move hc hmove) hpolicy₁ hrest
          refine ⟨.head hmove hmoves, hedge.trans honly.edge, ?_⟩
          intro k hk
          by_cases hkj : k = j
          · subst hkj
            exact ⟨job.facts, hJ, hg⟩
          · rw [← honly.job k hkj]
            exact hframe k (by rw [honly.job k hkj]; exact hk)

theorem propagationCandidate_of_settled (h : waitingNodes db g ≤ 0) :
    propagationCandidate locked g db = none := by
  cases hcand : propagationCandidate locked g db with
  | none => rfl
  | some j =>
      obtain ⟨job, hjob, hg, hstuck⟩ := propagationCandidate_some hcand
      have hacc := hstuck.accepted hjob
      have hpos : 0 < waitingNodes db g :=
        (Table.count_pos_iff _ _).mpr ⟨j, job, hjob, by simp [hg, JobRow.isAccepted, hacc]⟩
      omega

section Loop

theorem propagate_of_none (fuel : Nat) (h : propagationCandidate locked g db = none) :
    propagate codec env locked namespaceId g policy fuel db = .ok db := by
  cases fuel with
  | zero => rfl
  | succ fuel => simp only [propagate, h]

/-- The loop ends: as many iterations as there are waiting nodes are enough, and
afterwards no node of the graph is left stuck unless it is locked. -/
theorem propagate_done (fuel : Nat) (hfuel : waitingNodes db g ≤ fuel)
    (h : propagate codec env locked namespaceId g policy fuel db = .ok db') :
    propagationCandidate locked g db' = none := by
  induction fuel generalizing db with
  | zero =>
      cases h
      exact propagationCandidate_of_settled hfuel
  | succ fuel ih =>
      simp only [propagate] at h
      cases hcand : propagationCandidate locked g db with
      | none =>
          simp only [hcand] at h
          cases h
          exact hcand
      | some j =>
          simp only [hcand, bind_ok_iff] at h
          obtain ⟨db₁, hdispose, hrest⟩ := h
          obtain ⟨job, hjob, hg, hstuck⟩ := propagationCandidate_some hcand
          have hlt := waitingNodes_disposeNode hdispose hjob hg (hstuck.accepted hjob)
          exact ih (by omega) hrest

/-- The bound on the loop is no restriction: any bound that covers the waiting nodes
gives the same result. -/
theorem propagate_fuel (n m : Nat) (hn : waitingNodes db g ≤ n) (hm : waitingNodes db g ≤ m) :
    propagate codec env locked namespaceId g policy n db =
      propagate codec env locked namespaceId g policy m db := by
  induction n generalizing m db with
  | zero => rw [propagate_of_none m (propagationCandidate_of_settled hn), propagate]
  | succ n ih =>
      cases hcand : propagationCandidate locked g db with
      | none => rw [propagate_of_none _ hcand, propagate_of_none _ hcand]
      | some j =>
          obtain ⟨job, hjob, hg, hstuck⟩ := propagationCandidate_some hcand
          cases m with
          | zero =>
              rw [propagationCandidate_of_settled hm] at hcand
              cases hcand
          | succ m =>
              simp only [propagate, hcand]
              cases hdispose : disposeNode codec env namespaceId policy j db with
              | error e => rfl
              | ok db₁ =>
                  have hlt := waitingNodes_disposeNode hdispose hjob hg (hstuck.accepted hjob)
                  exact ih m (by omega) (by omega)

end Loop

end JobmanControl
