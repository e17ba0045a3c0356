import JobmanControl.Lifecycle.Coherence

/-!
What dependency graphs guarantee over whole runs. A waiting node whose upstreams
have all finished has every edge satisfied, so an acyclic graph always has a node
that is active or ready; a node that was ever dispatched keeps its edges
satisfied, and a node that was settled by policy was refused by one of them.
-/

namespace JobmanControl

open Relational Lifecycle Lifecycle.Board

variable {db : Db} {g : Id}

namespace EdgeRow

theorem edgeState_terminal (edge : EdgeRow) {upstream : JobRow} {o : Outcome}
    (ho : upstream.progress = .terminal o) :
    edge.edgeState upstream = if accepts edge o then .satisfied else .unsatisfied := by
  have houtcome : upstream.outcome = some o := by simp [JobRow.outcome, ho]
  simp [edgeState, ho, houtcome, predicateHolds_some, Truth.holds]

theorem dependencySatisfied_terminal (edge : EdgeRow) {upstream : JobRow} {o : Outcome}
    (ho : upstream.progress = .terminal o) :
    edge.dependencySatisfied upstream = some (accepts edge o) := by
  have houtcome : upstream.outcome = some o := by simp [JobRow.outcome, ho]
  cases hacc : accepts edge o <;>
    simp [dependencySatisfied, ho, houtcome, predicateHolds_some, Truth.and, hacc]

end EdgeRow

theorem satisfied_of_finished (hs : Sound db.board) {j : Id} {job : JobRow}
    (hjob : db.jobs.get? j = some job) (hacc : job.progress = .live .accepted)
    (hfin : ∀ key edge upstream, db.graphEdges.get? key = some edge → key.downstreamJobId = j →
      db.jobs.get? key.upstreamJobId = some upstream → upstream.progress.isTerminal = true) :
    ∀ key edge upstream, db.graphEdges.get? key = some edge → key.downstreamJobId = j →
      db.jobs.get? key.upstreamJobId = some upstream →
      ∃ o, upstream.progress = .terminal o ∧ accepts edge o = true := by
  intro key edge upstream hedge hdown hup
  have hJ := Db.board_job hjob
  obtain ⟨o, ho⟩ := (Progress.isTerminal_iff _).mp (hfin key edge upstream hedge hdown hup)
  refine ⟨o, ho, ?_⟩
  by_contra hno
  -- An edge that refuses would make the node stuck.
  refine hs.unstuck j ⟨⟨job.facts, hJ, hacc⟩, ?_, key, edge, hedge, hdown,
    upstream.facts, o, Db.board_job hup, ho, Bool.eq_false_iff.mpr hno⟩
  intro key' edge' U hedge' hdown' hU
  obtain ⟨row, hrow, rfl⟩ := Db.board_job_eq_some.mp hU
  exact (Progress.isTerminal_iff _).mp (hfin key' edge' row hedge' hdown' hrow)

theorem active_or_ready (hs : Sound db.board) (hacyclic : Acyclic (db.board.Upstream g))
    (hopen : ∃ j job, db.jobs.get? j = some job ∧ job.grouping.graphId = some g ∧
      job.progress.isTerminal = false) :
    (∃ j job, db.jobs.get? j = some job ∧ job.grouping.graphId = some g ∧ job.isActive = true) ∨
      ∃ j job, db.jobs.get? j = some job ∧ job.grouping.graphId = some g ∧
        job.isAccepted = true ∧ db.dependenciesReady j = true := by
  by_cases hactive : ∃ j job, db.jobs.get? j = some job ∧ job.grouping.graphId = some g ∧
      job.isActive = true
  · exact Or.inl hactive
  · refine Or.inr ?_
    obtain ⟨j₀, job₀, hjob₀, hg₀, hopen₀⟩ := hopen
    -- A minimal unfinished node: nothing before it is unfinished.
    let l := (db.jobs.select fun _ job =>
      job.grouping.graphId = some g && !job.progress.isTerminal).map Prod.fst
    have hl : ∀ k, k ∈ l ↔ ∃ job, db.jobs.get? k = some job ∧ job.grouping.graphId = some g ∧
        job.progress.isTerminal = false := by
      intro k
      simp [l, List.mem_map, Table.mem_select]
    obtain ⟨m, hm, hmin⟩ := hacyclic.exists_minimal l ((hl j₀).mpr ⟨job₀, hjob₀, hg₀, hopen₀⟩)
    obtain ⟨job, hjob, hg, hlive⟩ := (hl m).mp hm
    have haccepted : job.isAccepted = true := by
      by_contra hno
      exact hactive ⟨m, job, hjob, hg, by simp [JobRow.isActive, hno, hlive]⟩
    have hacc : job.progress = .live .accepted := of_decide_eq_true haccepted
    refine ⟨m, job, hjob, hg, haccepted, Db.dependenciesReady_iff.mpr ?_⟩
    refine satisfied_of_finished hs hjob hacc ?_
    intro key edge upstream hedge hdown hup
    by_contra hno
    have hgraph : key.graphId = g := by
      obtain ⟨D, hD, hDg⟩ := hs.wired.downstream key edge hedge
      rw [hdown] at hD
      cases hD.symm.trans (Db.board_job hjob)
      exact Option.some.inj (hDg.symm.trans hg)
    obtain ⟨U, hU, hUg⟩ := hs.wired.upstream key edge hedge
    cases hU.symm.trans (Db.board_job hup)
    refine hmin key.upstreamJobId ((hl _).mpr ⟨upstream, hup, ?_, Bool.eq_false_iff.mpr hno⟩) ?_
    · exact hUg.trans (congrArg some hgraph)
    · exact ⟨edge, by rw [← hgraph, ← hdown]; exact hedge⟩

theorem edges_later {codec : Codec} {db' : Db} (hs : Sound db.board)
    (hpub : ∃ policy, db.board.graph g = some policy) (h : Db.Later codec db db') :
    ∀ key edge, db'.board.edge key = some edge → key.graphId = g →
      db.board.edge key = some edge := by
  have hinv := h.invariant
    (P := fun d => Sound d.board ∧ (∃ policy, d.board.graph g = some policy) ∧
      ∀ key edge, d.board.edge key = some edge → key.graphId = g → db.board.edge key = some edge)
    ⟨hs, hpub, fun _ _ he _ => he⟩ ?_
  · exact hinv.2.2
  · rintro d call d' ⟨hsound, ⟨policy, hpolicy⟩, hedges⟩ - rfl
    have heffect := effect_apply codec call hsound.coupled hsound.wired
    refine ⟨heffect.sound hsound,
      ⟨policy, (heffect.moves.persists hsound.coupled).graph g policy hpolicy⟩, ?_⟩
    intro key edge he hkey
    obtain hold | hnone := heffect.edges key edge he
    · exact hedges key edge hold hkey
    · rw [hkey, hpolicy] at hnone
      cases hnone

/-- A submitted acyclic graph never stalls on its own dependencies, and the loop that
settles its unsatisfiable nodes always ends. -/
theorem graph_never_stalls {codec : Codec} {env : Env}
    {authorization : Except StoreError Authorization} {key : String} {ids : GroupIds}
    {submission : GraphSubmission} {graph : Graph} {db₀ db₁ : Db} (harises : Db.Arises codec db₀)
    (hsubmit : submitGraph codec env queuedJobs authorization key ids submission db₀ =
      .ok (⟨graph, false⟩, db₁)) (hacyclic : Acyclic submission.Before)
    (hlater : Db.Later codec db₁ db) :
    (∀ j job, db.jobs.get? j = some job → job.grouping.graphId = some ids.groupId →
      job.progress = .live .accepted →
      (∀ key edge upstream, db.graphEdges.get? key = some edge → key.downstreamJobId = j →
        db.jobs.get? key.upstreamJobId = some upstream → upstream.progress.isTerminal = true) →
      ∀ key edge upstream, db.graphEdges.get? key = some edge → key.downstreamJobId = j →
        db.jobs.get? key.upstreamJobId = some upstream →
        ∃ o, upstream.progress = .terminal o ∧ accepts edge o = true) ∧
    ((∃ j job, db.jobs.get? j = some job ∧ job.grouping.graphId = some ids.groupId ∧
        job.progress.isTerminal = false) →
      (∃ j job, db.jobs.get? j = some job ∧ job.grouping.graphId = some ids.groupId ∧
        job.isActive = true) ∨
      ∃ j job, db.jobs.get? j = some job ∧ job.grouping.graphId = some ids.groupId ∧
        job.isAccepted = true ∧ db.dependenciesReady j = true) ∧
    ∀ env locked namespaceId g policy fuel (d : Db), d.jobs.entries.length ≤ fuel →
      propagate codec env locked namespaceId g policy fuel d =
          propagate codec env locked namespaceId g policy d.jobs.entries.length d ∧
        ∀ d', propagate codec env locked namespaceId g policy fuel d = .ok d' →
          propagationCandidate locked g d' = none := by
  have hs₀ := sound_later sound_empty harises
  obtain ⟨hreplayed, -⟩ | hpub := submitGraph_cases hsubmit
  · cases hreplayed
  have hs₁ := (effect_submitGraph hsubmit).sound hs₀
  have hs := sound_later hs₁ hlater
  have hstored : ∀ k edge, db.board.edge k = some edge → k.graphId = ids.groupId →
      SubmittedEdge ids submission k := by
    intro k edge he hk
    obtain hold | hnew := hpub.edges k edge (edges_later hs₁ hpub.published hlater k edge he hk)
    · -- The graph was not published before, so it had no edges.
      obtain ⟨U, hU, hUg⟩ := hs₀.wired.upstream k edge hold
      obtain ⟨policy, hpolicy⟩ := hs₀.wired.published _ U _ hU hUg
      rw [hk, hpub.fresh] at hpolicy
      cases hpolicy
    · exact hnew
  refine ⟨?_, ?_, ?_⟩
  · intro j job hjob hg hacc hfin
    exact satisfied_of_finished hs hjob hacc hfin
  · intro hopen
    exact active_or_ready hs (acyclic_of_submission hpub.distinct hstored hacyclic) hopen
  · intro env locked namespaceId g policy fuel d hfuel
    have hwaiting : waitingNodes d g ≤ d.jobs.entries.length := Table.count_le_length _ _
    exact ⟨propagate_fuel _ _ (hwaiting.trans hfuel) hwaiting,
      fun d' hok => propagate_done _ (hwaiting.trans hfuel) hok⟩

namespace Sample

theorem submit_ok : ∃ result, submitGraph codec (env 1) queuedJobs authorization "submit-graph-1"
    graphIds graph installed = .ok (⟨result, false⟩, submitted) :=
  ⟨_, rfl⟩

theorem graph_acyclic : Acyclic graph.Before := by
  have hends : ∀ a b, Relation.TransGen graph.Before a b → a = "first" ∧ b = "second" := by
    intro a b h
    induction h with
    | single hab =>
        obtain ⟨edge, hedge, rfl, rfl⟩ := hab
        cases List.mem_singleton.mp hedge
        exact ⟨rfl, rfl⟩
    | tail _ hbc ih =>
        obtain ⟨edge, hedge, rfl, rfl⟩ := hbc
        cases List.mem_singleton.mp hedge
        exact ⟨ih.1, rfl⟩
  intro name hcycle
  obtain ⟨hfirst, hsecond⟩ := hends name name hcycle
  exact absurd (hfirst.symm.trans hsecond) (by decide)

end Sample

theorem graph_never_stalls_pair :
    let db := Sample.submitted.run Sample.codec (Sample.firstNode .success)
    (∃ j job, db.jobs.get? j = some job ∧ job.grouping.graphId = some 20 ∧
        job.isActive = true) ∨
      ∃ j job, db.jobs.get? j = some job ∧ job.grouping.graphId = some 20 ∧
        job.isAccepted = true ∧ db.dependenciesReady j = true := by
  intro db
  have hopen : (db.jobs.get? 11).any (fun job =>
      job.grouping.graphId = some 20 && !job.progress.isTerminal) = true := by
    decide
  obtain ⟨job, hjob, hlive⟩ := Option.any_eq_true _ _ |>.mp hopen
  simp only [Bool.and_eq_true, decide_eq_true_eq, Bool.not_eq_true'] at hlive
  obtain ⟨graph, hsubmit⟩ := Sample.submit_ok
  exact (graph_never_stalls (Db.later_run Sample.codec Db.empty _) hsubmit
    Sample.graph_acyclic (Db.later_run Sample.codec Sample.submitted _)).2.1
      ⟨11, job, hjob, hlive.1, hlive.2⟩

/-- An edge is satisfied, and both read-outs show it and show it as satisfied: whoever may
read the graph and reads the listing to its end finds the edge in it. -/
structure ReportedSatisfied (db : Db) (key : EdgeKey) (edge : EdgeRow) : Prop where
  satisfied : ∃ upstream o, db.jobs.get? key.upstreamJobId = some upstream ∧
    upstream.progress = .terminal o ∧ accepts edge o = true
  dependency : ∃ name, ⟨name, edge.predicate, edge.outcomes, some true⟩ ∈
    loadGraphDependencies db key.graphId key.downstreamJobId
  dependencies : ∀ row ∈ loadGraphDependencies db key.graphId key.downstreamJobId,
    row.satisfied = some true
  listed : ∃ graph, db.graphs.get? key.graphId = some graph ∧
    ∀ authorization options, graph.namespaceId = authorization.namespaceId →
      validGraphEdgeOptions options = true → options.after = none →
      options.matches key = true →
      (∃ pages, EdgePages db (.ok authorization) key.graphId options pages) ∧
      ∀ pages, EdgePages db (.ok authorization) key.graphId options pages →
        ∃ page ∈ pages, ∃ row ∈ page.items, row.fromJobId = key.upstreamJobId ∧
          row.toJobId = key.downstreamJobId ∧ row.state = .satisfied
  listing : ∀ authorization options page,
    listGraphEdges db authorization key.graphId options = .ok page →
    ∀ row ∈ page.items, row.toJobId = key.downstreamJobId → row.state = .satisfied

theorem reportedSatisfied_of_run (hs : Sound db.board) {j r : Id} {run : RunRow}
    (hrun : db.RunOf j r run) {key : EdgeKey} {edge : EdgeRow}
    (hedge : db.graphEdges.get? key = some edge) (hdown : key.downstreamJobId = j) :
    ReportedSatisfied db key edge := by
  have hR := Db.board_run hrun.1
  have hall : ∀ key' edge', db.graphEdges.get? key' = some edge' → key'.downstreamJobId = j →
      ∃ upstream o, db.jobs.get? key'.upstreamJobId = some upstream ∧
        upstream.progress = .terminal o ∧ accepts edge' o = true := by
    intro key' edge' hedge' hdown'
    obtain ⟨U, o, hU, ho, hacc⟩ :=
      hs.governed.dispatched r run.facts key' edge' hR hedge' (hdown'.trans hrun.2.symm)
    obtain ⟨upstream, hup, rfl⟩ := Db.board_job_eq_some.mp hU
    exact ⟨upstream, o, hup, ho, hacc⟩
  obtain ⟨upstream, o, hup, ho, hacc⟩ := hall key edge hedge hdown
  obtain ⟨⟨i, source, hsource⟩, k, sink, hsink⟩ := hs.wired.enrolled key edge hedge
  have hlisting : ∀ authorization options page,
      listGraphEdges db authorization key.graphId options = .ok page →
      ∀ row ∈ page.items, row.toJobId = key.downstreamJobId → row.state = .satisfied := by
    intro authorization options page hpage row hrow hto
    obtain ⟨key', edge', upstream', _, _, _, _, hedge', -, hup', -, -, rfl⟩ :=
      mem_graphEdgesSelect.mp (mem_listGraphEdges hpage hrow)
    obtain ⟨upstream₁, o', hup₁, ho', hacc'⟩ := hall key' edge' hedge' (hto.trans hdown)
    cases hup'.symm.trans hup₁
    show edge'.edgeState upstream' = .satisfied
    rw [EdgeRow.edgeState_terminal edge' ho', if_pos hacc']
  refine ⟨⟨upstream, o, hup, ho, hacc⟩, ⟨source, ?_⟩, ?_, ?_, hlisting⟩
  · refine mem_loadGraphDependencies.mpr ⟨key, edge, upstream, key.graphId, i, _, hedge, rfl, rfl,
      hup, hsource, rfl, ?_⟩
    rw [EdgeRow.dependencySatisfied_terminal edge ho, hacc]
  · intro row hrow
    obtain ⟨key', edge', upstream', _, _, _, hedge', -, hdown', hup', -, -, rfl⟩ :=
      mem_loadGraphDependencies.mp hrow
    obtain ⟨upstream₁, o', hup₁, ho', hacc'⟩ := hall key' edge' hedge' (hdown'.trans hdown)
    cases hup'.symm.trans hup₁
    show edge'.dependencySatisfied upstream' = some true
    rw [EdgeRow.dependencySatisfied_terminal edge' ho', hacc']
  · obtain ⟨U, hU, hUg⟩ := hs.wired.upstream key edge hedge
    obtain ⟨policy, hpolicy⟩ := hs.wired.published _ U _ hU hUg
    obtain ⟨graph, hgraph, -⟩ := Option.map_eq_some_iff.mp hpolicy
    refine ⟨graph, hgraph, fun authorization options hnamespace hvalid hafter hmatches => ?_⟩
    have hnode : ∀ nodeId ∈ options.nodeId, db.graphNodes.any
        (fun k node => k.1 = key.graphId && node.jobId = nodeId) = true := by
      intro nodeId hnodeId
      simp only [GraphEdgeOptions.matches, Option.mem_def.mp hnodeId, Bool.or_eq_true,
        Bool.and_eq_true, decide_eq_true_eq] at hmatches
      rw [Table.any_eq_true_iff]
      obtain ⟨-, rfl⟩ | ⟨-, rfl⟩ := hmatches
      · exact ⟨_, _, hsink, by simp⟩
      · exact ⟨_, _, hsource, by simp⟩
    obtain ⟨pages, hpages, hcover⟩ := edgePages_cover hvalid hafter hgraph hnamespace hnode
    refine ⟨⟨pages, hpages⟩, fun pages' hpages' => ?_⟩
    cases hpages.unique hpages'
    obtain ⟨page, hpage, row, hrow, hfrom, hto⟩ := hcover _ (mem_graphEdgesSelect.mpr ⟨key, edge,
      upstream, i, source, k, sink, hedge, by simp [hmatches], hup, hsource, hsink, rfl⟩)
    obtain ⟨after, hread⟩ := hpages.read hpage
    exact ⟨page, hpage, row, hrow, hfrom, hto, hlisting _ _ _ hread row hrow hto⟩

theorem runOf_later {codec : Codec} {db' : Db} (hs : Sound db.board)
    (h : Db.Later codec db db') {j r : Id} {run : RunRow} (hrun : db.RunOf j r run) :
    ∃ run', db'.RunOf j r run' := by
  obtain ⟨R', hR', hjob, -⟩ := ((moves_later hs h).persists hs.coupled).run r run.facts
    (Db.board_run hrun.1)
  obtain ⟨run', hrun', rfl⟩ := Db.board_run_eq_some.mp hR'
  exact ⟨run', hrun', hjob.trans hrun.2⟩

/-- Dispatched nodes have their edges satisfied for good, and every read-out says so;
nodes settled by policy were refused by an edge and never dispatched. -/
theorem dependencies_govern_dispatch {codec : Codec} (h : Db.Arises codec db) :
    (∀ j, (∃ r run, db.RunOf j r run) ∨ (∃ e execution, db.ExecutionOf j e execution) →
      ∀ db', Db.Later codec db db' → ∀ key edge, db'.graphEdges.get? key = some edge →
        key.downstreamJobId = j → ReportedSatisfied db' key edge) ∧
    ∀ j job d, db.jobs.get? j = some job → job.grouping.graphDisposition = some d →
      (∀ before, Db.Arises codec before → Db.Later codec before db →
        ¬∃ r run, before.RunOf j r run) ∧
      (∃ key edge upstream, db.graphEdges.get? key = some edge ∧ key.downstreamJobId = j ∧
        db.jobs.get? key.upstreamJobId = some upstream ∧
        edge.edgeState upstream = .unsatisfied) ∧
      ∃ g graph, job.grouping.graphId = some g ∧ db.graphs.get? g = some graph ∧
        job.progress = .terminal
          (if graph.unsatisfiedPolicy = .cancel then .cancelled else .aborted) := by
  have hs := sound_later sound_empty h
  refine ⟨?_, ?_⟩
  · intro j hdispatched db' hlater key edge hedge hdown
    have hrun : ∃ r run, db.RunOf j r run := by
      obtain hrun | ⟨e, execution, -, run, hrun⟩ := hdispatched
      · exact hrun
      · exact ⟨execution.runId, run, hrun⟩
    obtain ⟨r, run, hrun⟩ := hrun
    obtain ⟨run', hrun'⟩ := runOf_later hs hlater hrun
    exact reportedSatisfied_of_run (sound_later hs hlater) hrun' hedge hdown
  · intro j job d hjob hd
    cases hgroup : job.grouping with
    | standalone | collection _ _ =>
        rw [hgroup] at hd
        cases hd
    | graph g i d' =>
        rw [hgroup] at hd
        cases hd
        obtain ⟨hidle, ⟨key, edge, hedge, hdown, U, o, hU, ho, hno⟩, policy, hpolicy, -, hterm⟩ :=
          hs.governed.disposed j job.facts g i d
            (Db.board_job hjob) hgroup
        obtain ⟨upstream, hup, rfl⟩ := Db.board_job_eq_some.mp hU
        obtain ⟨graph, hgraph, rfl⟩ := Option.map_eq_some_iff.mp hpolicy
        refine ⟨?_, ⟨key, edge, upstream, hedge, hdown, hup, ?_⟩, g, graph, rfl, hgraph, ?_⟩
        · rintro before harises hlater ⟨r, run, hrun⟩
          obtain ⟨run', hrun'⟩ := runOf_later (sound_later sound_empty harises) hlater hrun
          exact hidle r run'.facts (Db.board_run hrun'.1) hrun'.2
        · rw [EdgeRow.edgeState_terminal edge ho, hno]
          rfl
        · rw [show job.progress = .terminal (unsatisfiedDisposition graph.unsatisfiedPolicy).2.1
            from hterm]
          cases graph.unsatisfiedPolicy <;> rfl

namespace Sample

def continued : Db := submitted.run codec
  (firstNode .success ++ [⟨env 5, .reconcileOneAssignment ⟨50, 51, 52, 53⟩⟩])

def refuted : Db := submitted.run codec (firstNode .failure)

theorem continued_arises : Db.Arises codec continued :=
  submitted_arises.trans (Db.later_run codec submitted _)

theorem refuted_arises : Db.Arises codec refuted :=
  submitted_arises.trans (Db.later_run codec submitted _)

end Sample

/-- After the first node succeeded and the second was dispatched, the edge between them is on
a page of the listing, as satisfied. After the first node failed, the second was settled by the
policy. -/
theorem dependencies_govern_dispatch_pair :
    ((Sample.continued.runs.get? 50).map RunRow.jobId = some 11 ∧
      ∃ pages, EdgePages Sample.continued Sample.authorization 20 ⟨some 11, .incoming, none, 1⟩
          pages ∧
        ∃ page ∈ pages, ∃ row ∈ page.items, row.fromJobId = 10 ∧ row.toJobId = 11 ∧
          row.state = .satisfied) ∧
    (∃ key edge upstream, Sample.refuted.graphEdges.get? key = some edge ∧
        key.downstreamJobId = 11 ∧ Sample.refuted.jobs.get? key.upstreamJobId = some upstream ∧
        edge.edgeState upstream = .unsatisfied) ∧
      (Sample.refuted.jobs.get? 11).map JobRow.progress = some (.terminal .aborted) := by
  refine ⟨?_, ?_⟩
  · have hrows : (Sample.continued.runs.get? 50).map RunRow.jobId = some 11 ∧
        (Sample.continued.graphEdges.get? ⟨20, 10, 11⟩).isSome = true ∧
        (Sample.continued.graphs.get? 20).map GraphRow.namespaceId = some 1 := by decide
    obtain ⟨hrun, hedge, hhome⟩ := hrows
    obtain ⟨run, hrow, hjob⟩ := Option.map_eq_some_iff.mp hrun
    obtain ⟨edge, hedge⟩ := Option.isSome_iff_exists.mp hedge
    have hreported := (dependencies_govern_dispatch Sample.continued_arises).1 11
      (Or.inl ⟨50, run, hrow, hjob⟩) _ .refl ⟨20, 10, 11⟩ edge hedge rfl
    obtain ⟨graph, hgraph, hlisted⟩ := hreported.listed
    rw [hgraph, Option.map_some, Option.some.injEq] at hhome
    obtain ⟨⟨pages, hpages⟩, hall⟩ := hlisted ⟨1, 2, false⟩ ⟨some 11, .incoming, none, 1⟩ hhome
      (by decide) rfl (by decide)
    exact ⟨hrun, pages, hpages, hall pages hpages⟩
  · have hrows : (Sample.refuted.jobs.get? 11).any (fun job =>
        job.grouping.graphDisposition = some .skipped) = true ∧
        (Sample.refuted.jobs.get? 11).map JobRow.progress = some (.terminal .aborted) := by
      decide
    obtain ⟨hdisposed, haborted⟩ := hrows
    obtain ⟨job, hjob, hd⟩ := Option.any_eq_true _ _ |>.mp hdisposed
    exact ⟨((dependencies_govern_dispatch Sample.refuted_arises).2 11 job .skipped hjob
      (of_decide_eq_true hd)).2.1, haborted⟩

end JobmanControl
