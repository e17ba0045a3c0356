import JobmanControl.Lifecycle.Propagation
import JobmanControl.Store.Idempotency

/-!
What the end of a job does to its group, and the two cancellation transactions.
Fail-fast and propagation are moves on other jobs; the jobs they touch lie in no
graph, or in the graph whose propagation loop runs last.
-/

namespace JobmanControl

open Relational Lifecycle Lifecycle.Board

variable {M : Licence}

variable {db db' : Db} {codec : Codec} {env : Env} {namespaceId j : Id} {view : GroupView}
  {J : JobFacts} {authorization : Except StoreError Authorization} {key digest : String}
  {result : Job}

namespace Lifecycle

/-- Nothing happened, or one job moved on without finishing. -/
inductive Furthers (M : Licence) (b : Board) : Board → Prop
  | nothing : Furthers M b b
  | one {b' : Board} {j : Id} {J : JobFacts} {p : JobPhase} : Moves M b b' → Only j b b' →
      b'.job j = some J → J.progress = .live p → Furthers M b b'

theorem Furthers.effect {locked : Id → Bool} {b b' : Board} (h : Furthers M b b') :
    Effect M locked b b' := by
  cases h with
  | nothing => exact .refl _ _
  | one hmoves honly hJ hp =>
      refine effect_of_live hmoves honly.edge honly.job ?_
      intro J' o hJ' ho
      cases hJ.symm.trans hJ'
      rw [hp] at ho
      cases ho

end Lifecycle

/-- A listing of unfinished jobs is current, and lists each job that meets its
condition once. -/
theorem listing_spec (le : Id × JobRow → Id × JobRow → Bool) (p : Id → JobRow → Bool)
    (hc : Coupled db.board) (hlive : ∀ k job, p k job = true → job.progress.isTerminal = false)
    (l : List CollectionSibling) (hl : l = (orderBy le (db.jobs.select p)).flatMap fun entry =>
      siblingRows db entry.1 entry.2) :
    (∀ s ∈ l, Current db.board s) ∧ (l.map (·.jobId)).Nodup ∧
      ∀ k, k ∈ l.map (·.jobId) ↔ ∃ job, db.jobs.get? k = some job ∧ p k job = true := by
  have hentries : ∀ entry, entry ∈ orderBy le (db.jobs.select p) ↔
      db.jobs.get? entry.1 = some entry.2 ∧ p entry.1 entry.2 = true := by
    intro entry
    rw [mem_orderBy, Table.mem_select]
  obtain ⟨hcur, hids⟩ := listing_current hc (orderBy le (db.jobs.select p)) (by
    intro entry hentry
    obtain ⟨hget, hp⟩ := (hentries entry).mp hentry
    exact ⟨hget, hlive _ _ hp⟩)
  subst hl
  refine ⟨hcur, ?_, ?_⟩
  · rw [hids]
    exact (nodup_map_orderBy _ _ _).mpr (Table.nodup_map_fst_select _ _)
  · intro k
    rw [hids, List.mem_map]
    constructor
    · rintro ⟨entry, hentry, rfl⟩
      exact ⟨entry.2, (hentries entry).mp hentry⟩
    · rintro ⟨job, hjob, hp⟩
      exact ⟨(k, job), (hentries (k, job)).mpr ⟨hjob, hp⟩, rfl⟩

theorem moves_cancelListing (le : Id × JobRow → Id × JobRow → Bool) (p : Id → JobRow → Bool)
    (hc : Coupled db.board) (hlive : ∀ k job, p k job = true → job.progress.isTerminal = false)
    (h : ((orderBy le (db.jobs.select p)).flatMap fun entry =>
      siblingRows db entry.1 entry.2).foldlM (cancelCollectionSibling codec env namespaceId) db =
        .ok db') :
    Moves M db.board db'.board ∧ db'.board.edge = db.board.edge ∧
      (∀ k, db'.board.job k ≠ db.board.job k → ∃ job, db.jobs.get? k = some job ∧ p k job = true) ∧
      ∀ k job, db.jobs.get? k = some job → p k job = true →
        ∃ J', db'.board.job k = some J' ∧ Cancels job.facts J' := by
  obtain ⟨hcur, hnodup, hmember⟩ := listing_spec le p hc hlive _ rfl
  obtain ⟨hmoves, hedge, hframe, hends⟩ := moves_cancelSiblings _ hc hcur hnodup h
  refine ⟨hmoves, hedge, ?_, ?_⟩
  · intro k hk
    rw [← hmember]
    by_contra hout
    exact hk (hframe k hout)
  · intro k job hjob hp
    obtain ⟨J, J', hJ, hJ', hcancels⟩ := hends k ((hmember k).mpr ⟨job, hjob, hp⟩)
    cases hJ.symm.trans (Db.board_job hjob)
    exact ⟨J', hJ', hcancels⟩

/-- A listing of unfinished jobs, none of them in a graph, that is still current. -/
structure Listed (b : Board) (l : List CollectionSibling) : Prop where
  current : ∀ s ∈ l, Current b s
  nodup : (l.map (·.jobId)).Nodup
  outside : ∀ s ∈ l, ∃ K, b.job s.jobId = some K ∧ K.grouping.graphId = none

/-- The listing of fail-fast returns other members of the collection. -/
theorem listed_failFastSiblings (hc : Coupled db.board) (collectionId j : Id) :
    Listed db.board (failFastSiblings db collectionId j) ∧
      ∀ s ∈ failFastSiblings db collectionId j, s.jobId ≠ j := by
  obtain ⟨hcur, hnodup, hmember⟩ := listing_spec _ _ hc (by
    intro k job hp
    simp only [Bool.and_eq_true, Bool.not_eq_true'] at hp
    exact hp.2) (failFastSiblings db collectionId j) rfl
  refine ⟨⟨hcur, hnodup, ?_⟩, ?_⟩
  · intro s hs
    obtain ⟨job, hjob, hp⟩ := (hmember s.jobId).mp (List.mem_map_of_mem hs)
    simp only [Bool.and_eq_true, decide_eq_true_eq] at hp
    refine ⟨job.facts, Db.board_job hjob, ?_⟩
    show job.grouping.graphId = none
    cases hgroup : job.grouping with
    | standalone | collection _ _ => rfl
    | graph _ _ _ =>
        rw [hgroup] at hp
        cases hp.1.1
  · intro s hs
    obtain ⟨job, -, hp⟩ := (hmember s.jobId).mp (List.mem_map_of_mem hs)
    simp only [Bool.and_eq_true, decide_eq_true_eq] at hp
    exact hp.1.2

theorem board_modify_collection (env : Env) (db : Db) (c : Id) :
    ({ db with collections := db.collections.modify c (CollectionRow.touch env) } : Db).board =
      db.board := by
  simp only [Db.board]
  rw [Table.map_get?_modify]
  intro collection
  rfl

theorem board_modify_graph (env : Env) (db : Db) (g : Id) :
    ({ db with graphs := db.graphs.modify g (GraphRow.touch env) } : Db).board = db.board := by
  simp only [Db.board]
  rw [Table.map_get?_modify, Table.map_get?_modify]
  · intro graph
    rfl
  · intro graph
    rfl

/-- Fail-fast moves children of the collection, which are in no graph. -/
theorem moves_applyCollectionCompletion {outcome : Outcome} (hc : Coupled db.board)
    (hlist : ∀ collectionId, Listed db.board (view.siblings db collectionId j))
    (h : applyCollectionCompletion codec env view namespaceId j outcome db = .ok db') :
    Moves M db.board db'.board ∧ db'.board.edge = db.board.edge ∧
      ∀ k, db'.board.job k ≠ db.board.job k →
        ∃ K, db.board.job k = some K ∧ K.grouping.graphId = none := by
  have hsame : ∀ b : Board, Moves M b b ∧ b.edge = b.edge ∧ ∀ k, b.job k ≠ b.job k →
      ∃ K, b.job k = some K ∧ K.grouping.graphId = none :=
    fun b => ⟨.refl, rfl, fun k hk => absurd rfl hk⟩
  unfold applyCollectionCompletion at h
  split at h
  · cases h
    exact hsame _
  split at h
  · cases h
    exact hsame _
  split at h
  · cases h
    exact hsame _
  rename_i collectionId _
  split at h
  · cases h
    exact hsame _
  split at h
  · simp only [bind_ok_iff, pure_ok_iff] at h
    obtain ⟨db₁, hcancel, rfl⟩ := h
    rw [board_modify_collection]
    have hlisted := hlist collectionId
    obtain ⟨hmoves, hedge, hframe, -⟩ :=
      moves_cancelSiblings _ hc hlisted.current hlisted.nodup hcancel
    refine ⟨hmoves, hedge, ?_⟩
    intro k hk
    have hmem : k ∈ (view.siblings db collectionId j).map (·.jobId) := by
      by_contra hout
      exact hk (hframe k hout)
    obtain ⟨s, hs, rfl⟩ := List.mem_map.mp hmem
    exact hlisted.outside s hs
  · cases h
    rw [board_modify_collection]
    exact hsame _

/-- Propagation moves nodes of the completed node's graph and leaves none of them
stuck, unless another transaction holds its row. -/
theorem moves_applyGraphCompletion (hc : Coupled db.board) (hw : Wired db.board)
    (hJ : db.board.job j = some J) (hns : J.namespaceId = namespaceId)
    (h : applyGraphCompletion codec env view namespaceId j db = .ok db') :
    Moves M db.board db'.board ∧ db'.board.edge = db.board.edge ∧
      (∀ k, db'.board.job k ≠ db.board.job k → ∃ K, db.board.job k = some K ∧
        K.grouping.graphId = J.grouping.graphId) ∧
      ∀ g, J.grouping.graphId = some g → ∀ k K, db'.board.job k = some K →
        K.grouping.graphId = some g → db'.board.Stuck k → view.locked k = true := by
  obtain ⟨job, hjob, rfl⟩ := Db.board_job_eq_some.mp hJ
  have hns' : ¬job.namespaceId ≠ namespaceId := not_not.mpr hns
  simp only [applyGraphCompletion, hjob, if_neg hns'] at h
  cases hg : job.grouping.graphId with
  | none =>
      simp only [hg] at h
      cases h
      refine ⟨.refl, rfl, fun k hk => absurd rfl hk, ?_⟩
      intro g hsome
      rw [show job.facts.grouping = job.grouping from rfl, hg] at hsome
      cases hsome
  | some g =>
      obtain ⟨policy, hpolicy⟩ := hw.published j job.facts g hJ hg
      obtain ⟨graph, hgraph, rfl⟩ := Option.map_eq_some_iff.mp hpolicy
      simp only [hg, hgraph, bind_ok_iff, pure_ok_iff] at h
      obtain ⟨db₁, hloop, rfl⟩ := h
      rw [board_modify_graph]
      obtain ⟨hmoves, hedge, hframe⟩ := moves_propagate _ hc hpolicy hloop
      refine ⟨hmoves, hedge, ?_, ?_⟩
      · intro k hk
        obtain ⟨K, hK, hKg⟩ := hframe k hk
        exact ⟨K, hK, hKg.trans hg.symm⟩
      · intro g' hg' k K hK hKg hstuck
        cases hg.symm.trans hg'
        have hdone := propagate_done _ (Table.count_le_length _ _) hloop
        exact propagationCandidate_none hdone hK hKg hstuck

theorem getJobById_ok {jobId : Id} {job : Job} (h : getJobById db namespaceId jobId = .ok job) :
    db.jobs.get? jobId = some job.row ∧ job.row.namespaceId = namespaceId := by
  simp only [getJobById, bind_ok_iff, need_ok_iff, ensure_ok_iff, pure_ok_iff] at h
  obtain ⟨row, hrow, _, hns, rfl⟩ := h
  exact ⟨hrow, hns⟩

theorem cancelJobExecution_eq {job : JobRow} {s : CollectionSibling}
    (h : siblingRows db j job = [s]) :
    cancelJobExecution codec env namespaceId j db =
      cancelCollectionSibling codec env namespaceId db s := by
  unfold siblingRows at h
  unfold cancelJobExecution Db.executionsOf
  split at h
  · rename_i hruns
    cases h
    simp only [hruns, List.flatMap_nil, List.head?_nil, cancelCollectionSibling]
  · rename_i hruns
    cases hsel : db.runs.select fun _ run => run.jobId = j with
    | nil => exact absurd hsel hruns
    | cons run rest =>
        rw [hsel, List.flatMap_cons] at h
        cases hexec : db.executions.select fun _ execution => execution.runId = run.1 with
        | nil =>
            simp only [hexec, List.singleton_append, List.cons.injEq] at h
            obtain ⟨rfl, hrest⟩ := h
            have hnil : rest = [] := by
              cases rest with
              | nil => rfl
              | cons run' _ =>
                  rw [List.flatMap_cons, List.append_eq_nil_iff] at hrest
                  split at hrest
                  · cases hrest.1
                  · rename_i hne
                    exact absurd (List.map_eq_nil_iff.mp hrest.1) hne
            simp only [hnil, hexec, List.flatMap_cons, List.map_nil, List.flatMap_nil,
              List.append_nil, List.head?_nil, cancelCollectionSibling]
        | cons execution _ =>
            simp only [hexec, List.map_cons, List.cons_append, List.cons.injEq] at h
            obtain ⟨rfl, -⟩ := h
            simp only [hexec, List.flatMap_cons, List.map_cons, List.cons_append, List.head?_cons,
              cancelCollectionSibling]

theorem effect_applyGraphCompletion {b : Board}
    (h : applyGraphCompletion codec env view namespaceId j db = .ok db') (hc : Coupled b)
    (hw : Wired b) (hmoves : Moves M b db.board) (hedge : db.board.edge = b.edge)
    (hchanged : ∀ k, db.board.job k ≠ b.job k → ∃ K, b.job k = some K ∧
      (K.grouping.graphId = none ∨ K.grouping.graphId = J.grouping.graphId))
    (hJ : db.board.job j = some J) (hns : J.namespaceId = namespaceId) :
    Effect M view.locked b db'.board := by
  obtain ⟨hrest, hedge', hframe, hdone⟩ :=
    moves_applyGraphCompletion (hmoves.coupled hc) (hmoves.wired hc hw) hJ hns h
  exact effect_of_completion hc hmoves hrest (hedge'.trans hedge) hchanged hframe hdone

/-- A cancellation that is not a replay, of a job that is neither finished nor asked to
stop: the job is cancelled, and if that ended it the rest of its graph is searched. -/
structure CancelsJob (codec : Codec) (env : Env) (view : GroupView) (namespaceId j : Id)
    (M : Licence) (J J' : JobFacts) (db db₂ db' : Db) : Prop where
  before : db.board.job j = some J
  live : ∃ p, J.progress = .live p
  moves : Moves M db.board db₂.board
  only : Only j db.board db₂.board
  after : db₂.board.job j = some J'
  sameNamespace : J'.namespaceId = namespaceId
  sameGraph : J'.grouping.graphId = J.grouping.graphId
  cancels : Cancels J J'
  ended : ∀ o, J'.progress = .terminal o →
    applyGraphCompletion codec env view namespaceId j db₂ = .ok db'
  pending : ∀ p, J'.progress = .live p → db' = db₂

theorem cancelJob_cases (hc : Coupled db.board)
    (h : cancelJob codec env view authorization j key digest db = .ok (result, db')) :
    ∃ granted, authorization = .ok granted ∧
      ((db'.board = db.board ∧ (db.idempotency.get?
          ⟨granted.namespaceId, granted.principalId, .jobsCancel, key⟩ = none →
          ∃ J, db.board.job j = some J ∧ ((∃ o, J.progress = .terminal o) ∨
            J.desiredState = .cancel))) ∨
        ∃ J J' db₂, CancelsJob codec env view granted.namespaceId j M J J' db db₂ db') := by
  simp only [cancelJob, bind_ok_iff, need_ok_iff] at h
  obtain ⟨auth, hauth, job, hjob, _, -, _, -, ⟨replayed, db₁⟩, hreserve, h⟩ := h
  refine ⟨auth, hauth, ?_⟩
  have hJ := Db.board_job hjob
  obtain ⟨t, rfl⟩ := reserveIdempotency_ok hreserve
  cases replayed with
  | some _ =>
      simp only [bind_ok_iff, pure_ok_iff] at h
      obtain ⟨_, -, _, -, heq⟩ := h
      cases heq
      refine Or.inl ⟨rfl, fun hfree => ?_⟩
      cases reserveIdempotency_free hreserve hfree
  | none =>
      simp only at h
      split at h
      · rename_i hclosed
        simp only [bind_ok_iff, pure_ok_iff] at h
        obtain ⟨db₂, hcomplete, _, -, heq⟩ := h
        obtain ⟨t', rfl⟩ := completeIdempotency_ok hcomplete
        cases heq
        refine Or.inl ⟨rfl, fun _ => ⟨_, hJ, hclosed.imp_left fun hterminal => ?_⟩⟩
        exact (Progress.isTerminal_iff _).mp hterminal
      · rename_i hopen
        rw [not_or] at hopen
        simp only [bind_ok_iff] at h
        obtain ⟨db₂, hcancel, db₃, hcomplete, job', hget', h⟩ := h
        obtain ⟨t', rfl⟩ := completeIdempotency_ok hcomplete
        obtain ⟨hjob', hns'⟩ := getJobById_ok hget'
        have hc₁ : Coupled ({ db with idempotency := t } : Db).board := hc
        have hlive := Bool.eq_false_iff.mpr hopen.1
        obtain ⟨s, hrows, hid, hcur⟩ := siblingRows_current hc₁ hjob hlive
        rw [cancelJobExecution_eq hrows] at hcancel
        obtain ⟨hmoves, honly, J, J', hJs, hJs', hcancels⟩ :=
          moves_cancelCollectionSibling (M := M) hc₁ hcur hcancel
        rw [hid] at honly hJs hJs'
        cases hJ.symm.trans hJs
        have hJ' := Db.board_job hjob'
        cases hJ'.symm.trans hJs'
        obtain ⟨K', hK', -, hsame, -⟩ := (hmoves.persists hc).job j _ hJ
        cases hK'.symm.trans hJ'
        refine Or.inr ⟨_, _, { db₂ with idempotency := t' }, hJ,
          (Progress.not_isTerminal_iff _).mp hlive, hmoves, honly, hJ', hns', hsame,
          hcancels, ?_, ?_⟩
        · intro o ho
          have hterminal : job'.row.progress.isTerminal = true :=
            (Progress.isTerminal_iff _).mpr ⟨o, ho⟩
          rw [if_pos hterminal] at h
          simp only [bind_ok_iff, pure_ok_iff] at h
          obtain ⟨db₄, hgraph, heq⟩ := h
          cases heq
          exact hgraph
        · intro p hp
          have hlive' : job'.row.progress.isTerminal = false :=
            (Progress.not_isTerminal_iff _).mpr ⟨p, hp⟩
          rw [if_neg (by rw [hlive']; exact Bool.false_ne_true)] at h
          cases h
          rfl

theorem CancelsJob.effect {J' : JobFacts} {db₂ : Db} (hc : Coupled db.board) (hw : Wired db.board)
    (h : CancelsJob codec env view namespaceId j M J J' db db₂ db') :
    Effect M view.locked db.board db'.board := by
  cases hJ' : J'.progress with
  | live p =>
      rw [h.pending p hJ']
      exact (Furthers.one h.moves h.only h.after hJ').effect
  | terminal o =>
      refine effect_applyGraphCompletion (h.ended o hJ') hc hw h.moves h.only.edge ?_ h.after
        h.sameNamespace
      intro k hk
      have hkj : k = j := by
        by_contra hne
        exact hk (h.only.job k hne)
      subst hkj
      exact ⟨J, h.before, Or.inr h.sameGraph.symm⟩

theorem effect_cancelJob (hc : Coupled db.board) (hw : Wired db.board)
    (h : cancelJob codec env view authorization j key digest db = .ok (result, db')) :
    Effect M view.locked db.board db'.board := by
  obtain ⟨granted, -, ⟨hsame, -⟩ | ⟨J, J', db₂, hcancels⟩⟩ := cancelJob_cases hc h
  · rw [hsame]
    exact .refl _ _
  · exact hcancels.effect hc hw

/-- A cancellation that is not a replay leaves its job waiting no more. -/
theorem cancelJob_ends {granted : Authorization} (hc : Coupled db.board) (hw : Wired db.board)
    (h : cancelJob codec env view (.ok granted) j key digest db = .ok (result, db'))
    (hfree : db.idempotency.get?
      ⟨granted.namespaceId, granted.principalId, .jobsCancel, key⟩ = none)
    (hJ' : db'.board.job j = some J) : J.progress ≠ .live .accepted := by
  intro hacc
  have heffect : Effect .nothing view.locked db.board db'.board := effect_cancelJob hc hw h
  obtain ⟨_, hgranted, ⟨hsame, hclosed⟩ | ⟨K, K', db₂, hcancels⟩⟩ :=
    cancelJob_cases (M := .nothing) hc h
  · cases hgranted
    rw [hsame] at hJ'
    obtain ⟨K, hK, ⟨o, ho⟩ | hcancel⟩ := hclosed hfree
    · cases hK.symm.trans hJ'
      rw [ho] at hacc
      cases hacc
    · cases hK.symm.trans hJ'
      rw [hc.waiting j J hJ' hacc] at hcancel
      cases hcancel
  · -- A job that waits afterwards has waited before and is as it was.
    cases (heffect.moves.persists hc).job_waiting j K J hcancels.before hJ' hacc
    obtain ⟨-, hended⟩ | ⟨hne, -⟩ := hcancels.cancels
    · have hmoves := (effect_applyGraphCompletion (M := .nothing) (b := db₂.board)
        (hcancels.ended _ hended) (hcancels.moves.coupled hc)
        (hcancels.moves.wired hc hw) .refl rfl (fun k hk => absurd rfl hk) hcancels.after
        hcancels.sameNamespace).moves
      cases hJ'.symm.trans
        ((hmoves.persists (hcancels.moves.coupled hc)).job_terminal j K' _ hcancels.after hended)
      rw [hended] at hacc
      cases hacc
    · exact hne hacc

/-- Cancelling a graph cancels the nodes its listing returned, or nothing. -/
theorem cancelGraph_cases {g : Id} {result : Graph}
    (h : cancelGraph codec env view authorization g key digest db = .ok (result, db')) :
    db'.board = db.board ∨ ∃ namespaceId t db₂, db'.board = db₂.board ∧
      (view.nodes { db with idempotency := t } g).foldlM
        (cancelCollectionSibling codec env namespaceId) { db with idempotency := t } = .ok db₂ := by
  simp only [cancelGraph, bind_ok_iff] at h
  obtain ⟨auth, -, graph, -, _, -, _, -, ⟨replayed, db₁⟩, hreserve, h⟩ := h
  obtain ⟨t, rfl⟩ := reserveIdempotency_ok hreserve
  cases replayed with
  | some _ =>
      simp only [bind_ok_iff, pure_ok_iff] at h
      obtain ⟨_, -, _, -, heq⟩ := h
      cases heq
      exact Or.inl rfl
  | none =>
      simp only [bind_ok_iff, pure_ok_iff] at h
      obtain ⟨db₂, hcancel, db₃, hcomplete, _, -, heq⟩ := h
      obtain ⟨t', rfl⟩ := completeIdempotency_ok hcomplete
      cases heq
      exact Or.inr ⟨auth.namespaceId, t, db₂, board_modify_graph env db₂ g, hcancel⟩

theorem effect_cancelGraph {locked : Id → Bool} {g : Id} {result : Graph} (hc : Coupled db.board)
    (h : cancelGraph codec env .alone authorization g key digest db = .ok (result, db')) :
    Effect M locked db.board db'.board := by
  obtain hsame | ⟨namespaceId, t, db₂, hboard, hcancel⟩ := cancelGraph_cases h
  · rw [hsame]
    exact .refl _ _
  have hc₁ : Coupled ({ db with idempotency := t } : Db).board := hc
  obtain ⟨hmoves, hedge, hframe, hends⟩ := moves_cancelListing _ _ hc₁ (by
    intro k job hp
    simp only [Bool.and_eq_true, Bool.not_eq_true'] at hp
    exact hp.2) hcancel
  rw [hboard]
  refine @effect_of_completion _ _ _ _ _ (some g) hc hmoves .refl hedge ?_
    (fun k hk => absurd rfl hk) ?_
  · intro k hk
    obtain ⟨job, hjob, hp⟩ := hframe k hk
    simp only [Bool.and_eq_true, decide_eq_true_eq] at hp
    exact ⟨job.facts, Db.board_job hjob, Or.inr hp.1⟩
  · intro g' hg' k K hK hKg hstuck
    cases hg'
    obtain ⟨K₁, hK₁, hacc⟩ := hstuck.waiting
    cases hK₁.symm.trans hK
    have hpresent : ∃ K₀, db.board.job k = some K₀ := by
      by_cases hsame : db₂.board.job k = db.board.job k
      · exact ⟨K, hsame.symm.trans hK⟩
      · obtain ⟨job, hjob, -⟩ := hframe k hsame
        exact ⟨job.facts, Db.board_job hjob⟩
    obtain ⟨K₀, hK₀⟩ := hpresent
    cases (hmoves.persists hc).job_waiting k K₀ K hK₀ hK hacc
    obtain ⟨job, hjob, rfl⟩ := Db.board_job_eq_some.mp hK₀
    obtain ⟨J, hJ, ⟨-, hended⟩ | ⟨hne, -⟩⟩ := hends k job hjob (by
      simp only [Bool.and_eq_true, decide_eq_true_eq, Bool.not_eq_true']
      exact ⟨hKg, (Progress.not_isTerminal_iff _).mpr ⟨_, hacc⟩⟩)
    · cases hK.symm.trans hJ
      rw [hacc] at hended
      cases hended
    · exact absurd hacc hne

end JobmanControl
