import JobmanControl.Library.Acyclic
import JobmanControl.Lifecycle.Arrival

/-!
How a dependency graph arrives: the graph is published, its nodes are put on the
board waiting, and its edges are drawn between them, all in one transaction. The
edges stored under the graph are the submitted ones, so an acyclic submission is
an acyclic relation between the stored jobs.
-/

namespace JobmanControl

open Relational Lifecycle Lifecycle.Board Function

def NodeReady (g j : Id) (b : Board) : Prop :=
  b.Enrolled g j ∧ ∃ J, b.job j = some J ∧ J.progress = .live .accepted ∧
    J.grouping.graphId = some g

/-- The edge was submitted, and the names it joins are those of the two jobs. -/
def SubmittedEdge (ids : GroupIds) (submission : GraphSubmission) (key : EdgeKey) : Prop :=
  key.graphId = ids.groupId ∧ ∃ edge ∈ submission.edges,
    jobByName ids submission.nodes edge.source = some key.upstreamJobId ∧
    jobByName ids submission.nodes edge.sink = some key.downstreamJobId

/-- What a graph submission that is not a replay leaves on the board. -/
structure GraphPublished (ids : GroupIds) (submission : GraphSubmission) (b b' : Board) :
    Prop where
  growth : Growth (·.graphId = some ids.groupId) b b'
  fresh : b.graph ids.groupId = none
  published : ∃ policy, b'.graph ids.groupId = some policy
  edges : ∀ key edge, b'.edge key = some edge →
    b.edge key = some edge ∨ SubmittedEdge ids submission key
  distinct : ∀ i k, i < submission.nodes.length → k < submission.nodes.length →
    ids.jobId i = ids.jobId k → i = k

section Submission

variable {codec : Codec} {env : Env} {queued : Db → Id → Nat} {authorization : Authorization}
  {db db' : Db}

variable {key : String} {ids : GroupIds} {submission : GraphSubmission}

theorem growth_insertGraphNode {entry : (JobSubmission × ResolvedPlacement) × Nat}
    (h : insertGraphNode codec env authorization key ids db entry = .ok db')
    (hpub : ∃ policy, db.board.graph ids.groupId = some policy) :
    ∃ J member, db.board.job (ids.jobId entry.2) = none ∧
      db.board.node (ids.groupId, entry.2) = none ∧
      Growth (·.graphId = some ids.groupId) db.board db'.board ∧
      J.progress = .live .accepted ∧ J.grouping.graphId = some ids.groupId ∧
      member.jobId = ids.jobId entry.2 ∧
      db'.board = { db.board.putJob (ids.jobId entry.2) J with
        node := update db.board.node (ids.groupId, entry.2) (some member) } := by
  obtain ⟨⟨node, placement⟩, index⟩ := entry
  simp only [insertGraphNode, bind_ok_iff, need_ok_iff] at h
  obtain ⟨db₁, hbound, nodes, hinsert, hevidence⟩ := h
  obtain ⟨J, hnone, hacc, hgroup, hboard, hgrowth⟩ := growth_insertBoundJob hbound rfl (by
    intro g hg
    cases hg
    exact hpub) (fun c hc => by cases hc)
  have hfree : db₁.board.node (ids.groupId, index) = none := Table.insert?_free hinsert
  have hview := Db.map_get?_insert id hinsert
  simp only [Option.map_id_fun, id_eq] at hview
  have hnodes : ({ db₁ with graphNodes := nodes } : Db).board = { db₁.board with
      node := update db₁.board.node (ids.groupId, index)
        (some ⟨node.name, ids.jobId index⟩) } := by
    simp only [Db.board, hview]
  rw [board_insertAcceptanceEvidence hevidence, hnodes]
  refine ⟨J, ⟨node.name, ids.jobId index⟩, hnone, ?_, ?_, hacc, by rw [hgroup]; rfl, rfl, ?_⟩
  · rw [hboard] at hfree
    exact hfree
  · refine (hgrowth.mono ?_).trans (growth_of_job_eq (.enrol _ hfree) rfl)
    rintro _ rfl
    rfl
  · rw [hboard]
    rfl

theorem growth_insertGraphNodes (l : List ((JobSubmission × ResolvedPlacement) × Nat))
    (hpub : ∃ policy, db.board.graph ids.groupId = some policy)
    (h : l.foldlM (insertGraphNode codec env authorization key ids) db = .ok db') :
    Growth (·.graphId = some ids.groupId) db.board db'.board ∧ db'.board.graph = db.board.graph ∧
      db'.board.edge = db.board.edge ∧
      (∀ entry ∈ l, NodeReady ids.groupId (ids.jobId entry.2) db'.board) ∧
      (l.map fun entry => ids.jobId entry.2).Nodup := by
  have hall := foldlM_ok_forall
    (P := fun d => Growth (·.graphId = some ids.groupId) db.board d.board ∧
      d.board.graph = db.board.graph ∧ d.board.edge = db.board.edge)
    (Q := fun entry d => NodeReady ids.groupId (ids.jobId entry.2) d.board) l (by
      rintro d entry d' - ⟨hd, hgraph, hedge⟩ hstep
      obtain ⟨J, member, hnone, hfree, hgrow, hacc, hg, hmember, hboard⟩ :=
        growth_insertGraphNode hstep (by rw [hgraph]; exact hpub)
      refine ⟨⟨hd.trans hgrow, ?_, ?_⟩, ?_, ?_⟩
      · rw [hboard]
        exact hgraph
      · rw [hboard]
        exact hedge
      · rw [hboard]
        refine ⟨⟨entry.2, member.name, ?_⟩, J, update_self _ _ _, hacc, hg⟩
        rw [← hmember]
        exact update_self _ _ _
      · rintro y ⟨⟨index, name, hk⟩, K, hK, hrest⟩
        rw [hboard]
        exact ⟨⟨index, name, update_keeps hfree hk⟩, K, update_keeps hnone hK, hrest⟩)
    ⟨.refl _, rfl, rfl⟩ h
  have hnodup := foldlM_ok_nodup (P := fun d => d.board.graph = db.board.graph)
    (Q := fun j d => d.board.job j ≠ none) (fun entry => ids.jobId entry.2) l (by
      intro d entry d' hgraph hstep
      obtain ⟨J, member, hnone, -, -, -, -, -, hboard⟩ :=
        growth_insertGraphNode hstep (by rw [hgraph]; exact hpub)
      have hnew : d'.board.job (ids.jobId entry.2) = some J := by
        rw [hboard]
        exact update_self _ _ _
      refine ⟨by rw [hboard]; exact hgraph, not_not.mpr hnone, by rw [hnew]; simp, ?_⟩
      intro k hk
      obtain ⟨K, hK⟩ := Option.ne_none_iff_exists'.mp hk
      have hkept : d'.board.job k = some K := by
        rw [hboard]
        exact update_keeps hnone hK
      rw [hkept]
      simp) rfl h
  exact ⟨hall.1.1, hall.1.2.1, hall.1.2.2, hall.2.1, hnodup.1⟩

theorem jobByName_some {nodes : List JobSubmission} {name : String} {j : Id}
    (h : jobByName ids nodes name = some j) :
    ∃ i node, nodes[i]? = some node ∧ node.name = name ∧ j = ids.jobId i := by
  obtain ⟨⟨node, i⟩, hfind, rfl⟩ := Option.map_eq_some_iff.mp h
  have hname := List.find?_some hfind
  have hmem := List.mk_mem_zipIdx_iff_getElem?.mp (List.mem_of_find?_eq_some hfind)
  exact ⟨i, node, hmem, of_decide_eq_true hname, rfl⟩

theorem growth_insertGraphEdge {nodes : List JobSubmission} {edge : GraphEdgeSubmission}
    (h : insertGraphEdge ids nodes db edge = .ok db')
    (hready : ∀ i, i < nodes.length → NodeReady ids.groupId (ids.jobId i) db.board) :
    ∃ u d, jobByName ids nodes edge.source = some u ∧ jobByName ids nodes edge.sink = some d ∧
      Growth (·.graphId = some ids.groupId) db.board db'.board ∧
      db'.board = { db.board with
        edge := update db.board.edge ⟨ids.groupId, u, d⟩
          (some ⟨edge.predicate, edge.outcomes⟩) } := by
  simp only [insertGraphEdge, bind_ok_iff, need_ok_iff, pure_ok_iff] at h
  obtain ⟨u, hup, d, hdown, _, -, _, -, edges, hinsert, rfl⟩ := h
  obtain ⟨i, _, hi, -, rfl⟩ := jobByName_some hup
  obtain ⟨k, _, hk, -, rfl⟩ := jobByName_some hdown
  obtain ⟨hup', U, hU, hUacc, hUg⟩ := hready i (List.getElem?_eq_some_iff.mp hi).1
  obtain ⟨hdown', D, hD, hDacc, hDg⟩ := hready k (List.getElem?_eq_some_iff.mp hk).1
  have hfree := Table.insert?_free hinsert
  have hview := Db.map_get?_insert id hinsert
  simp only [Option.map_id_fun, id_eq] at hview
  refine ⟨_, _, hup, hdown, ?_, ?_⟩
  · refine growth_of_job_eq ?_ rfl
    simp only [Db.board, hview]
    exact Move.link _ hfree hup' hdown' hU hUacc hUg hD hDacc hDg
  · simp only [Db.board, hview]

theorem growth_insertGraphEdges (hready : ∀ i, i < submission.nodes.length →
      NodeReady ids.groupId (ids.jobId i) db.board)
    (h : submission.edges.foldlM (insertGraphEdge ids submission.nodes) db = .ok db') :
    Growth (·.graphId = some ids.groupId) db.board db'.board ∧ db'.board.graph = db.board.graph ∧
      ∀ key edge, db'.board.edge key = some edge →
        db.board.edge key = some edge ∨ SubmittedEdge ids submission key := by
  obtain ⟨hgrowth, -, hgraph, hedges⟩ := foldlM_ok_induction
    (P := fun d => Growth (·.graphId = some ids.groupId) db.board d.board ∧
      (d.board.job = db.board.job ∧ d.board.node = db.board.node) ∧
      d.board.graph = db.board.graph ∧ ∀ key edge, d.board.edge key = some edge →
        db.board.edge key = some edge ∨ SubmittedEdge ids submission key) _ (by
      rintro d edge d' hmem ⟨hd, ⟨hjob, hnode⟩, hgraph, hedges⟩ hstep
      have hready' : ∀ i, i < submission.nodes.length →
          NodeReady ids.groupId (ids.jobId i) d.board := by
        intro i hi
        obtain ⟨⟨index, name, hk⟩, J, hJ, hrest⟩ := hready i hi
        exact ⟨⟨index, name, by rw [hnode]; exact hk⟩, J, by rw [hjob]; exact hJ, hrest⟩
      obtain ⟨u, v, hu, hv, hgrow, hboard⟩ := growth_insertGraphEdge hstep hready'
      refine ⟨hd.trans hgrow, by rw [hboard]; exact ⟨hjob, hnode⟩, by rw [hboard]; exact hgraph, ?_⟩
      intro key row hkey
      rw [hboard] at hkey
      obtain ⟨rfl, -⟩ | ⟨-, hold⟩ := update_cases hkey
      · exact Or.inr ⟨rfl, edge, hmem, hu, hv⟩
      · exact hedges key row hold)
    ⟨.refl _, ⟨rfl, rfl⟩, rfl, fun _ _ he => Or.inl he⟩ h
  exact ⟨hgrowth, hgraph, hedges⟩

/-- A graph submission is a replay, which writes nothing the board shows, or it
publishes the graph it describes. -/
theorem submitGraph_cases {auth : Except StoreError Authorization} {result : GraphResult}
    (h : submitGraph codec env queued auth key ids submission db = .ok (result, db')) :
    (result.replayed = true ∧ db'.board = db.board) ∨
      GraphPublished ids submission db.board db'.board := by
  simp only [submitGraph, bind_ok_iff] at h
  obtain ⟨_, -, _, -, authorization, -, ⟨replayed, db₁⟩, hreserve, h⟩ := h
  obtain ⟨t, rfl⟩ := reserveIdempotency_ok hreserve
  cases replayed with
  | some _ =>
      simp only [bind_ok_iff, pure_ok_iff, Prod.mk.injEq] at h
      obtain ⟨_, -, rfl, rfl⟩ := h
      exact Or.inl ⟨rfl, rfl⟩
  | none =>
      simp only [bind_ok_iff, need_ok_iff, pure_ok_iff, Prod.mk.injEq] at h
      obtain ⟨_, -, placements, hplacements, graphs, hinsert, db₂, hnodes, db₃, hedges, db₄,
        hcomplete, db₅, hout, _, -, rfl, rfl⟩ := h
      obtain ⟨t₃, rfl⟩ := completeIdempotency_ok hcomplete
      refine Or.inr ?_
      rw [Db.board_insertOutbox hout (by simp), Db.board_appendAudit]
      -- The graph is published first, so that nodes can be bound to it.
      have hnone := Table.insert?_free hinsert
      have hfree : db.board.graph ids.groupId = none := Option.map_eq_none_iff.mpr hnone
      generalize hpublished : ({ db with idempotency := t, graphs := graphs } : Db) = dbg at hnodes
      have hboardg : dbg.board = { db.board with
          graph := update db.board.graph ids.groupId
            (some submission.unsatisfiedPolicy)
          graphLimit := update db.board.graphLimit ids.groupId
            (some submission.maxActive.toNat) } := by
        rw [← hpublished]
        simp only [Db.board, Db.map_get?_insert GraphRow.unsatisfiedPolicy hinsert,
          Db.map_get?_insert GraphRow.maxActive hinsert]
      have hgrowth₁ : Growth (·.graphId = some ids.groupId) db.board dbg.board := by
        rw [hboardg]
        exact growth_of_job_eq
          (.publishGraph _ _ hfree (Option.map_eq_none_iff.mpr hnone)) rfl
      have hpub : ∃ policy, dbg.board.graph ids.groupId = some policy := by
        rw [hboardg]
        exact ⟨_, update_self _ _ _⟩
      obtain ⟨hgrowth₂, hgraph₂, hedge₂, hready, hnodup⟩ := growth_insertGraphNodes _ hpub hnodes
      have hlength : (submission.nodes.zip placements).length = submission.nodes.length := by
        rw [List.length_zip, mapM_ok_length _ hplacements, min_self]
      obtain ⟨hgrowth₃, hgraph₃, hedges₃⟩ := growth_insertGraphEdges (by
        intro i hi
        rw [← hlength] at hi
        exact hready _ (List.mk_mem_zipIdx_iff_getElem?.mpr (List.getElem?_eq_getElem hi))) hedges
      refine ⟨hgrowth₁.trans (hgrowth₂.trans hgrowth₃), hfree, ?_, ?_, ?_⟩
      · show ∃ policy, db₃.board.graph ids.groupId = some policy
        rw [hgraph₃, hgraph₂]
        exact hpub
      · intro k edge hk
        obtain hold | hnew := hedges₃ k edge hk
        · rw [hedge₂, hboardg] at hold
          exact Or.inl hold
        · exact Or.inr hnew
      · intro i k hi hk hsame
        rw [← hlength] at hi hk
        rw [List.nodup_iff_injective_getElem] at hnodup
        have hinj := @hnodup ⟨i, by simpa using hi⟩ ⟨k, by simpa using hk⟩ (by simpa using hsame)
        simpa using hinj

theorem effect_submitGraph {locked : Id → Bool} {auth : Except StoreError Authorization}
    {result : GraphResult}
    (h : submitGraph codec env queued auth key ids submission db = .ok (result, db')) :
    Effect .submission locked db.board db'.board := by
  obtain ⟨-, hsame⟩ | hpub := submitGraph_cases h
  · rw [hsame]
    exact .refl _ _
  · refine hpub.growth.effect fun key edge he => ?_
    obtain hold | ⟨hg, -⟩ := hpub.edges key edge he
    · exact Or.inl hold
    · rw [hg]
      exact Or.inr hpub.fresh

end Submission

section Acyclic

/-- The submitted edges, as a relation between node names. -/
def GraphSubmission.Before (submission : GraphSubmission) (a b : String) : Prop :=
  ∃ edge ∈ submission.edges, edge.source = a ∧ edge.sink = b

/-- The stored edges of a graph, as a relation between jobs. -/
def Lifecycle.Board.Upstream (b : Board) (g : Id) (u d : Id) : Prop :=
  ∃ edge, b.edge ⟨g, u, d⟩ = some edge

variable {ids : GroupIds} {submission : GraphSubmission} {b : Board}

theorem jobByName_injective
    (hdistinct : ∀ i k, i < submission.nodes.length → k < submission.nodes.length →
      ids.jobId i = ids.jobId k → i = k) {name name' : String} {j : Id}
    (h : jobByName ids submission.nodes name = some j)
    (h' : jobByName ids submission.nodes name' = some j) : name = name' := by
  obtain ⟨i, node, hi, rfl, rfl⟩ := jobByName_some h
  obtain ⟨k, node', hk, rfl, hsame⟩ := jobByName_some h'
  have hik := hdistinct i k (List.getElem?_eq_some_iff.mp hi).1
    (List.getElem?_eq_some_iff.mp hk).1 hsame
  subst hik
  cases hi.symm.trans hk
  rfl

/-- Stored edges that were submitted have no cycle if the submission has none. -/
theorem acyclic_of_submission
    (hdistinct : ∀ i k, i < submission.nodes.length → k < submission.nodes.length →
      ids.jobId i = ids.jobId k → i = k)
    (hedges : ∀ key edge, b.edge key = some edge → key.graphId = ids.groupId →
      SubmittedEdge ids submission key)
    (hacyclic : Acyclic submission.Before) : Acyclic (b.Upstream ids.groupId) := by
  refine hacyclic.of_naming (f := jobByName ids submission.nodes)
    (fun _ _ _ => jobByName_injective hdistinct) ?_
  rintro u d ⟨edge, he⟩
  obtain ⟨-, e, hmem, hu, hd⟩ := hedges _ edge he rfl
  exact ⟨e.source, e.sink, hu, hd, e, hmem, rfl, rfl⟩

end Acyclic

end JobmanControl
