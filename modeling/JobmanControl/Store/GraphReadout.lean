import Mathlib.Data.Prod.Lex
import JobmanControl.Library.Paging
import JobmanControl.Store.Dispatch
import JobmanControl.Store.Submission

/-!
The read-outs of graph dependencies. Both queries write the edge predicate out
again: the dependencies of one node, and the paged listing of a graph's edges
with the state of each.
-/

namespace JobmanControl

open Relational

/-- One row of `loadGraphDependencies`; the last column may be null in SQL. -/
structure GraphDependency where
  source : String
  predicate : EdgePredicate
  outcomes : List Outcome
  satisfied : Truth
  deriving DecidableEq, Repr

def loadGraphDependencies (db : Db) (graphId downstreamId : Id) : List GraphDependency :=
  (orderBy (fun a b => decide (a.1 ≤ b.1))
    ((db.graphEdges.select fun key _ =>
        key.graphId = graphId && key.downstreamJobId = downstreamId).flatMap fun edge =>
      match db.jobs.get? edge.1.upstreamJobId with
      | none => []
      | some upstream =>
          (db.graphNodes.select fun _ node => node.jobId = edge.1.upstreamJobId).map fun node =>
            (node.1.2,
              { source := node.2.name
                predicate := edge.2.predicate
                outcomes := edge.2.outcomes
                satisfied := edge.2.dependencySatisfied upstream }))).map Prod.snd

inductive EdgeDirection
  | both | incoming | outgoing
  deriving DecidableEq, Repr

structure GraphEdgeOptions where
  nodeId : Option Id
  direction : EdgeDirection
  after : Option (Id × Id)
  limit : Nat
  deriving DecidableEq, Repr

structure GraphEdgeSnapshot where
  source : String
  sink : String
  fromJobId : Id
  toJobId : Id
  predicate : EdgePredicate
  outcomes : List Outcome
  upstreamProgress : Progress JobPhase Outcome
  state : EdgeState
  deriving DecidableEq, Repr

structure GraphEdgePage where
  total : Nat
  items : List GraphEdgeSnapshot
  next : Option (Id × Id)
  deriving DecidableEq, Repr

def validGraphEdgeOptions (options : GraphEdgeOptions) : Bool :=
  1 ≤ options.limit && options.limit ≤ 500 &&
    (options.direction = .both || options.nodeId.isSome)

def GraphEdgeOptions.matches (options : GraphEdgeOptions) (key : EdgeKey) : Bool :=
  match options.nodeId with
  | none => true
  | some nodeId =>
      (options.direction ≠ .outgoing && key.downstreamJobId = nodeId) ||
        (options.direction ≠ .incoming && key.upstreamJobId = nodeId)

/-- `(a, b) > (c, d)` on the two uuid columns. -/
def pairAfter (a b : Id × Id) : Bool := b.1 < a.1 || (b.1 = a.1 && b.2 < a.2)

def GraphEdgeOptions.beyond (options : GraphEdgeOptions) (key : EdgeKey) : Bool :=
  match options.after with
  | none => true
  | some after => pairAfter (key.upstreamJobId, key.downstreamJobId) after

/-- `graphEdgesSelect`: each edge with its upstream and the names of both nodes. -/
def graphEdgesSelect (db : Db) (p : EdgeKey → Bool) : List GraphEdgeSnapshot :=
  (db.graphEdges.select fun key _ => p key).flatMap fun (key, edge) =>
    match db.jobs.get? key.upstreamJobId with
    | none => []
    | some upstream =>
        (db.graphNodes.select fun k node =>
            k.1 = key.graphId && node.jobId = key.upstreamJobId).flatMap fun source =>
          (db.graphNodes.select fun k node =>
              k.1 = key.graphId && node.jobId = key.downstreamJobId).map fun sink =>
            { source := source.2.name
              sink := sink.2.name
              fromJobId := key.upstreamJobId
              toJobId := key.downstreamJobId
              predicate := edge.predicate
              outcomes := edge.outcomes
              upstreamProgress := upstream.progress
              state := edge.edgeState upstream }

def listGraphEdges (db : Db) (authorization : Except StoreError Authorization) (graphId : Id)
    (options : GraphEdgeOptions) : Except StoreError GraphEdgePage := do
  ensure (validGraphEdgeOptions options) (.invalid "graph dependency query is invalid")
  let authorization ← authorization
  let graph ← need (db.graphs.get? graphId) .notFound
  ensure (graph.namespaceId = authorization.namespaceId) .notFound
  ensure (∀ nodeId ∈ options.nodeId,
    db.graphNodes.any fun k node => k.1 = graphId && node.jobId = nodeId) .notFound
  let total := db.graphEdges.count fun key _ => key.graphId = graphId && options.matches key
  let rows := (orderBy (fun a b => !pairAfter (a.fromJobId, a.toJobId) (b.fromJobId, b.toJobId))
    (graphEdgesSelect db fun key => key.graphId = graphId && options.matches key &&
      options.beyond key)).take (options.limit + 1)
  if rows.length > options.limit then
    let items := rows.take options.limit
    pure ⟨total, items, items.getLast?.map fun last => (last.fromJobId, last.toJobId)⟩
  else pure ⟨total, rows, none⟩

section Rows

variable {db : Db}

theorem mem_loadGraphDependencies {g d : Id} {row : GraphDependency} :
    row ∈ loadGraphDependencies db g d ↔ ∃ key edge upstream g' i node,
      db.graphEdges.get? key = some edge ∧ key.graphId = g ∧ key.downstreamJobId = d ∧
      db.jobs.get? key.upstreamJobId = some upstream ∧ db.graphNodes.get? (g', i) = some node ∧
      node.jobId = key.upstreamJobId ∧
      row = ⟨node.name, edge.predicate, edge.outcomes, edge.dependencySatisfied upstream⟩ := by
  simp only [loadGraphDependencies, List.mem_map, mem_orderBy, List.mem_flatMap, Prod.exists,
    Table.mem_select, Bool.and_eq_true, decide_eq_true_eq]
  constructor
  · rintro ⟨index, row', ⟨key, edge, ⟨hedge, hg, hd⟩, hrow⟩, rfl⟩
    split at hrow
    · cases hrow
    · rename_i upstream hup
      obtain ⟨⟨⟨g', i⟩, node⟩, hnode, heq⟩ := List.mem_map.mp hrow
      obtain ⟨hget, hjob⟩ := (Table.mem_select _ _ _ _).mp hnode
      cases heq
      exact ⟨key, edge, upstream, g', i, node, hedge, hg, hd, hup, hget, of_decide_eq_true hjob,
        rfl⟩
  · rintro ⟨key, edge, upstream, g', i, node, hedge, hg, hd, hup, hget, hjob, rfl⟩
    refine ⟨i, _, ⟨key, edge, ⟨hedge, hg, hd⟩, ?_⟩, rfl⟩
    rw [hup]
    exact List.mem_map.mpr
      ⟨((g', i), node), (Table.mem_select _ _ _ _).mpr ⟨hget, by simp [hjob]⟩, rfl⟩

theorem mem_graphEdgesSelect {p : EdgeKey → Bool} {row : GraphEdgeSnapshot} :
    row ∈ graphEdgesSelect db p ↔ ∃ key edge upstream i source k sink,
      db.graphEdges.get? key = some edge ∧ p key = true ∧
      db.jobs.get? key.upstreamJobId = some upstream ∧
      db.graphNodes.get? (key.graphId, i) = some ⟨source, key.upstreamJobId⟩ ∧
      db.graphNodes.get? (key.graphId, k) = some ⟨sink, key.downstreamJobId⟩ ∧
      row = ⟨source, sink, key.upstreamJobId, key.downstreamJobId, edge.predicate, edge.outcomes,
        upstream.progress, edge.edgeState upstream⟩ := by
  simp only [graphEdgesSelect, List.mem_flatMap, Prod.exists, Table.mem_select]
  constructor
  · rintro ⟨key, edge, ⟨hedge, hp⟩, hrow⟩
    split at hrow
    · cases hrow
    · rename_i upstream hup
      obtain ⟨⟨⟨g₁, i⟩, source⟩, hsource, hrow⟩ := List.mem_flatMap.mp hrow
      obtain ⟨⟨⟨g₂, k⟩, sink⟩, hsink, rfl⟩ := List.mem_map.mp hrow
      obtain ⟨hs, hs'⟩ := (Table.mem_select _ _ _ _).mp hsource
      obtain ⟨ht, ht'⟩ := (Table.mem_select _ _ _ _).mp hsink
      simp only [Bool.and_eq_true, decide_eq_true_eq] at hs' ht'
      obtain ⟨rfl, hsjob⟩ := hs'
      obtain ⟨rfl, htjob⟩ := ht'
      obtain ⟨sname, sjob⟩ := source
      obtain ⟨tname, tjob⟩ := sink
      cases hsjob
      cases htjob
      exact ⟨key, edge, upstream, i, sname, k, tname, hedge, hp, hup, hs, ht, rfl⟩
  · rintro ⟨key, edge, upstream, i, source, k, sink, hedge, hp, hup, hs, ht, rfl⟩
    refine ⟨key, edge, ⟨hedge, hp⟩, ?_⟩
    rw [hup]
    refine List.mem_flatMap.mpr ⟨((key.graphId, i), ⟨source, key.upstreamJobId⟩), ?_, ?_⟩
    · exact (Table.mem_select _ _ _ _).mpr ⟨hs, by simp⟩
    · refine List.mem_map.mpr ⟨((key.graphId, k), ⟨sink, key.downstreamJobId⟩), ?_, rfl⟩
      exact (Table.mem_select _ _ _ _).mpr ⟨ht, by simp⟩

theorem graphEdgesSelect_and (p : EdgeKey → Bool) (q : Id × Id → Bool) :
    (graphEdgesSelect db fun key => p key && q (key.upstreamJobId, key.downstreamJobId)) =
      (graphEdgesSelect db p).filter fun row => q (row.fromJobId, row.toJobId) := by
  refine flatMap_filter_and (l := db.graphEdges.entries) (p := fun entry => p entry.1)
    (q := fun entry => q (entry.1.upstreamJobId, entry.1.downstreamJobId)) ?_
  rintro ⟨key, edge⟩ - row hrow
  dsimp only at hrow
  split at hrow
  · cases hrow
  · obtain ⟨source, -, hrow⟩ := List.mem_flatMap.mp hrow
    obtain ⟨sink, -, rfl⟩ := List.mem_map.mp hrow
    rfl

end Rows

section Pages

variable {db : Db} {g : Id} {options : GraphEdgeOptions}

def GraphEdgeSnapshot.place (row : GraphEdgeSnapshot) : Id ×ₗ Id :=
  toLex (row.fromJobId, row.toJobId)

def listedEdges (db : Db) (g : Id) (options : GraphEdgeOptions) : List GraphEdgeSnapshot :=
  graphEdgesSelect db fun key => key.graphId = g && options.matches key

theorem pairAfter_eq (a b : Id × Id) : pairAfter a b = decide (toLex b < toLex a) := by
  rw [Bool.eq_iff_iff]
  simp [pairAfter, Prod.Lex.lt_iff]

theorem orderBy_listedEdges :
    orderBy (fun a b => !pairAfter (a.fromJobId, a.toJobId) (b.fromJobId, b.toJobId))
        (graphEdgesSelect db fun key => key.graphId = g && options.matches key &&
          options.beyond key) =
      rowsAfter GraphEdgeSnapshot.place (listedEdges db g options) (options.after.map toLex) := by
  have horder : (fun a b : GraphEdgeSnapshot =>
      !pairAfter (a.fromJobId, a.toJobId) (b.fromJobId, b.toJobId)) =
        fun a b => decide (a.place ≤ b.place) := by
    funext a b
    rw [pairAfter_eq, ← decide_not, Bool.eq_iff_iff]
    simp only [not_lt, decide_eq_true_eq]
    rfl
  have hbeyond : ∀ key : EdgeKey, options.beyond key = (options.after.map toLex).all fun k =>
      decide (k < toLex (key.upstreamJobId, key.downstreamJobId)) := by
    intro key
    unfold GraphEdgeOptions.beyond
    cases options.after with
    | none => rfl
    | some after => exact pairAfter_eq _ _
  simp only [horder, hbeyond]
  exact congrArg (orderBy _) (graphEdgesSelect_and _ fun pair =>
    (options.after.map toLex).all fun k => decide (k < toLex pair))

/-- A caller of the namespace gets the first rows after the cursor. -/
theorem listGraphEdges_eq {authorization : Authorization} {graph : GraphRow}
    (hvalid : validGraphEdgeOptions options = true) (hgraph : db.graphs.get? g = some graph)
    (hnamespace : graph.namespaceId = authorization.namespaceId)
    (hnode : ∀ nodeId ∈ options.nodeId,
      db.graphNodes.any (fun k node => k.1 = g && node.jobId = nodeId) = true) :
    let rows := rowsAfter GraphEdgeSnapshot.place (listedEdges db g options)
      (options.after.map toLex)
    listGraphEdges db (.ok authorization) g options = .ok
      { total := db.graphEdges.count fun key _ => key.graphId = g && options.matches key
        items := rows.take options.limit
        next := if options.limit < rows.length then
          (rows.take options.limit).getLast?.map fun last => (last.fromJobId, last.toJobId)
        else none } := by
  intro rows
  have htake : (rows.take (options.limit + 1)).take options.limit = rows.take options.limit := by
    rw [List.take_take, Nat.min_eq_left (Nat.le_succ _)]
  have hlength : (rows.take (options.limit + 1)).length > options.limit ↔
      options.limit < rows.length := by
    rw [List.length_take]
    omega
  simp only [listGraphEdges, ensure_of_true hvalid, ok_bind, need_of_eq_some hgraph,
    ensure_of_true hnamespace, ensure_of_true hnode, orderBy_listedEdges]
  by_cases hmore : options.limit < rows.length
  · rw [if_pos (hlength.mpr hmore), if_pos hmore, htake]
    rfl
  · rw [if_neg fun h => hmore (hlength.mp h), if_neg hmore, ← htake,
      List.take_of_length_le (Nat.le_of_not_lt fun h => hmore (hlength.mp h))]
    rfl

theorem mem_listGraphEdges {authorization : Except StoreError Authorization}
    {page : GraphEdgePage} {row : GraphEdgeSnapshot}
    (h : listGraphEdges db authorization g options = .ok page) (hrow : row ∈ page.items) :
    row ∈ listedEdges db g options := by
  have hchecks := h
  simp only [listGraphEdges, bind_ok_iff, ensure_ok_iff, need_ok_iff] at hchecks
  obtain ⟨-, hvalid, granted, rfl, graph, hgraph, -, hnamespace, -, hnode, -⟩ := hchecks
  rw [listGraphEdges_eq hvalid hgraph hnamespace hnode] at h
  cases h
  exact (mem_rowsAfter.mp (List.mem_of_mem_take hrow)).1

/-- The pages of a listing, read one after the other. -/
def EdgePages (db : Db) (authorization : Except StoreError Authorization) (g : Id)
    (options : GraphEdgeOptions) : List GraphEdgePage → Prop :=
  Pages (fun after => listGraphEdges db authorization g { options with after := after })
    GraphEdgePage.next options.after

/-- A caller of the namespace comes to the end of the listing and has then seen every row
it is made of. -/
theorem edgePages_cover {authorization : Authorization} {graph : GraphRow}
    (hvalid : validGraphEdgeOptions options = true) (hafter : options.after = none)
    (hgraph : db.graphs.get? g = some graph)
    (hnamespace : graph.namespaceId = authorization.namespaceId)
    (hnode : ∀ nodeId ∈ options.nodeId,
      db.graphNodes.any (fun k node => k.1 = g && node.jobId = nodeId) = true) :
    ∃ pages, EdgePages db (.ok authorization) g options pages ∧
      ∀ row ∈ listedEdges db g options, ∃ page ∈ pages, ∃ row' ∈ page.items,
        row'.fromJobId = row.fromJobId ∧ row'.toJobId = row.toJobId := by
  have hlimit : 0 < options.limit := by
    simp only [validGraphEdgeOptions, Bool.and_eq_true, decide_eq_true_eq] at hvalid
    exact hvalid.1.1
  obtain ⟨pages, hpages, hcover⟩ := pages_cover GraphEdgeSnapshot.place
    (listedEdges db g options) hlimit
    (fun after => listGraphEdges db (.ok authorization) g { options with after := after })
    GraphEdgePage.next GraphEdgePage.items toLex
    (fun after => ⟨_, listGraphEdges_eq hvalid hgraph hnamespace hnode, rfl, by
      rw [apply_ite (Option.map toLex), Option.map_map]
      rfl⟩) options.after
  refine ⟨pages, hpages, fun row hrow => ?_⟩
  obtain ⟨page, hpage, row', hrow', hplace⟩ := hcover row (mem_rowsAfter.mpr
    ⟨hrow, fun k hk => by rw [hafter] at hk; cases hk⟩)
  have hpair := toLex.injective hplace
  exact ⟨page, hpage, row', hrow', congrArg Prod.fst hpair, congrArg Prod.snd hpair⟩

end Pages

end JobmanControl
