import JobmanControl.Catalog.Targets
import JobmanControl.Lifecycle.Statements
import JobmanControl.Lifecycle.Wiring

/-!
What belongs to what. The roster of a store has, for each row, the columns that are
written with it and never again: the group and target of a job, the job of a run, the run
and agent of an execution, the execution of an assignment, the target of an agent. Every
call adds entries to the roster one after another, or changes the states of targets. An
entry that names a target is added only while the target is active, and what an entry
belongs to lies in the same namespace.
-/

namespace JobmanControl

open Relational Lifecycle Lifecycle.Board Function

variable {t id : Id} {call : ServiceCall}

structure ExecutionIdentity where
  namespaceId : Id
  runId : Id
  agentId : Id
  targetId : Id
  targetGenerationId : Id
  deriving DecidableEq

structure AssignmentIdentity where
  namespaceId : Id
  executionId : Id
  agentId : Id
  deriving DecidableEq

def ExecutionRow.identity (row : ExecutionRow) : ExecutionIdentity :=
  ⟨row.namespaceId, row.runId, row.agentId, row.targetId, row.targetGenerationId⟩

def AssignmentRow.identity (row : AssignmentRow) : AssignmentIdentity :=
  ⟨row.namespaceId, row.executionId, row.agentId⟩

structure Roster where
  target : Id → Option TargetState
  agent : Id → Option AgentBinding
  collection : Id → Option Id
  graph : Id → Option Id
  job : Id → Option JobIdentity
  run : Id → Option RunIdentity
  execution : Id → Option ExecutionIdentity
  assignment : Id → Option AssignmentIdentity

def Db.roster (db : Db) : Roster where
  target t := (db.targets.get? t).map TargetRow.state
  agent a := (db.agents.get? a).map AgentRow.binding
  collection c := (db.collections.get? c).map CollectionRow.namespaceId
  graph g := (db.graphs.get? g).map GraphRow.namespaceId
  job j := (db.jobs.get? j).map JobRow.identity
  run r := (db.runs.get? r).map RunRow.identity
  execution e := (db.executions.get? e).map ExecutionRow.identity
  assignment a := (db.assignments.get? a).map AssignmentRow.identity

namespace Roster

/-- One entry is added. -/
inductive Step (b : Roster) : Roster → Prop
  | gather (c namespaceId : Id) : b.collection c = none →
      Step b { b with collection := update b.collection c (some namespaceId) }
  | chart (g namespaceId : Id) : b.graph g = none →
      Step b { b with graph := update b.graph g (some namespaceId) }
  | enter (j : Id) (x : JobIdentity) : b.job j = none → b.target x.targetId = some .active →
      (∀ c, x.collectionId = some c → b.collection c = some x.namespaceId) →
      (∀ g, x.graphId = some g → b.graph g = some x.namespaceId) →
      Step b { b with job := update b.job j (some x) }
  | begin (r : Id) (x : RunIdentity) : b.run r = none →
      (∃ y, b.job x.jobId = some y ∧ y.namespaceId = x.namespaceId) →
      Step b { b with run := update b.run r (some x) }
  | dispatch (e : Id) (x : ExecutionIdentity) : b.execution e = none →
      (∃ y, b.run x.runId = some y ∧ y.namespaceId = x.namespaceId) →
      (∃ y, b.agent x.agentId = some y ∧ y.namespaceId = x.namespaceId ∧
        y.targetId = x.targetId ∧ y.targetGenerationId = x.targetGenerationId) →
      b.target x.targetId = some .active →
      Step b { b with execution := update b.execution e (some x) }
  | offer (a : Id) (x : AssignmentIdentity) : b.assignment a = none →
      (∃ y, b.execution x.executionId = some y ∧ y.namespaceId = x.namespaceId ∧
        y.agentId = x.agentId ∧ b.target y.targetId = some .active) →
      Step b { b with assignment := update b.assignment a (some x) }
  | enroll (a : Id) (x : AgentBinding) : b.agent a = none → b.target x.targetId = some .active →
      Step b { b with agent := update b.agent a (some x) }

/-- Entries are added, one after another. -/
abbrev Grows : Roster → Roster → Prop := Relation.ReflTransGen Step

/-- Every entry of one roster belongs to an entry of the other, in its own namespace. -/
structure BoundIn (b b' : Roster) : Prop where
  collection : ∀ j x c, b.job j = some x → x.collectionId = some c →
    b'.collection c = some x.namespaceId
  graph : ∀ j x g, b.job j = some x → x.graphId = some g → b'.graph g = some x.namespaceId
  run : ∀ r x, b.run r = some x → ∃ y, b'.job x.jobId = some y ∧ y.namespaceId = x.namespaceId
  execution : ∀ e x, b.execution e = some x →
    ∃ y, b'.run x.runId = some y ∧ y.namespaceId = x.namespaceId
  agent : ∀ e x, b.execution e = some x → ∃ y, b'.agent x.agentId = some y ∧
    y.namespaceId = x.namespaceId ∧ y.targetId = x.targetId ∧
    y.targetGenerationId = x.targetGenerationId
  assignment : ∀ a x, b.assignment a = some x → ∃ y, b'.execution x.executionId = some y ∧
    y.namespaceId = x.namespaceId ∧ y.agentId = x.agentId

def Bound (b : Roster) : Prop :=
  b.BoundIn b

/-- The entries of one roster are entries of the other. -/
structure Extends (b b' : Roster) : Prop where
  agent : ∀ a x, b.agent a = some x → b'.agent a = some x
  collection : ∀ c x, b.collection c = some x → b'.collection c = some x
  graph : ∀ g x, b.graph g = some x → b'.graph g = some x
  job : ∀ j x, b.job j = some x → b'.job j = some x
  run : ∀ r x, b.run r = some x → b'.run r = some x
  execution : ∀ e x, b.execution e = some x → b'.execution e = some x
  assignment : ∀ a x, b.assignment a = some x → b'.assignment a = some x

theorem Extends.refl (b : Roster) : b.Extends b := by
  constructor <;> exact fun _ _ h => h

theorem Extends.trans {b b' b'' : Roster} (h : b.Extends b') (h' : b'.Extends b'') :
    b.Extends b'' :=
  ⟨fun a x hx => h'.agent a x (h.agent a x hx),
    fun c x hx => h'.collection c x (h.collection c x hx),
    fun g x hx => h'.graph g x (h.graph g x hx), fun j x hx => h'.job j x (h.job j x hx),
    fun r x hx => h'.run r x (h.run r x hx), fun e x hx => h'.execution e x (h.execution e x hx),
    fun a x hx => h'.assignment a x (h.assignment a x hx)⟩

variable {b b' : Roster}

theorem Step.extend (h : Step b b') : b.Extends b' := by
  have hrefl := Extends.refl b
  cases h with
  | gather c n hfree => exact { hrefl with collection := fun _ _ => update_keeps hfree }
  | chart g n hfree => exact { hrefl with graph := fun _ _ => update_keeps hfree }
  | enter j x hfree => exact { hrefl with job := fun _ _ => update_keeps hfree }
  | begin r x hfree => exact { hrefl with run := fun _ _ => update_keeps hfree }
  | dispatch e x hfree => exact { hrefl with execution := fun _ _ => update_keeps hfree }
  | offer a x hfree => exact { hrefl with assignment := fun _ _ => update_keeps hfree }
  | enroll a x hfree => exact { hrefl with agent := fun _ _ => update_keeps hfree }

theorem Extends.boundIn (h : b.Extends b') (hbound : b.Bound) : b.BoundIn b' := by
  refine ⟨?_, ?_, ?_, ?_, ?_, ?_⟩
  · exact fun j x c hx hc => h.collection _ _ (hbound.collection j x c hx hc)
  · exact fun j x g hx hg => h.graph _ _ (hbound.graph j x g hx hg)
  · intro r x hx
    obtain ⟨y, hy, hrest⟩ := hbound.run r x hx
    exact ⟨y, h.job _ _ hy, hrest⟩
  · intro e x hx
    obtain ⟨y, hy, hrest⟩ := hbound.execution e x hx
    exact ⟨y, h.run _ _ hy, hrest⟩
  · intro e x hx
    obtain ⟨y, hy, hrest⟩ := hbound.agent e x hx
    exact ⟨y, h.agent _ _ hy, hrest⟩
  · intro a x hx
    obtain ⟨y, hy, hrest⟩ := hbound.assignment a x hx
    exact ⟨y, h.execution _ _ hy, hrest⟩

theorem Step.bound (h : Step b b') (hbound : b.Bound) : b'.Bound := by
  obtain ⟨hcollection, hgraph, hrun, hexecution, hagent, hassignment⟩ := h.extend.boundIn hbound
  cases h with
  | gather | chart | enroll => exact ⟨hcollection, hgraph, hrun, hexecution, hagent, hassignment⟩
  | enter j x hfree htarget hc hg =>
      refine ⟨?_, ?_, hrun, hexecution, hagent, hassignment⟩
      · intro k y c hy hyc
        obtain ⟨rfl, rfl⟩ | ⟨-, hold⟩ := update_cases hy
        · exact hc c hyc
        · exact hcollection k y c hold hyc
      · intro k y g hy hyg
        obtain ⟨rfl, rfl⟩ | ⟨-, hold⟩ := update_cases hy
        · exact hg g hyg
        · exact hgraph k y g hold hyg
  | begin r x hfree hjob =>
      refine ⟨hcollection, hgraph, ?_, hexecution, hagent, hassignment⟩
      intro k y hy
      obtain ⟨rfl, rfl⟩ | ⟨-, hold⟩ := update_cases hy
      · exact hjob
      · exact hrun k y hold
  | dispatch e x hfree hrun' hagent' htarget =>
      refine ⟨hcollection, hgraph, hrun, ?_, ?_, hassignment⟩
      · intro k y hy
        obtain ⟨rfl, rfl⟩ | ⟨-, hold⟩ := update_cases hy
        · exact hrun'
        · exact hexecution k y hold
      · intro k y hy
        obtain ⟨rfl, rfl⟩ | ⟨-, hold⟩ := update_cases hy
        · exact hagent'
        · exact hagent k y hold
  | offer a x hfree hoffer =>
      refine ⟨hcollection, hgraph, hrun, hexecution, hagent, ?_⟩
      intro k y hy
      obtain ⟨rfl, rfl⟩ | ⟨-, hold⟩ := update_cases hy
      · obtain ⟨z, hz, hns, hagent, -⟩ := hoffer
        exact ⟨z, hz, hns, hagent⟩
      · exact hassignment k y hold

/-- Nothing that belongs to a target is new. -/
structure NothingNew (t : Id) (b b' : Roster) : Prop where
  job : ∀ j x, b'.job j = some x → x.targetId = t → b.job j = some x
  execution : ∀ e x, b'.execution e = some x → x.targetId = t → b.execution e = some x
  assignment : ∀ a x y, b'.assignment a = some x → b'.execution x.executionId = some y →
    y.targetId = t → b.assignment a = some x
  agent : ∀ a x, b'.agent a = some x → x.targetId = t → b.agent a = some x

theorem NothingNew.refl (t : Id) (b : Roster) : NothingNew t b b :=
  ⟨fun _ _ h _ => h, fun _ _ h _ => h, fun _ _ _ h _ _ => h, fun _ _ h _ => h⟩

theorem NothingNew.trans {b'' : Roster} (h : NothingNew t b b') (h' : NothingNew t b' b'') :
    NothingNew t b b'' := by
  refine ⟨?_, ?_, ?_, ?_⟩
  · exact fun j x hx ht => h.job j x (h'.job j x hx ht) ht
  · exact fun e x hx ht => h.execution e x (h'.execution e x hx ht) ht
  · intro a x y hx hy ht
    exact h.assignment a x y (h'.assignment a x y hx hy ht) (h'.execution _ y hy ht) ht
  · exact fun a x hx ht => h.agent a x (h'.agent a x hx ht) ht

theorem Step.nothingNew (h : Step b b') (hclosed : b.target t ≠ some .active) :
    NothingNew t b b' := by
  have hrefl := NothingNew.refl t b
  cases h with
  | gather | chart | begin => exact { hrefl with }
  | enter j x hfree htarget =>
      refine { hrefl with job := ?_ }
      intro k y hy ht
      obtain ⟨rfl, rfl⟩ | ⟨-, hold⟩ := update_cases hy
      · exact absurd (ht ▸ htarget) hclosed
      · exact hold
  | dispatch e x hfree hrun hagent htarget =>
      refine ⟨hrefl.job, ?_, fun a y _ hy _ _ => hy, hrefl.agent⟩
      intro k y hy ht
      obtain ⟨rfl, rfl⟩ | ⟨-, hold⟩ := update_cases hy
      · exact absurd (ht ▸ htarget) hclosed
      · exact hold
  | offer a x hfree hoffer =>
      refine { hrefl with assignment := ?_ }
      intro k y z hy hz ht
      obtain ⟨rfl, rfl⟩ | ⟨-, hold⟩ := update_cases hy
      · obtain ⟨z', hz', -, -, htarget⟩ := hoffer
        cases hz'.symm.trans hz
        exact absurd (ht ▸ htarget) hclosed
      · exact hold
  | enroll a x hfree htarget =>
      refine { hrefl with agent := ?_ }
      intro k y hy ht
      obtain ⟨rfl, rfl⟩ | ⟨-, hold⟩ := update_cases hy
      · exact absurd (ht ▸ htarget) hclosed
      · exact hold

theorem Step.grows {b'' : Roster} (h : Step b b') (heq : b'' = b') : Grows b b'' := by
  subst heq
  exact .single h

theorem Step.target (h : Step b b') : b'.target = b.target := by
  cases h <;> rfl

namespace Grows

theorem of_same (h : b' = b) : Grows b b' := by
  subst h
  exact .refl

theorem bound (h : Grows b b') (hbound : b.Bound) : b'.Bound := by
  induction h with
  | refl => exact hbound
  | tail _ hstep ih => exact hstep.bound ih

theorem extend (h : Grows b b') : b.Extends b' := by
  induction h with
  | refl => exact .refl b
  | tail _ hstep ih => exact ih.trans hstep.extend

theorem target (h : Grows b b') : b'.target = b.target := by
  induction h with
  | refl => rfl
  | tail _ hstep ih => exact hstep.target.trans ih

theorem nothingNew (h : Grows b b') (hclosed : b.target t ≠ some .active) : NothingNew t b b' := by
  induction h with
  | refl => exact .refl t b
  | tail hprev hstep ih => exact ih.trans (hstep.nothingNew (by rw [target hprev]; exact hclosed))

end Grows

end Roster

section Statements

variable {codec : Codec} {env : Env} {db db' : Db}

theorem identity_recordJobLifecycle (codec : Codec) (env : Env) (db : Db) (id : Id)
    (old new : JobRow) :
    (db.recordJobLifecycle codec env id old new).identity = new.identity := by
  unfold Db.recordJobLifecycle Db.stampCompleted Db.stampStarted
  repeat' split
  all_goals rfl

theorem roster_updateJob {f : JobRow → Except StoreError JobRow}
    (hf : ∀ job job', f job = .ok job' → job'.identity = job.identity)
    (h : db.updateJob codec env id f = .ok db') : db'.roster = db.roster := by
  cases hold : db.jobs.get? id with
  | none =>
      simp only [Db.updateJob, hold] at h
      cases h
      rfl
  | some old =>
      obtain ⟨changed, outbox, hchanged, rfl⟩ := Db.updateJob_some h hold
      have hsame : (db.recordJobLifecycle codec env id old changed).identity = old.identity :=
        (identity_recordJobLifecycle codec env db id old changed).trans (hf old changed hchanged)
      exact congrArg (fun job => { db.roster with job := job })
        (Db.map_get?_rewrite JobRow.identity hold hsame)

theorem roster_updateRun {f : RunRow → Except StoreError RunRow}
    (hf : ∀ run run', f run = .ok run' → run'.identity = run.identity)
    (h : db.updateRun id f = .ok db') : db'.roster = db.roster := by
  cases hold : db.runs.get? id with
  | none =>
      simp only [Db.updateRun, hold] at h
      cases h
      rfl
  | some old =>
      simp only [Db.updateRun, hold, bind_ok_iff, pure_ok_iff] at h
      obtain ⟨new, hnew, rfl⟩ := h
      exact congrArg (fun run => { db.roster with run := run })
        (Db.map_get?_rewrite RunRow.identity hold (hf old new hnew))

theorem RowsUpdate.view {ρ β : Type} {follows : ρ → ρ → Prop} {t t' : Table Id ρ} (view : ρ → β)
    (hview : ∀ row row', follows row row' → view row' = view row) (h : RowsUpdate follows t t') :
    (fun k => (t'.get? k).map view) = fun k => (t.get? k).map view := by
  funext k
  cases hrow : t.get? k with
  | none => rw [h.absent k hrow]
  | some row =>
      obtain ⟨row', hrow', hfollows⟩ := h.kept k row hrow
      rw [hrow']
      exact congrArg some (hview row row' hfollows)

theorem ExecutionRow.Follows.identity {row row' : ExecutionRow} (h : row.Follows row') :
    row'.identity = row.identity := by
  cases h <;> rfl

theorem AssignmentRow.Follows.identity {row row' : AssignmentRow} (h : row.Follows row') :
    row'.identity = row.identity := by
  cases h <;> rfl

theorem roster_target_active :
    db.roster.target t = some .active ↔ db.ActiveTarget t := by
  simp only [Db.roster, Db.ActiveTarget, Option.map_eq_some_iff]

theorem roster_insert {κ ρ β : Type} [DecidableEq κ] (view : ρ → β) {t t' : Table κ ρ} {id : κ}
    {row : ρ} (hfree : t.get? id = none)
    (h : ∀ k, t'.get? k = if k = id then some row else t.get? k) :
    (t.get? id).map view = none ∧ (fun k => (t'.get? k).map view) =
      update (fun k => (t.get? k).map view) id (some (view row)) := by
  refine ⟨congrArg (Option.map view) hfree, ?_⟩
  funext k
  rw [h]
  by_cases hk : k = id
  · subst hk
    rw [if_pos rfl, update_self]
    rfl
  · rw [if_neg hk, update_of_ne hk]

theorem roster_insert? {κ ρ β : Type} [DecidableEq κ] (view : ρ → β) {t t' : Table κ ρ} {id : κ}
    {row : ρ} (h : t.insert? id row = some t') :
    (t.get? id).map view = none ∧ (fun k => (t'.get? k).map view) =
      update (fun k => (t.get? k).map view) id (some (view row)) :=
  roster_insert view (Table.insert?_free h) (Table.get?_insert h)

theorem roster_entry {ρ β : Type} (view : ρ → β) {t : Table Id ρ} {P : β → Prop}
    (h : ∃ row, t.get? id = some row ∧ P (view row)) :
    ∃ y, (t.get? id).map view = some y ∧ P y := by
  obtain ⟨row, hrow, hP⟩ := h
  exact ⟨view row, congrArg (Option.map view) hrow, hP⟩

theorem roster_elsewhere (h : db'.watched = db.watched) : db'.roster = db.roster := by
  have htargets : db'.targets = db.targets := congrArg (fun w => w.catalog.2.1) h
  have hagents : db'.agents = db.agents := congrArg (fun w => w.agentTables.agents) h
  have hcollections : db'.collections = db.collections := congrArg WatchedTables.collections h
  have hgraphs : db'.graphs = db.graphs := congrArg WatchedTables.graphs h
  have hjobs : db'.jobs = db.jobs := congrArg WatchedTables.jobs h
  have hruns : db'.runs = db.runs := congrArg WatchedTables.runs h
  have hexecutions : db'.executions = db.executions := congrArg WatchedTables.executions h
  have hassignments : db'.assignments = db.assignments := congrArg WatchedTables.assignments h
  simp only [Db.roster, htargets, hagents, hcollections, hgraphs, hjobs, hruns, hexecutions,
    hassignments]

theorem rosterFootprint (codec : Codec) (env : Env) (asked : JobSubmission → Grouping → Prop) :
    CallFootprint codec env asked fun db db' => Roster.Grows db.roster db'.roster where
  refl _ := .refl
  trans h h' := h.trans h'
  updateJob hf h := by rw [roster_updateJob (fun job job' hok => (hf job job' hok).identity) h]
  updateRun hf h := by rw [roster_updateRun hf h]
  insertOutbox h _ := by
    obtain ⟨outbox, rfl⟩ := insertOutbox_ok h
    exact .refl
  insertWorkload _ := .refl
  insertCollection {db id row t} h := by
    obtain ⟨hfree, hview⟩ := roster_insert? CollectionRow.namespaceId h
    exact (Roster.Step.gather id row.namespaceId hfree).grows
      (congrArg (fun x => { db.roster with collection := x }) hview)
  insertGraph {db id row t} h := by
    obtain ⟨hfree, hview⟩ := roster_insert? GraphRow.namespaceId h
    exact (Roster.Step.chart id row.namespaceId hfree).grows
      (congrArg (fun x => { db.roster with graph := x }) hview)
  touchCollection db id := by
    have hview := Table.map_get?_modify db.collections id
      (CollectionRow.touch env) CollectionRow.namespaceId fun _ => rfl
    have hsame := congrArg (fun x => { db.roster with collection := x }) hview
    exact Roster.Grows.of_same hsame
  touchGraph db id := by
    have hview := Table.map_get?_modify db.graphs id
      (GraphRow.touch env) GraphRow.namespaceId fun _ => rfl
    have hsame := congrArg (fun x => { db.roster with graph := x }) hview
    exact Roster.Grows.of_same hsame
  insertJob {db id row t} hfree hget hadmissible := by
    obtain ⟨hnone, hview⟩ := roster_insert JobRow.identity hfree hget
    have hcollection : ∀ c, row.grouping.collectionId = some c →
        db.roster.collection c = some row.namespaceId := by
      intro c hc
      obtain ⟨collection, hcollection, hns⟩ := hadmissible.collection c hc
      exact Option.map_eq_some_iff.mpr ⟨collection, hcollection, hns⟩
    have hgraph : ∀ g, row.grouping.graphId = some g →
        db.roster.graph g = some row.namespaceId := by
      intro g hg
      obtain ⟨graph, hgraph, hns⟩ := hadmissible.graph g hg
      exact Option.map_eq_some_iff.mpr ⟨graph, hgraph, hns⟩
    exact (Roster.Step.enter id row.identity hnone (roster_target_active.mpr hadmissible.target)
      hcollection hgraph).grows (congrArg (fun x => { db.roster with job := x }) hview)
  insertItem _ _ := .refl
  insertNode _ _ _ := .refl
  insertRun {db id row t} h hjob := by
    obtain ⟨hnone, hview⟩ := roster_insert? RunRow.identity h
    have hjob : ∃ y, db.roster.job row.jobId = some y ∧ y.namespaceId = row.namespaceId :=
      roster_entry JobRow.identity hjob
    exact (Roster.Step.begin id row.identity hnone hjob).grows
      (congrArg (fun x => { db.roster with run := x }) hview)
  insertExecution {db id row t} h hdispatched := by
    obtain ⟨hnone, hview⟩ := roster_insert? ExecutionRow.identity h
    have hrun : ∃ y, db.roster.run row.runId = some y ∧ y.namespaceId = row.namespaceId :=
      roster_entry RunRow.identity hdispatched.run
    have hagent : ∃ y, db.roster.agent row.agentId = some y ∧ y.namespaceId = row.namespaceId ∧
        y.targetId = row.targetId ∧ y.targetGenerationId = row.targetGenerationId :=
      roster_entry AgentRow.binding hdispatched.agent
    exact (Roster.Step.dispatch id row.identity hnone hrun hagent
      (roster_target_active.mpr hdispatched.target)).grows
      (congrArg (fun x => { db.roster with execution := x }) hview)
  insertAssignment {db id row t} h hoffers := by
    obtain ⟨hnone, hview⟩ := roster_insert? AssignmentRow.identity h
    obtain ⟨execution, hexecution, hns, hagent, htarget⟩ := hoffers.execution
    have hentry : db.roster.execution row.executionId = some execution.identity :=
      congrArg (Option.map ExecutionRow.identity) hexecution
    exact (Roster.Step.offer id row.identity hnone
      ⟨_, hentry, hns, hagent, roster_target_active.mpr htarget⟩).grows
      (congrArg (fun x => { db.roster with assignment := x }) hview)
  touchPolicy _ _ := .refl
  updateExecutions {db t} h := by
    have hview := h.view ExecutionRow.identity fun _ _ h => h.identity
    have hsame := congrArg (fun x => { db.roster with execution := x }) hview
    exact Roster.Grows.of_same hsame
  updateAssignments {db t} h := by
    have hview := h.view AssignmentRow.identity fun _ _ h => h.identity
    have hsame := congrArg (fun x => { db.roster with assignment := x }) hview
    exact Roster.Grows.of_same hsame
  elsewhere h := by rw [roster_elsewhere h]
  writeKeys := .refl

theorem roster_reportExecution {t : Table Id ExecutionRow}
    (h : ∀ id, (t.get? id).map ExecutionRow.columns =
      (db.executions.get? id).map ExecutionRow.columns) :
    { db with executions := t }.roster = db.roster := by
  have hfactor : ∀ row : Option ExecutionRow, row.map ExecutionRow.identity =
      (row.map ExecutionRow.columns).map fun columns =>
        ⟨columns.1, columns.2.1, columns.2.2.1, columns.2.2.2.1, columns.2.2.2.2.1⟩ := by
    intro row
    cases row <;> rfl
  refine congrArg (fun x => { db.roster with execution := x }) (funext fun id => ?_)
  rw [hfactor, h id, ← hfactor]

theorem Operation.apply_roster (codec : Codec) (env : Env) (operation : Operation) (db : Db) :
    Roster.Grows db.roster (operation.apply codec env db).roster := by
  have hreport : ReportFootprint codec env fun db db' => Roster.Grows db.roster db'.roster :=
    { (rosterFootprint codec env fun _ _ => False).toWorkFootprint with
      writeEvents := .refl
      writeArtifacts := .refl
      reportExecution := fun h => Roster.Grows.of_same (roster_reportExecution h) }
  have hcall : ∀ op : Operation, (∀ configuration, op ≠ .configure configuration) →
      Roster.Grows db.roster (Call.apply codec ⟨env, op⟩ db).roster := fun op hop =>
    Call.apply_footprint ⟨env, op⟩ (rosterFootprint codec env _) db
      (fun configuration h => absurd h (hop configuration))
      fun _ _ _ _ h => hreport.recordExecutionEvent h
  cases operation with
  | configure configuration => exact .refl
  | _ => exact hcall _ fun _ h => by cases h

end Statements

section Service

variable {db db' : Db}

theorem lookupEnrollment_target {tokenHash : String} {binding : EnrollmentBinding}
    (h : lookupEnrollment db tokenHash = some binding) :
    db.targets.get? binding.token.targetId = some binding.target := by
  simp only [lookupEnrollment, Option.bind_eq_bind, Option.bind_eq_some_iff, Option.pure_def,
    Option.some.injEq] at h
  obtain ⟨entry, -, target, htarget, generation, -, -, -, rfl⟩ := h
  exact htarget

theorem ServiceCall.roster (call : ServiceCall) (platform : Platform) (db : Db) :
    Roster.Grows db.roster (call.apply platform db).roster ∨
      ∃ target, (call.apply platform db).roster = { db.roster with target := target } := by
  obtain ⟨operation, -, hwork⟩ | heffect := call.apply_effect platform db
  · rw [hwork]
    exact Or.inl (operation.apply_roster platform.codec call.env db)
  generalize call.apply platform db = db' at heffect
  cases heffect with
  | cataloged _ hrest =>
      obtain ⟨_, _, _, _, _, _, _, _, _, rfl⟩ := hrest
      exact Or.inr ⟨_, rfl⟩
  | enrolled h =>
      obtain rfl | ⟨binding, henrolling⟩ := enrollAgent_writes h
      · exact Or.inl .refl
      · have htarget := roster_target_active.mpr
          ⟨binding.target, lookupEnrollment_target henrolling.bound, henrolling.active⟩
        obtain ⟨agents, sessions, tokens, audit, rfl⟩ := henrolling.rest
        obtain ⟨hfree, hview⟩ := roster_insert? AgentRow.binding henrolling.agents
        exact Or.inl ((Roster.Step.enroll _ _ hfree htarget).grows
          (congrArg (fun x => { db.roster with agent := x }) hview))
  | credentialed operation hop =>
      have hstep := operation.apply_credentials platform call.env db hop
      obtain ⟨_, _, _, _, _, _, _, hrest⟩ := hstep.rest
      have hbinding := hstep.binding
      rw [hrest] at hbinding ⊢
      refine Or.inl (Roster.Grows.of_same ?_)
      exact congrArg (fun x => { db.roster with agent := x }) (funext hbinding)
  | delivered delivered =>
      refine Or.inl (Roster.Grows.of_same ?_)
      refine congrArg (fun x => { db.roster with assignment := x }) (funext fun id => ?_)
      rw [Table.get?_updateWhere]
      cases db.assignments.get? id with
      | none => rfl
      | some row =>
          simp only [Option.map_some]
          split <;> rfl
  | refused | administered | logged | acted | maintained => exact Or.inl .refl

end Service

def Db.ClosedTarget (db : Db) (t : Id) : Prop := db.roster.target t ≠ some .active

namespace Service

variable {platform : Platform} {db db' : Db}

theorem Step.bound (h : Step platform db call db') (hbound : db.roster.Bound) :
    db'.roster.Bound := by
  obtain rfl : call.apply platform db = db' := h
  obtain hgrows | ⟨target, hroster⟩ := call.roster platform db
  · exact hgrows.bound hbound
  · rw [hroster]
    exact { hbound with }

theorem Step.extends (h : Step platform db call db') :
    db.roster.Extends db'.roster := by
  obtain rfl : call.apply platform db = db' := h
  obtain hgrows | ⟨target, hroster⟩ := call.roster platform db
  · exact hgrows.extend
  · rw [hroster]
    -- a target changes its state, which the entries do not show
    constructor <;> exact fun _ _ h => h

theorem Later.extends (h : Later platform db db') : db.roster.Extends db'.roster :=
  h.invariant (P := fun d => db.roster.Extends d.roster) (.refl _)
    fun _ _ _ hd _ hstep => hd.trans hstep.extends

theorem Step.nothingNew (h : Step platform db call db') (hclosed : db.ClosedTarget t) :
    Roster.NothingNew t db.roster db'.roster := by
  obtain rfl : call.apply platform db = db' := h
  obtain hgrows | ⟨target, hroster⟩ := call.roster platform db
  · exact hgrows.nothingNew hclosed
  · rw [hroster]
    exact ⟨fun _ _ h _ => h, fun _ _ h _ => h, fun _ _ _ h _ _ => h, fun _ _ h _ => h⟩

/-- In every store that arises, every row belongs to rows of its own namespace. -/
theorem Arises.bound (h : Arises platform db) : db.roster.Bound := by
  refine h.invariant (P := fun d => d.roster.Bound) ?_ ?_
  · exact ⟨fun _ _ _ h => (by cases h), fun _ _ _ h => (by cases h), fun _ _ h => (by cases h),
      fun _ _ h => (by cases h), fun _ _ h => (by cases h), fun _ _ h => (by cases h)⟩
  · exact fun _ _ _ hbound _ hstep => hstep.bound hbound

/-- While a target is not active, nothing that belongs to it is added. -/
theorem nothingNew_of_closed
    (h : Transition.Reaches (Step platform) (fun d _ => d.ClosedTarget t) db db') :
    Roster.NothingNew t db.roster db'.roster := by
  induction h with
  | refl => exact .refl t _
  | tail call _ hclosed hstep ih => exact ih.trans (hstep.nothingNew hclosed)

end Service

end JobmanControl
