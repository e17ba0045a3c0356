import JobmanControl.Store.GraphReadout

/-!
Groups as calls return them: the row, the counts over the jobs of the group, the state
the counts amount to, and the members in the order of their numbers. Submissions and
cancellations end with such a read-out, and a repeated submission is answered with one.
-/

namespace JobmanControl

open Relational

inductive GroupPhase
  | accepted | running
  deriving DecidableEq, Repr

structure CollectionItem where
  index : Nat
  name : String
  job : Job
  deriving DecidableEq, Repr

structure Collection where
  id : Id
  namespaceName : String
  name : String
  labels : List (String × String)
  maxActive : Nat
  failurePolicy : FailurePolicy
  arrayPolicy : ArrayPolicy
  arrayMode : ArrayMode
  revision : Nat
  createdAt : Time
  updatedAt : Time
  total : Nat
  active : Nat
  terminal : Nat
  succeeded : Nat
  canceled : Nat
  failed : Nat
  progress : Progress GroupPhase Outcome
  items : List CollectionItem
  deriving DecidableEq, Repr

structure GraphItem where
  index : Nat
  name : String
  disposition : Option GraphDisposition
  dependencies : List GraphDependency
  job : Job
  deriving DecidableEq, Repr

structure Graph where
  id : Id
  namespaceName : String
  name : String
  labels : List (String × String)
  maxActive : Nat
  unsatisfiedPolicy : UnsatisfiedPolicy
  revision : Nat
  createdAt : Time
  updatedAt : Time
  total : Nat
  waiting : Nat
  active : Nat
  terminal : Nat
  succeeded : Nat
  canceled : Nat
  skipped : Nat
  blocked : Nat
  failed : Nat
  progress : Progress GroupPhase Outcome
  items : List GraphItem
  deriving DecidableEq, Repr

/-- The number, name and job of a member. -/
def CollectionItem.member (item : CollectionItem) : Nat × String × Id :=
  (item.index, item.name, item.job.id)

def GraphItem.member (item : GraphItem) : Nat × String × Id :=
  (item.index, item.name, item.job.id)

def Collection.members (collection : Collection) : List (Nat × String × Id) :=
  collection.items.map CollectionItem.member

def Graph.members (graph : Graph) : List (Nat × String × Id) := graph.items.map GraphItem.member

/-- The `switch` that `scanCollection` and `scanGraph` end with. -/
def groupProgress (total active terminal failed canceled : Nat) : Progress GroupPhase Outcome :=
  if 0 < total ∧ terminal = total then
    .terminal (if 0 < failed then .failure else if 0 < canceled then .cancelled else .success)
  else if 0 < active then .live .running
  else .live .accepted

/-- The rows of a member table that belong to a group, in the order of their numbers. -/
def membersOf (table : Table (Id × Nat) MemberRow) (groupId : Id) :
    List ((Id × Nat) × MemberRow) :=
  orderBy (fun a b => a.1.2 ≤ b.1.2) (table.select fun key _ => key.1 = groupId)

/-- `WHERE n.name = $1 AND j.id = $2`. -/
def getJobWithQuerier (db : Db) (namespaceName : String) (jobId : Id) :
    Except StoreError Job := do
  let row ← need (db.jobs.get? jobId) noRows
  let name ← need (db.namespaces.get? row.namespaceId) noRows
  ensure (name = namespaceName) noRows
  pure ⟨jobId, row⟩

def loadCollectionItem (db : Db) (namespaceName : String) (entry : (Id × Nat) × MemberRow) :
    Except StoreError CollectionItem := do
  let job ← getJobWithQuerier db namespaceName entry.2.jobId
  pure ⟨entry.1.2, entry.2.name, job⟩

def loadCollectionItems (db : Db) (namespaceName : String) (collectionId : Id) :
    Except StoreError (List CollectionItem) :=
  (membersOf db.collectionItems collectionId).mapM (loadCollectionItem db namespaceName)

def getCollectionById (db : Db) (namespaceId collectionId : Id) :
    Except StoreError Collection := do
  let row ← need (db.collections.get? collectionId) noRows
  ensure (row.namespaceId = namespaceId) noRows
  let namespaceName ← need (db.namespaces.get? row.namespaceId) noRows
  let count (p : JobRow → Bool) : Nat := db.jobs.count fun _ job =>
    job.grouping.collectionId = some collectionId && p job
  let total := count fun _ => true
  let active := count JobRow.isActive
  let terminal := count fun job => job.progress.isTerminal
  let succeeded := count fun job => job.outcome = some .success
  let canceled := count fun job => job.outcome = some .cancelled
  let failed := count fun job => job.outcome.any fun o => o ∉ [.success, .cancelled]
  let items ← loadCollectionItems db namespaceName collectionId
  pure
    { id := collectionId
      namespaceName := namespaceName
      name := row.name
      labels := row.labels
      maxActive := row.maxActive
      failurePolicy := row.failurePolicy
      arrayPolicy := row.arrayPolicy
      arrayMode := row.arrayMode
      revision := row.revision
      createdAt := row.createdAt
      updatedAt := row.updatedAt
      total := total
      active := active
      terminal := terminal
      succeeded := succeeded
      canceled := canceled
      failed := failed
      progress := groupProgress total active terminal failed canceled
      items := items }

/-- A node joins its job, and a dependency whose state is null cannot be scanned. -/
def loadGraphItem (db : Db) (namespaceName : String) (graphId : Id)
    (entry : (Id × Nat) × MemberRow) : Except StoreError GraphItem := do
  let job ← getJobWithQuerier db namespaceName entry.2.jobId
  let dependencies := loadGraphDependencies db graphId entry.2.jobId
  ensure (∀ dependency ∈ dependencies, dependency.satisfied ≠ none)
    (.invalid "cannot scan NULL into *bool")
  pure ⟨entry.1.2, entry.2.name, job.row.grouping.graphDisposition, dependencies, job⟩

def loadGraphItems (db : Db) (namespaceName : String) (graphId : Id) :
    Except StoreError (List GraphItem) :=
  ((membersOf db.graphNodes graphId).filter fun entry =>
    (db.jobs.get? entry.2.jobId).isSome).mapM (loadGraphItem db namespaceName graphId)

def getGraphById (db : Db) (namespaceId graphId : Id) : Except StoreError Graph := do
  let row ← need (db.graphs.get? graphId) noRows
  ensure (row.namespaceId = namespaceId) noRows
  let namespaceName ← need (db.namespaces.get? row.namespaceId) noRows
  let count (p : JobRow → Bool) : Nat := db.jobs.count fun _ job =>
    job.grouping.graphId = some graphId && p job
  let disposed (d : GraphDisposition) : Nat := count fun job =>
    job.progress.isTerminal && job.grouping.graphDisposition = some d
  let total := count fun _ => true
  let active := count JobRow.isActive
  let terminal := count fun job => job.progress.isTerminal
  let canceled := count fun job => job.outcome = some .cancelled
  let skipped := disposed .skipped
  let blocked := disposed .blocked
  let failed := count fun job => job.grouping.graphDisposition = none &&
    job.outcome.any fun o => o ∉ [.success, .cancelled]
  let items ← loadGraphItems db namespaceName graphId
  pure
    { id := graphId
      namespaceName := namespaceName
      name := row.name
      labels := row.labels
      maxActive := row.maxActive
      unsatisfiedPolicy := row.unsatisfiedPolicy
      revision := row.revision
      createdAt := row.createdAt
      updatedAt := row.updatedAt
      total := total
      waiting := count JobRow.isAccepted
      active := active
      terminal := terminal
      succeeded := count fun job => job.outcome = some .success
      canceled := canceled
      skipped := skipped
      blocked := blocked
      failed := failed
      progress := groupProgress total active terminal (failed + skipped + blocked) canceled
      items := items }

section Found

variable {db : Db} {namespaceId groupId : Id}

/-- A dependency is never unknown: an upstream has an outcome when it is terminal. -/
theorem EdgeRow.dependencySatisfied_ne_none (edge : EdgeRow) (upstream : JobRow) :
    edge.dependencySatisfied upstream ≠ none := by
  cases hprogress : upstream.progress with
  | live phase => simp [dependencySatisfied, hprogress, Progress.isTerminal, Truth.and]
  | terminal o =>
      simp [dependencySatisfied, predicateHolds, JobRow.outcome, hprogress, Truth.eq, Truth.mem]

theorem loadGraphDependencies_scanned (db : Db) (g d : Id) :
    ∀ dependency ∈ loadGraphDependencies db g d, dependency.satisfied ≠ none := by
  intro dependency hmem
  obtain ⟨_, edge, upstream, _, _, _, -, -, -, -, -, -, rfl⟩ := mem_loadGraphDependencies.mp hmem
  exact edge.dependencySatisfied_ne_none upstream

theorem getJobWithQuerier_ok_iff {name : String} {jobId : Id} {job : Job} :
    getJobWithQuerier db name jobId = .ok job ↔
      job.id = jobId ∧ db.jobs.get? jobId = some job.row ∧
        db.namespaces.get? job.row.namespaceId = some name := by
  simp only [getJobWithQuerier, bind_ok_iff, need_ok_iff, ensure_ok_iff, pure_ok_iff]
  constructor
  · rintro ⟨row, hrow, _, hname, -, rfl, rfl⟩
    exact ⟨rfl, hrow, hname⟩
  · rintro ⟨rfl, hrow, hname⟩
    exact ⟨job.row, hrow, name, hname, (), rfl, rfl⟩

/-- A collection is read when it is a collection of the namespace and its items are. -/
theorem getCollectionById_ok_iff {items : List CollectionItem} :
    (∃ collection, getCollectionById db namespaceId groupId = .ok collection ∧
      collection.id = groupId ∧ collection.items = items) ↔
    ∃ row name, db.collections.get? groupId = some row ∧ row.namespaceId = namespaceId ∧
      db.namespaces.get? namespaceId = some name ∧
      loadCollectionItems db name groupId = .ok items := by
  simp only [getCollectionById, bind_ok_iff, need_ok_iff, ensure_ok_iff, pure_ok_iff]
  constructor
  · rintro ⟨_, ⟨row, hrow, -, rfl, name, hname, _, hitems, rfl⟩, -, rfl⟩
    exact ⟨row, name, hrow, rfl, hname, hitems⟩
  · rintro ⟨row, name, hrow, rfl, hname, hitems⟩
    exact ⟨_, ⟨row, hrow, (), rfl, name, hname, items, hitems, rfl⟩, rfl, rfl⟩

theorem getGraphById_ok_iff {items : List GraphItem} :
    (∃ graph, getGraphById db namespaceId groupId = .ok graph ∧
      graph.id = groupId ∧ graph.items = items) ↔
    ∃ row name, db.graphs.get? groupId = some row ∧ row.namespaceId = namespaceId ∧
      db.namespaces.get? namespaceId = some name ∧ loadGraphItems db name groupId = .ok items := by
  simp only [getGraphById, bind_ok_iff, need_ok_iff, ensure_ok_iff, pure_ok_iff]
  constructor
  · rintro ⟨_, ⟨row, hrow, -, rfl, name, hname, _, hitems, rfl⟩, -, rfl⟩
    exact ⟨row, name, hrow, rfl, hname, hitems⟩
  · rintro ⟨row, name, hrow, rfl, hname, hitems⟩
    exact ⟨_, ⟨row, hrow, (), rfl, name, hname, items, hitems, rfl⟩, rfl, rfl⟩

theorem getCollectionById_id {collection : Collection}
    (h : getCollectionById db namespaceId groupId = .ok collection) :
    collection.id = groupId := by
  simp only [getCollectionById, bind_ok_iff, pure_ok_iff] at h
  obtain ⟨_, -, _, -, _, -, _, -, rfl⟩ := h
  rfl

theorem getGraphById_id {graph : Graph} (h : getGraphById db namespaceId groupId = .ok graph) :
    graph.id = groupId := by
  simp only [getGraphById, bind_ok_iff, pure_ok_iff] at h
  obtain ⟨_, -, _, -, _, -, _, -, rfl⟩ := h
  rfl

end Found

end JobmanControl
