import JobmanControl.Concurrency.Committed
import JobmanControl.Library.Session

/-!
Coordinators at work side by side. A dispatch begins with the claim statement,
whose sub-selects count active jobs on the snapshot of that moment. The statement
then takes the first row in its order that no other transaction has locked, with
the job and policy rows as they are by now, and the writes commit later.
-/

namespace JobmanControl

open Relational Interleaving

inductive Scope
  | inNamespace (id : Id)
  | inCollection (id : Id)
  | inGraph (id : Id)
  deriving DecidableEq, Repr

namespace Scope

def covers (scope : Scope) (job : JobRow) : Bool :=
  match scope with
  | .inNamespace n => job.namespaceId = n
  | .inCollection c => job.grouping.collectionId = some c
  | .inGraph g => job.grouping.graphId = some g

def row : Scope → RowKey
  | .inNamespace n => .policy n
  | .inCollection c => .collection c
  | .inGraph g => .graph g

def all (job : JobRow) : List Scope :=
  .inNamespace job.namespaceId :: (job.grouping.collectionId.toList.map Scope.inCollection ++
    job.grouping.graphId.toList.map Scope.inGraph)

theorem mem_all {scope : Scope} {job : JobRow} :
    scope ∈ all job ↔ scope.covers job = true := by
  cases scope <;> simp [all, covers, eq_comm]

end Scope

namespace Db

def activeIn (db : Db) : Scope → Nat
  | .inNamespace n => db.activeInNamespace n
  | .inCollection c => db.activeInCollection c
  | .inGraph g => db.activeInGraph g

/-- The limit the count is compared with; an array has none. -/
def limit (db : Db) : Scope → Option Nat
  | .inNamespace n => (db.policies.get? n).map (·.maxActiveJobs)
  | .inCollection c => (db.collections.get? c).bind fun collection =>
      if collection.arrayMode = .slurmArray then none else some collection.maxActive
  | .inGraph g => (db.graphs.get? g).map (·.maxActive)

/-- A job of the snapshot that is not locked and still qualifies. -/
def reclaim (codec : Codec) (env : Env) (snapshot : Db) (locked : RowKey → Bool) (db : Db)
    (jobId : Id) : Option (JobRow × AssignmentCandidate) := do
  let job ← db.jobs.get? jobId
  guard (!(RowKey.job jobId :: (Scope.all job).map Scope.row).any locked)
  let policy ← db.policies.get? job.namespaceId
  let candidate ← snapshot.candidate codec env jobId job policy
  pure (job, candidate)

/-- What the claim statement returns, from the rows its snapshot admits. -/
def claim (codec : Codec) (env : Env) (snapshot : Db) (locked : RowKey → Bool) (db : Db) :
    Option (JobRow × AssignmentCandidate) :=
  (firstBy claimOrder
    (snapshot.claimRows.filter fun row =>
      (snapshot.candidate codec env row.1.1 row.1.2 row.2).isSome &&
        (snapshot.reclaim codec env locked db row.1.1).isSome)).bind fun row =>
    snapshot.reclaim codec env locked db row.1.1

end Db

inductive DispatchStage
  | opening
  /-- The claim statement has counted and has no locks yet. -/
  | claiming (snapshot : Db)
  | claimed (candidate : AssignmentCandidate)
  | idle

structure Coordinator where
  env : Env
  ids : DispatchIds
  stage : DispatchStage

namespace Coordinator

def wants (codec : Codec) (locked : RowKey → Bool) (db : Db) (coordinator : Coordinator) :
    List RowKey :=
  match coordinator.stage with
  | .claiming snapshot =>
      match snapshot.claim codec coordinator.env locked db with
      | some (job, candidate) => .job candidate.jobId :: (Scope.all job).map Scope.row
      | none => []
  | .opening | .claimed _ | .idle => []

def advance (codec : Codec) (locked : RowKey → Bool) (db : Db) (coordinator : Coordinator) :
    Coordinator :=
  { coordinator with
    stage :=
      match coordinator.stage with
      | .opening => .claiming db
      | .claiming snapshot =>
          match snapshot.claim codec coordinator.env locked db with
          | some (_, candidate) => .claimed candidate
          | none => .idle
      | .claimed candidate => .claimed candidate
      | .idle => .idle }

def commit (codec : Codec) (coordinator : Coordinator) (db : Db) : Option Db :=
  match coordinator.stage with
  | .claimed candidate =>
      (offerAssignment codec coordinator.env coordinator.ids candidate db).toOption
  | .idle => some db
  | .opening | .claiming _ => none

end Coordinator

abbrev LifeCall :=
  { call : Call //
    call.operation.licence.dispatches = false ∧ call.operation.licence.configures = false }

/-- Dispatches as sessions, among calls that submit, move and finish jobs. -/
def coordinating (codec : Codec) :
    Protocol Db Coordinator (Env × DispatchIds) LifeCall RowKey where
  call call := call.1.apply codec
  start request := ⟨request.1, request.2, .opening⟩
  wants locked db coordinator := coordinator.wants codec locked db
  advance locked db coordinator := coordinator.advance codec locked db
  commit coordinator db := coordinator.commit codec db
  same key db db' := db.sameRow key db'

abbrev DispatchWorld := World Db Coordinator RowKey

/-- When a dispatch gets its locks, the namespace, the collection and the graph of its
job still have the room it has counted. -/
def countsStand (codec : Codec) (w : DispatchWorld) : Action (Env × DispatchIds) LifeCall → Bool
  | .advance i =>
      match w.sessions.get? i with
      | none => true
      | some s =>
          match s.state.stage with
          | .claiming snapshot =>
              match snapshot.claim codec s.state.env (w.others i) w.committed with
              | some (job, _) => (Scope.all job).all fun scope =>
                  (w.committed.limit scope).all fun limit =>
                    limit ≤ snapshot.activeIn scope || w.committed.activeIn scope < limit
              | none => true
          | _ => true
  | _ => true

namespace Sample

def narrow : Db :=
  Db.empty.run codec
    [⟨env 0, .configure { configuration with
        policies := single 1 { policy with maxActiveJobs := 1 } }⟩,
      ⟨env 1, .submitJob authorization "submit-job-1" 10 30 (submission "first")⟩,
      ⟨env 1, .submitJob authorization "submit-job-2" 11 31 (submission "second")⟩]

def dispatchIds (first : Id) : DispatchIds := ⟨first, first + 1, first + 2, first + 3⟩

/-- The second coordinator begins its claim when the first has committed. -/
def oneCoordinatorAfterTheOther : List (Action (Env × DispatchIds) LifeCall) :=
  [.start 0 (env 2, dispatchIds 40), .start 1 (env 2, dispatchIds 50), .advance 0, .advance 0,
    .commit 0, .advance 1, .advance 1, .commit 1]

/-- Both coordinators begin their claims before either commits. -/
def coordinatorsSideBySide : List (Action (Env × DispatchIds) LifeCall) :=
  [.start 0 (env 2, dispatchIds 40), .start 1 (env 2, dispatchIds 50), .advance 0, .advance 1,
    .advance 0, .commit 0, .advance 1, .commit 1]

end Sample

end JobmanControl
