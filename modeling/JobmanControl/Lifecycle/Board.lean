import Mathlib.Logic.Function.Basic
import JobmanControl.Store.Cancellation

/-!
The lifecycle of a job as an abstract board: for each job, run, execution and
assignment only the columns that decide what may happen to it next. `Move` says
what can happen in one go to one job together with its run, execution and
assignment; `Coupled` says how far the four may be apart.
-/

namespace JobmanControl
namespace Lifecycle

open Function

structure JobFacts where
  namespaceId : Id
  progress : Progress JobPhase Outcome
  desiredState : DesiredState
  grouping : Grouping
  revision : Nat

structure RunFacts where
  namespaceId : Id
  jobId : Id
  progress : Progress RunPhase Outcome
  desiredState : DesiredState

structure ExecutionFacts where
  namespaceId : Id
  runId : Id
  progress : Progress ExecutionPhase ExecutionResult

inductive Decision
  | offered | accepted | rejected | withdrawn
  deriving DecidableEq

structure AssignmentFacts where
  executionId : Id
  decision : Decision

structure EventFacts where
  executionId : Id
  completes : Bool

structure ActionFacts where
  executionId : Id
  state : ActionState

structure NamespaceLimit where
  maxActiveJobs : Nat
  maxQueuedJobs : Nat

/-- How many children of a collection may be active, and whether that is enforced. -/
structure CollectionLimit where
  maxActive : Nat
  arrayMode : ArrayMode

structure Notice where
  jobId : Id
  outcome : Outcome
  revision : Nat

structure Board where
  job : Id → Option JobFacts
  run : Id → Option RunFacts
  execution : Id → Option ExecutionFacts
  assignment : Id → Option AssignmentFacts
  event : Id → Option EventFacts
  action : Id → Option ActionFacts
  policy : Id → Option NamespaceLimit
  collection : Id → Option CollectionLimit
  graph : Id → Option UnsatisfiedPolicy
  graphLimit : Id → Option Nat
  node : Id × Nat → Option MemberRow
  edge : EdgeKey → Option EdgeRow
  notice : Id → Option Notice

namespace Board

def putJob (b : Board) (j : Id) (J : JobFacts) : Board :=
  { b with job := update b.job j (some J) }

def putNotice (b : Board) (n : Id) (N : Notice) : Board :=
  { b with notice := update b.notice n (some N) }

/-- Replace or add a job together with its run, execution and assignment. -/
def putBundle (b : Board) (j : Id) (J : JobFacts) (r : Id) (R : RunFacts) (e : Id)
    (E : ExecutionFacts) (a : Id) (A : AssignmentFacts) : Board :=
  { b with
    job := update b.job j (some J)
    run := update b.run r (some R)
    execution := update b.execution e (some E)
    assignment := update b.assignment a (some A) }

/-- A job that has been dispatched, with the rows that carry it. -/
structure Bundle (b : Board) (j : Id) (J : JobFacts) (r : Id) (R : RunFacts) (e : Id)
    (E : ExecutionFacts) (a : Id) (A : AssignmentFacts) : Prop where
  job : b.job j = some J
  run : b.run r = some R
  execution : b.execution e = some E
  assignment : b.assignment a = some A
  run_job : R.jobId = j
  execution_run : E.runId = r
  assignment_execution : A.executionId = e

def Idle (b : Board) (j : Id) : Prop := ∀ r R, b.run r = some R → R.jobId ≠ j

/-- A report that ends the execution was recorded. -/
def Reported (b : Board) (e : Id) : Prop :=
  ∃ v V, b.event v = some V ∧ V.executionId = e ∧ V.completes = true

def Asked (b : Board) (e : Id) : Prop := ∃ n X, b.action n = some X ∧ X.executionId = e

end Board

/-- How far the four rows of a dispatched job have come. -/
structure Phases where
  job : Progress JobPhase Outcome
  run : Progress RunPhase Outcome
  execution : Progress ExecutionPhase ExecutionResult
  decision : Decision

def phases (J : JobFacts) (R : RunFacts) (E : ExecutionFacts) (A : AssignmentFacts) : Phases :=
  ⟨J.progress, R.progress, E.progress, A.decision⟩

/-- The five combinations the four rows may be in. -/
inductive Stage : Phases → Prop
  | offered : Stage ⟨.live .assigning, .live .assigning, .live .planned, .offered⟩
  | accepted : Stage ⟨.live .acceptedExecution, .live .accepted, .live .accepted, .accepted⟩
  | running : Stage ⟨.live .running, .live .running, .live .running, .accepted⟩
  | completed (o : Outcome) (document : String) :
      Stage ⟨.terminal o, .terminal o, .terminal ⟨o, .reported document⟩, .accepted⟩
  | withdrawn :
      Stage ⟨.terminal .cancelled, .terminal .cancelled,
        .terminal ⟨.cancelled, .cancelledBeforeLaunch⟩, .withdrawn⟩

/-- The work is in an agent's hands: accepted and not yet finished. -/
inductive Engaged : Phases → Prop
  | accepted : Engaged ⟨.live .acceptedExecution, .live .accepted, .live .accepted, .accepted⟩
  | running : Engaged ⟨.live .running, .live .running, .live .running, .accepted⟩

/-- What may happen to dispatched work that stays unfinished. -/
inductive Advance : Phases → Phases → Prop
  | accept :
      Advance ⟨.live .assigning, .live .assigning, .live .planned, .offered⟩
        ⟨.live .acceptedExecution, .live .accepted, .live .accepted, .accepted⟩
  | start {p : Phases} : Engaged p →
      Advance p ⟨.live .running, .live .running, .live .running, .accepted⟩
  | keep {p : Phases} : Engaged p → Advance p p

/-- How dispatched work finishes. -/
inductive Finish : Phases → Phases → Outcome → Prop
  | complete {p : Phases} (o : Outcome) (document : String) : Engaged p →
      Finish p ⟨.terminal o, .terminal o, .terminal ⟨o, .reported document⟩, .accepted⟩ o
  | withdraw :
      Finish ⟨.live .assigning, .live .assigning, .live .planned, .offered⟩
        ⟨.terminal .cancelled, .terminal .cancelled,
          .terminal ⟨.cancelled, .cancelledBeforeLaunch⟩, .withdrawn⟩ .cancelled

/-- A request to cancel is never taken back. -/
def DesireKept (old new : DesiredState) : Prop := old = .cancel → new = .cancel

/-- The columns that stay fixed while dispatched work moves on. -/
structure SameWork (J : JobFacts) (R : RunFacts) (E : ExecutionFacts) (A : AssignmentFacts)
    (J' : JobFacts) (R' : RunFacts) (E' : ExecutionFacts) (A' : AssignmentFacts) : Prop where
  job_namespace : J'.namespaceId = J.namespaceId
  job_grouping : J'.grouping = J.grouping
  job_desired : DesireKept J.desiredState J'.desiredState
  run_namespace : R'.namespaceId = R.namespaceId
  run_jobId : R'.jobId = R.jobId
  run_desired : DesireKept R.desiredState R'.desiredState
  execution_namespace : E'.namespaceId = E.namespaceId
  execution_runId : E'.runId = E.runId
  assignment_executionId : A'.executionId = A.executionId

/-- The outcome of the upstream is one the edge asks for. -/
def accepts (edge : EdgeRow) (o : Outcome) : Bool :=
  match edge.predicate with
  | .anyTerminal => true
  | .success => o = .success
  | .failure => o = .failure || o = .timedOut || o = .aborted || o = .lost
  | .outcomes => edge.outcomes.contains o

namespace Board

def Enrolled (b : Board) (g j : Id) : Prop := ∃ index name, b.node (g, index) = some ⟨name, j⟩

/-- The upstream of the edge has finished with an outcome the edge asks for. -/
def Satisfied (b : Board) (key : EdgeKey) (edge : EdgeRow) : Prop :=
  ∃ U o, b.job key.upstreamJobId = some U ∧ U.progress = .terminal o ∧ accepts edge o = true

/-- The upstream of the edge has finished with another outcome. -/
def Refuted (b : Board) (key : EdgeKey) (edge : EdgeRow) : Prop :=
  ∃ U o, b.job key.upstreamJobId = some U ∧ U.progress = .terminal o ∧ accepts edge o = false

/-- A waiting node whose upstreams have all finished, one of them with an outcome
its edge does not ask for. -/
structure Stuck (b : Board) (j : Id) : Prop where
  waiting : ∃ J, b.job j = some J ∧ J.progress = .live .accepted
  finished : ∀ key edge U, b.edge key = some edge → key.downstreamJobId = j →
    b.job key.upstreamJobId = some U → ∃ o, U.progress = .terminal o
  refuted : ∃ key edge, b.edge key = some edge ∧ key.downstreamJobId = j ∧ b.Refuted key edge

end Board

/-- What a transaction may bring about: new jobs, new dispatches, new policies. -/
structure Licence where
  submits : Bool
  dispatches : Bool
  configures : Bool

def Licence.submission : Licence := ⟨true, false, false⟩

def Licence.dispatch : Licence := ⟨false, true, false⟩

def Licence.configuration : Licence := ⟨false, false, true⟩

def Licence.nothing : Licence := ⟨false, false, false⟩

def Licence.anything : Licence := ⟨true, true, true⟩

/-- One change of the board. -/
inductive Move (M : Licence) : Board → Board → Prop
  | arrive {b : Board} {j : Id} {J : JobFacts} : M.submits = true →
      b.job j = none → J.progress = .live .accepted → J.desiredState = .run →
      J.grouping.graphDisposition = none →
      (∀ g, J.grouping.graphId = some g → ∃ policy, b.graph g = some policy) →
      (∀ c, J.grouping.collectionId = some c → ∃ limit, b.collection c = some limit) →
      Move M b (b.putJob j J)
  | configure {b : Board} (policy : Id → Option NamespaceLimit) : M.configures = true →
      Move M b { b with policy := policy }
  | publishCollection {b : Board} {c : Id} (limit : CollectionLimit) :
      b.collection c = none →
      Move M b { b with collection := update b.collection c (some limit) }
  | publishGraph {b : Board} {g : Id} (policy : UnsatisfiedPolicy) (limit : Nat) :
      b.graph g = none → b.graphLimit g = none →
      Move M b
        { b with
          graph := update b.graph g (some policy)
          graphLimit := update b.graphLimit g (some limit) }
  | enrol {b : Board} {k : Id × Nat} (member : MemberRow) :
      b.node k = none → Move M b { b with node := update b.node k (some member) }
  | link {b : Board} {key : EdgeKey} (edge : EdgeRow) {U D : JobFacts} :
      b.edge key = none → b.Enrolled key.graphId key.upstreamJobId →
      b.Enrolled key.graphId key.downstreamJobId →
      b.job key.upstreamJobId = some U → U.progress = .live .accepted →
      U.grouping.graphId = some key.graphId →
      b.job key.downstreamJobId = some D → D.progress = .live .accepted →
      D.grouping.graphId = some key.graphId →
      Move M b { b with edge := update b.edge key (some edge) }
  | settle {b : Board} {j n : Id} {J J' : JobFacts} {o : Outcome} :
      b.job j = some J → J.progress = .live .accepted → J'.progress = .terminal o →
      J'.namespaceId = J.namespaceId → J'.grouping = J.grouping →
      b.notice n = none → Move M b ((b.putJob j J').putNotice n ⟨j, o, J'.revision⟩)
  | dispose {b : Board} {j n g i : Id} {d : Option GraphDisposition} {J J' : JobFacts}
      {policy : UnsatisfiedPolicy} {key : EdgeKey} {edge : EdgeRow} :
      b.job j = some J → J.progress = .live .accepted → J.grouping = .graph g i d →
      b.graph g = some policy →
      b.edge key = some edge → key.downstreamJobId = j → b.Refuted key edge →
      J'.progress = .terminal (unsatisfiedDisposition policy).2.1 → J'.namespaceId = J.namespaceId →
      J'.grouping = .graph g i (some (unsatisfiedDisposition policy).1) →
      b.notice n = none →
      Move M b ((b.putJob j J').putNotice n ⟨j, (unsatisfiedDisposition policy).2.1, J'.revision⟩)
  | dispatch {b : Board} {j r e a : Id} {J J' : JobFacts} {R : RunFacts} {E : ExecutionFacts}
      {A : AssignmentFacts} : M.dispatches = true →
      b.job j = some J → J.progress = .live .accepted → J.desiredState = .run →
      b.run r = none → b.execution e = none → b.assignment a = none →
      (J.grouping.graphId ≠ none → ∀ key edge, b.edge key = some edge →
        key.downstreamJobId = j → b.Satisfied key edge) →
      J'.namespaceId = J.namespaceId → J'.grouping = J.grouping →
      R.namespaceId = J.namespaceId → R.jobId = j →
      E.namespaceId = J.namespaceId → E.runId = r → A.executionId = e →
      phases J' R E A = ⟨.live .assigning, .live .assigning, .live .planned, .offered⟩ →
      J'.desiredState = .run →
      Move M b (b.putBundle j J' r R e E a A)
  | advance {b : Board} {j r e a : Id} {J J' : JobFacts} {R R' : RunFacts}
      {E E' : ExecutionFacts} {A A' : AssignmentFacts} :
      b.Bundle j J r R e E a A → SameWork J R E A J' R' E' A' →
      Advance (phases J R E A) (phases J' R' E' A') →
      (J'.desiredState = .cancel → J.desiredState = .cancel ∨ b.Asked e) →
      Move M b (b.putBundle j J' r R' e E' a A')
  | finish {b : Board} {j r e a n : Id} {J J' : JobFacts} {R R' : RunFacts}
      {E E' : ExecutionFacts} {A A' : AssignmentFacts} {o : Outcome} :
      b.Bundle j J r R e E a A → SameWork J R E A J' R' E' A' →
      Finish (phases J R E A) (phases J' R' E' A') o → b.notice n = none →
      (A'.decision = .accepted → b.Reported e ∧ J'.desiredState = J.desiredState) →
      Move M b ((b.putBundle j J' r R' e E' a A').putNotice n ⟨j, o, J'.revision⟩)
  | record {b : Board} {v : Id} (V : EventFacts) {E : ExecutionFacts} :
      b.event v = none → b.execution V.executionId = some E →
      E.progress = .live .accepted ∨ E.progress = .live .running →
      Move M b { b with event := update b.event v (some V) }
  | ask {b : Board} {n : Id} (X : ActionFacts) :
      b.action n = none → X.state = .pending →
      Move M b { b with action := update b.action n (some X) }

end Lifecycle
end JobmanControl
