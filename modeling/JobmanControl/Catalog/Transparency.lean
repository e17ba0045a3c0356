import JobmanControl.Store.Service
import Mathlib.Tactic.Simps.Basic

/-!
The transactions of work that is under way do not look at the targets: an agent's
report, a cancellation, a log chunk and an acknowledgement do the same, and answer the
same, whatever the rows of the targets are. What an agent needs before, to be
authenticated, depends on its target's state only through whether it serves.
-/

namespace JobmanControl

open Relational

/-- The same store with other targets. -/
@[simps]
def Db.retarget (targets : Table Id TargetRow) (db : Db) : Db := { db with targets := targets }

/-- A sequence of statements that does not look at the targets. -/
def IgnoresTargets (f : Db → Except StoreError Db) : Prop :=
  ∀ targets db, f (db.retarget targets) = (f db).map (Db.retarget targets)

/-- A call that does not look at the targets. -/
def CallIgnoresTargets {α : Type} (f : Tx StoreError Db α) : Prop :=
  ∀ targets db, f (db.retarget targets) = (f db).map (Prod.map id (Db.retarget targets))

namespace IgnoresTargets

variable {f f' : Db → Except StoreError Db} (codec : Codec) (env : Env)

theorem pure {g : Db → Db} (h : ∀ targets db, g (db.retarget targets) = (g db).retarget targets) :
    IgnoresTargets fun db => .ok (g db) :=
  fun targets db => congrArg Except.ok (h targets db)

theorem bind (hf : IgnoresTargets f) (hf' : IgnoresTargets f') :
    IgnoresTargets fun db => f db >>= f' := by
  intro targets db
  change f (db.retarget targets) >>= f' = Except.map _ (f db >>= f')
  rw [hf]
  cases hdb : f db with
  | error e => rfl
  | ok db' => exact hf' targets db'

/-- A value that is read before the statements. -/
theorem after {β : Type} {read : Db → Except StoreError β} {k : β → Db → Except StoreError Db}
    (hread : (fun targets db => read (Db.retarget targets db)) = fun _ => read)
    (hk : ∀ b, IgnoresTargets (k b)) : IgnoresTargets fun db => read db >>= fun b => k b db := by
  intro targets db
  change read (db.retarget targets) >>= _ = Except.map _ (read db >>= _)
  rw [congrFun (congrFun hread targets) db]
  cases read db with
  | error e => rfl
  | ok b => exact hk b targets db

theorem foldlM {α : Type} {f : Db → α → Except StoreError Db} (h : ∀ a, IgnoresTargets (f · a)) :
    ∀ l : List α, IgnoresTargets (l.foldlM f)
  | [] => fun _ _ => rfl
  | a :: l => (h a).bind (foldlM h l)

theorem updateRun (id : Id) (f : RunRow → Except StoreError RunRow) :
    IgnoresTargets (Db.updateRun · id f) := by
  intro targets db
  simp only [Db.updateRun, Db.retarget_runs]
  cases db.runs.get? id with
  | none => rfl
  | some old =>
      dsimp only
      cases f old <;> rfl

theorem updateExecution (id : Id) (f : ExecutionRow → Except StoreError ExecutionRow) :
    IgnoresTargets (Db.updateExecution · id f) := by
  intro targets db
  simp only [Db.updateExecution, Db.retarget_executions]
  cases db.executions.get? id with
  | none => rfl
  | some old =>
      dsimp only
      cases f old <;> rfl

theorem enqueueMonitoringTerminalTransition (id : Id) (old new : JobRow) :
    IgnoresTargets (Db.enqueueMonitoringTerminalTransition env · id old new) := by
  intro targets db
  simp only [Db.enqueueMonitoringTerminalTransition, Db.retarget_runs, Db.retarget_outbox,
    Db.retarget_recovery]
  split
  · cases db.outbox.insert? (env.eventId id) _ <;> rfl
  · rfl

theorem updateJob (id : Id) (f : JobRow → Except StoreError JobRow) :
    IgnoresTargets (Db.updateJob codec env · id f) := by
  intro targets db
  simp only [Db.updateJob, Db.retarget_jobs]
  cases db.jobs.get? id with
  | none => rfl
  | some old =>
      dsimp only
      cases f old with
      | error e => rfl
      | ok changed =>
          exact enqueueMonitoringTerminalTransition env id old
            (db.recordJobLifecycle codec env id old changed) targets
            { db with jobs := db.jobs.modify id fun _ =>
                db.recordJobLifecycle codec env id old changed }

/-! The statements that close or cancel work of one job. -/

theorem cancelJobRow (jobId : Id) :
    IgnoresTargets (cancelJobRow codec env jobId) :=
  updateJob codec env jobId _

theorem withdrawPlanned (jobId : Id) (sibling : SiblingExecution) :
    IgnoresTargets (withdrawPlanned codec env jobId sibling) :=
  (pure (g := withdrawAssignment sibling.executionId) fun _ _ => rfl).bind
    ((updateExecution _ _).bind ((updateRun _ _).bind (cancelJobRow codec env jobId)))

theorem insertCancelAction (namespaceId executionId agentId : Id) :
    IgnoresTargets (insertCancelAction env namespaceId executionId agentId) := by
  intro targets db
  simp only [JobmanControl.insertCancelAction, Db.retarget_actions]
  split
  · rfl
  · cases db.actions.insert? (env.actionId executionId) _ <;> rfl

theorem requestCancellation (namespaceId jobId : Id) (sibling : SiblingExecution) :
    IgnoresTargets (requestCancellation codec env namespaceId jobId sibling) :=
  (insertCancelAction env namespaceId _ _).bind
    ((updateRun _ _).bind (updateJob codec env jobId _))

theorem cancelCollectionSibling (namespaceId : Id) (sibling : CollectionSibling) :
    IgnoresTargets (cancelCollectionSibling codec env namespaceId · sibling) := by
  intro targets db
  simp only [JobmanControl.cancelCollectionSibling]
  split
  · exact cancelJobRow codec env _ targets db
  · split
    · exact withdrawPlanned codec env _ _ targets db
    · exact requestCancellation codec env namespaceId _ _ targets db

theorem applyCollectionCompletion (namespaceId jobId : Id) (outcome : Outcome) :
    IgnoresTargets (applyCollectionCompletion codec env .alone namespaceId jobId outcome) := by
  intro targets db
  simp only [JobmanControl.applyCollectionCompletion, Db.retarget_jobs, Db.retarget_collections]
  cases db.jobs.get? jobId with
  | none => rfl
  | some job =>
      dsimp only
      split
      · rfl
      · cases job.grouping.collectionId with
        | none => rfl
        | some collectionId =>
            dsimp only
            cases db.collections.get? collectionId with
            | none => rfl
            | some collection =>
                have hsiblings : IgnoresTargets fun db =>
                    (failFastSiblings db collectionId jobId).foldlM
                      (JobmanControl.cancelCollectionSibling codec env namespaceId) db :=
                  fun targets db => foldlM (cancelCollectionSibling codec env namespaceId)
                    (failFastSiblings db collectionId jobId) targets db
                have htouch : IgnoresTargets fun db => .ok { db with
                    collections := db.collections.modify collectionId (CollectionRow.touch env) } :=
                  pure fun _ _ => rfl
                dsimp only
                split
                · exact hsiblings.bind htouch targets db
                · exact htouch targets db

theorem disposeNode (namespaceId : Id) (policy : UnsatisfiedPolicy) (jobId : Id) :
    IgnoresTargets (disposeNode codec env namespaceId policy jobId) :=
  (updateJob codec env jobId _).bind (pure fun _ _ => rfl)

theorem propagate (locked : Id → Bool) (namespaceId graphId : Id) (policy : UnsatisfiedPolicy)
    (fuel : Nat) :
    IgnoresTargets (propagate codec env locked namespaceId graphId policy fuel) := by
  induction fuel with
  | zero => exact fun _ _ => rfl
  | succ fuel ih =>
      intro targets db
      have hcandidate : propagationCandidate locked graphId (db.retarget targets) =
        propagationCandidate locked graphId db := rfl
      simp only [JobmanControl.propagate, hcandidate]
      cases propagationCandidate locked graphId db with
      | none => rfl
      | some jobId => exact (disposeNode codec env namespaceId policy jobId).bind ih targets db

theorem applyGraphCompletion (view : GroupView) (namespaceId jobId : Id) :
    IgnoresTargets (applyGraphCompletion codec env view namespaceId jobId) := by
  intro targets db
  simp only [JobmanControl.applyGraphCompletion, Db.retarget_jobs, Db.retarget_graphs]
  cases db.jobs.get? jobId with
  | none => rfl
  | some job =>
      dsimp only
      split
      · rfl
      · cases job.grouping.graphId with
        | none => rfl
        | some graphId =>
            dsimp only
            cases db.graphs.get? graphId with
            | none => rfl
            | some graph =>
                exact (propagate codec env view.locked namespaceId graphId graph.unsatisfiedPolicy
                  db.jobs.entries.length).bind (pure fun _ _ => rfl) targets db

theorem cancelJobExecution (namespaceId jobId : Id) :
    IgnoresTargets (cancelJobExecution codec env namespaceId jobId) := by
  intro targets db
  have hexecutions : (db.retarget targets).executionsOf jobId = db.executionsOf jobId := rfl
  simp only [JobmanControl.cancelJobExecution, hexecutions]
  cases (db.executionsOf jobId).head? with
  | none => exact cancelJobRow codec env jobId targets db
  | some entry =>
      dsimp only
      split
      · exact withdrawPlanned codec env jobId _ targets db
      · exact requestCancellation codec env namespaceId jobId _ targets db

/-! The report of an agent. -/

variable (event : ExecutionObservation) (runId jobId : Id)

theorem enterRunning :
    IgnoresTargets (enterRunning codec env runId jobId) :=
  (updateRun _ _).bind (updateJob codec env jobId _)

theorem finishWork (outcome : Outcome) :
    IgnoresTargets (finishWork codec env runId jobId outcome) :=
  (updateRun _ _).bind (updateJob codec env jobId _)

theorem recordProcessStarted :
    IgnoresTargets (recordProcessStarted codec env event runId jobId) :=
  (updateExecution _ _).bind (enterRunning codec env runId jobId)

theorem recordScheduler :
    IgnoresTargets (recordScheduler codec env event runId jobId) := by
  intro targets db
  unfold JobmanControl.recordScheduler
  cases observedScheduler event with
  | error e => rfl
  | ok scheduler =>
      by_cases hrunning : event.schedulerState = some .running
      · simp only [if_pos hrunning]
        exact (updateExecution _ _).bind
          ((updateRun _ _).bind (updateJob codec env jobId _)) targets db
      · simp only [if_neg hrunning]
        exact (updateExecution _ _).bind (updateJob codec env jobId _) targets db

theorem recordCompleted (outcome : Outcome) :
    IgnoresTargets (recordCompleted codec env event runId jobId outcome) := by
  intro targets db
  unfold JobmanControl.recordCompleted
  cases codec.processResult event.document with
  | none => rfl
  | some result =>
      exact (updateExecution _ _).bind (finishWork codec env runId jobId outcome) targets db

theorem recordTransition :
    IgnoresTargets (recordTransition codec env event runId jobId) := by
  intro targets db
  unfold JobmanControl.recordTransition
  split
  · exact recordProcessStarted codec env event runId jobId targets db
  · exact recordScheduler codec env event runId jobId targets db
  · exact recordScheduler codec env event runId jobId targets db
  · exact recordScheduler codec env event runId jobId targets db
  · cases event.outcome with
    | none => rfl
    | some outcome => exact recordCompleted codec env event runId jobId outcome targets db
  · cases event.outcome with
    | none => rfl
    | some outcome => exact recordCompleted codec env event runId jobId outcome targets db

theorem completeGroup (namespaceId jobId : Id) (event : ExecutionObservation) :
    IgnoresTargets (completeGroup codec env .alone namespaceId jobId event) := by
  intro targets db
  unfold JobmanControl.completeGroup
  split
  · cases event.outcome with
    | none => rfl
    | some outcome =>
        exact (applyCollectionCompletion codec env namespaceId jobId outcome).bind
          (applyGraphCompletion codec env .alone namespaceId jobId) targets db
  · rfl

theorem insertExecutionEvent (identity : AgentIdentity) (event : ExecutionObservation) :
    IgnoresTargets (insertExecutionEvent env identity event) :=
  after rfl fun _ => after rfl fun _ => pure fun _ _ => rfl

theorem insertArtifact (identity : AgentIdentity) (event : ExecutionObservation)
    (artifact : PublishedArtifact) :
    IgnoresTargets (insertArtifact identity event · artifact) :=
  after rfl fun _ => after rfl fun _ => after rfl fun _ => pure fun _ _ => rfl

theorem completeIdempotency (authorization : Authorization) (operation : IdempotentOperation)
    (key : String) (resourceId : Id) (status : Nat) :
    IgnoresTargets (completeIdempotency env · authorization operation key resourceId status) :=
  after rfl fun _ => after rfl fun _ => pure fun _ _ => rfl

/-! A chunk of a log. -/

theorem openLogStream (identity : AgentIdentity) (chunk : LogChunk) :
    IgnoresTargets (openLogStream identity chunk) := by
  refine after rfl fun _ => after rfl fun _ => ?_
  intro targets db
  simp only [Db.retarget_logStreams]
  cases db.logStreams.insert? (chunk.executionId, chunk.stream) _ <;> rfl

theorem appendLogChunk (identity : AgentIdentity) (chunk : LogChunk) (stream : LogStreamRow) :
    IgnoresTargets (appendLogChunk env identity chunk stream) := by
  have hinsert : IgnoresTargets (insertLogChunk env identity chunk) :=
    after rfl fun _ => after rfl fun _ => after rfl fun _ => after rfl fun _ => pure fun _ _ => rfl
  refine after rfl fun _ => after rfl fun _ => after rfl fun _ => after rfl fun _ => hinsert.bind ?_
  refine after rfl fun projection => pure fun targets db => ?_
  unfold advanceLogStream
  dsimp only
  split <;> rfl

end IgnoresTargets

namespace CallIgnoresTargets

variable {α β : Type}

theorem answer (a : α) : CallIgnoresTargets fun db => .ok (a, db) := fun _ _ => rfl

theorem after {read : Db → Except StoreError β} {k : β → Tx StoreError Db α}
    (hread : (fun targets db => read (Db.retarget targets db)) = fun _ => read)
    (hk : ∀ b, CallIgnoresTargets (k b)) :
    CallIgnoresTargets fun db => read db >>= fun b => k b db := by
  intro targets db
  change read (db.retarget targets) >>= _ = Except.map _ (read db >>= _)
  rw [congrFun (congrFun hread targets) db]
  cases read db with
  | error e => rfl
  | ok b => exact hk b targets db

theorem bind {f : Db → Except StoreError Db} {k : Tx StoreError Db α}
    (hf : IgnoresTargets f) (hk : CallIgnoresTargets k) :
    CallIgnoresTargets fun db => f db >>= k := by
  intro targets db
  change f (db.retarget targets) >>= k = Except.map _ (f db >>= k)
  rw [hf]
  cases f db with
  | error e => rfl
  | ok db' => exact hk targets db'

theorem bindTx {f : Tx StoreError Db β} {k : β × Db → Except StoreError (α × Db)}
    (hf : CallIgnoresTargets f) (hk : ∀ b, CallIgnoresTargets fun db => k (b, db)) :
    CallIgnoresTargets fun db => f db >>= k := by
  intro targets db
  change f (db.retarget targets) >>= k = Except.map _ (f db >>= k)
  rw [hf]
  cases f db with
  | error e => rfl
  | ok entry => exact hk entry.1 targets entry.2

theorem reserveIdempotency (authorization : Authorization) (operation : IdempotentOperation)
    (type : ResourceType) (key digest : String) (status : Nat) :
    CallIgnoresTargets
      (JobmanControl.reserveIdempotency · authorization operation type key digest status) := by
  refine after rfl fun _ => ?_
  have hreplay : ∀ persisted : IdempotencyRow, CallIgnoresTargets fun db => (do
      ensure (persisted.requestDigest = digest) .idempotencyConflict
      let response ← need persisted.response (.invalid "idempotency record is incomplete")
      ensure (persisted.resourceType = type ∧ response.status = status)
        (.invalid "idempotency record is incomplete")
      pure (some response.resourceId, db)) :=
    fun persisted => after rfl fun _ => after rfl fun response =>
      after rfl fun _ => answer (some response.resourceId)
  intro targets db
  simp only [Db.retarget_idempotency]
  cases db.idempotency.insert? _ _ with
  | some idempotency => rfl
  | none =>
      dsimp only
      cases db.idempotency.get? _ with
      | none => rfl
      | some persisted => exact hreplay persisted targets db

theorem recordExecutionEvent (codec : Codec) (env : Env) (identity : AgentIdentity)
    (event : ExecutionObservation) :
    CallIgnoresTargets (recordExecutionEvent codec env .alone identity event) := by
  refine after rfl fun execution => after rfl fun _ => after rfl fun run =>
    after rfl fun generation => after rfl fun _ => ?_
  have hreplay : ∀ existing : ExecutionEventRow, CallIgnoresTargets fun db =>
      ensure (existing.documentDigest = event.documentDigest) .idempotencyConflict >>= fun _ =>
        .ok (true, db) :=
    fun existing => after rfl fun _ => answer true
  have hrest := bind (.recordTransition codec env event execution.runId run.jobId)
    (bind (.completeGroup codec env identity.namespaceId run.jobId event)
      (bind (.updateExecution event.executionId fun execution => .ok
        { execution with confidence := observedConfidence event }) (answer false)))
  have hpublish := bind
    (.foldlM (.insertArtifact identity event) (codec.publishedArtifacts event.document)) hrest
  have hchecked : ∀ {k : Tx StoreError Db Bool}, CallIgnoresTargets k →
      CallIgnoresTargets fun db =>
        checkExecutionEvent codec db execution generation event >>= fun _ => k db :=
    fun hk => after rfl fun _ => hk
  intro targets db
  simp only [Db.retarget_events]
  cases (db.events.get? event.eventId).filter _ with
  | some existing => exact hreplay existing targets db
  | none =>
      dsimp only
      split
      · exact hchecked (bind (.insertExecutionEvent env identity event) hpublish) targets db
      · exact hchecked (bind (.insertExecutionEvent env identity event) hrest) targets db

theorem cancelJob (codec : Codec) (env : Env) (authorization : Except StoreError Authorization)
    (jobId : Id) (key digest : String) :
    CallIgnoresTargets (cancelJob codec env .alone authorization jobId key digest) := by
  refine after rfl fun granted => after rfl fun job => after rfl fun _ => after rfl fun _ =>
    bindTx (reserveIdempotency _ _ _ _ _ _) fun replayed => ?_
  cases replayed with
  | some resource => exact after rfl fun _ => after rfl fun job => answer job
  | none =>
      dsimp only
      split
      · exact bind (.completeIdempotency env granted _ key jobId 200)
          (after rfl fun job => answer job)
      · refine bind (.cancelJobExecution codec env granted.namespaceId jobId)
          (bind (.completeIdempotency env granted _ key jobId 200)
            (after rfl fun job => ?_))
        split
        · exact bind (.applyGraphCompletion codec env .alone granted.namespaceId jobId) (answer job)
        · exact answer job

theorem cancelGraph (codec : Codec) (env : Env) (authorization : Except StoreError Authorization)
    (graphId : Id) (key digest : String) :
    CallIgnoresTargets (cancelGraph codec env .alone authorization graphId key digest) := by
  refine after rfl fun granted => after rfl fun graph => after rfl fun _ => after rfl fun _ =>
    bindTx (reserveIdempotency _ _ _ _ _ _) fun replayed => ?_
  cases replayed with
  | some resource => exact after rfl fun _ => after rfl fun graph => answer graph
  | none =>
      have hnodes : IgnoresTargets fun db => (graphCancellationNodes db graphId).foldlM
          (cancelCollectionSibling codec env granted.namespaceId) db :=
        fun targets db => IgnoresTargets.foldlM
          (.cancelCollectionSibling codec env granted.namespaceId)
          (graphCancellationNodes db graphId) targets db
      have hcomplete : CallIgnoresTargets fun db =>
          JobmanControl.completeIdempotency env db granted .graphsCancel key graphId 200 >>=
            fun db => getGraphById db granted.namespaceId graphId >>=
              fun graph => pure (graph, db) :=
        bind (.completeIdempotency env granted .graphsCancel key graphId 200)
          (after rfl fun graph => answer graph)
      exact bind hnodes fun targets db => hcomplete targets (Db.appendAudit
        { db with graphs := db.graphs.modify graphId (GraphRow.touch env) }
        ⟨granted.namespaceId, .principal granted.principalId, .graphCancelled, .graph,
          graphId, some digest, some key⟩)

theorem commitLogChunk (uuid : Id → String) (env : Env) (identity : AgentIdentity)
    (chunk : LogChunk) :
    CallIgnoresTargets (commitLogChunk uuid Db.chunkAt env identity chunk) := by
  refine after rfl fun _ => after rfl fun row => after rfl fun _ => after rfl fun _ =>
    after rfl fun _ => after rfl fun _ => bind (.openLogStream identity chunk)
      (after rfl fun stream => ?_)
  have hreplay : ∀ prior : LogChunkRow, CallIgnoresTargets fun db =>
      ensure (prior.documentDigest = chunk.documentDigest) .idempotencyConflict >>= fun _ =>
        .ok (true, db) :=
    fun prior => after rfl fun _ => answer true
  intro targets db
  have hchunk : (db.retarget targets).chunkAt chunk.key = db.chunkAt chunk.key := rfl
  simp only [hchunk]
  cases db.chunkAt chunk.key with
  | some prior => exact hreplay prior targets db
  | none => exact bind (.appendLogChunk env identity chunk stream) (answer false) targets db

theorem listDesiredActions (env : Env) (identity : AgentIdentity) (limit : Int) :
    CallIgnoresTargets (listDesiredActions env identity limit) :=
  after rfl fun _ _ _ => rfl

theorem acknowledgeDesiredAction (identity : AgentIdentity)
    (acknowledgement : ActionAcknowledgement) :
    CallIgnoresTargets (acknowledgeDesiredAction identity acknowledgement) := by
  refine after rfl fun action => after rfl fun _ => ?_
  intro targets db
  dsimp only
  split <;> rfl

end CallIgnoresTargets

end JobmanControl
