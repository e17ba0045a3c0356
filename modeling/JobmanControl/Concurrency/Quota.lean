import JobmanControl.Concurrency.Committed
import JobmanControl.Library.Session

/-!
Submissions that interleave. The statement of `enforceNamespaceQuota` locks the
policy row of the namespace and counts its unfinished jobs. The count belongs to
the snapshot the statement began with, so a submission that had to wait for the
lock checks the quota against a count from before the wait. The quota holds as
long as the room it has found there is not taken meanwhile.
-/

namespace JobmanControl

open Relational Interleaving Lifecycle Lifecycle.Board

variable {db db' : Db} {n : Id} {placement : ResolvedPlacement}
  {entry : (JobSubmission × ResolvedPlacement) × Nat} {queued : Db → Id → Nat}
  {limit : NamespaceLimit}

variable {M : Licence}

inductive SubmissionRequest
  | job (authorization : Except StoreError Authorization) (idempotencyKey : String)
      (jobId outboxId : Id) (submission : JobSubmission)
  | collection (authorization : Except StoreError Authorization) (idempotencyKey : String)
      (ids : GroupIds) (submission : CollectionSubmission)
  | graph (authorization : Except StoreError Authorization) (idempotencyKey : String)
      (ids : GroupIds) (submission : GraphSubmission)

inductive SubmissionStage
  | reserving
  | counting
  /-- The quota statement has counted and waits for the policy row. -/
  | locking (count : Nat)
  /-- The policy row is locked and the jobs can be written. -/
  | admitted (count : Nat)

structure Submitter where
  env : Env
  request : SubmissionRequest
  stage : SubmissionStage

namespace SubmissionRequest

def authorization : SubmissionRequest → Except StoreError Authorization
  | .job authorization .. | .collection authorization .. | .graph authorization .. => authorization

def namespaceId (request : SubmissionRequest) : Option Id :=
  request.authorization.toOption.map (·.namespaceId)

/-- The key `reserveIdempotency` inserts; a second insertion of it waits. -/
def reserves (request : SubmissionRequest) : List RowKey :=
  request.authorization.toOption.toList.map fun authorization =>
    let key (operation : IdempotentOperation) (key : String) : IdempotencyKey :=
      ⟨authorization.namespaceId, authorization.principalId, operation, key⟩
    match request with
    | .job _ idempotencyKey _ _ _ => .idempotency (key .jobsCreate idempotencyKey)
    | .collection _ idempotencyKey _ _ => .idempotency (key .collectionsCreate idempotencyKey)
    | .graph _ idempotencyKey _ _ => .idempotency (key .graphsCreate idempotencyKey)

/-- What the sub-select of the quota statement returns on its snapshot. -/
def counts (db : Db) (request : SubmissionRequest) : Nat :=
  match request.namespaceId with
  | some namespaceId => queuedJobs db namespaceId
  | none => 0

def additionalJobs : SubmissionRequest → Nat
  | .job .. => 1
  | .collection _ _ _ submission => submission.items.length
  | .graph _ _ _ submission => submission.nodes.length

def run (codec : Codec) (env : Env) (queued : Db → Id → Nat) (db : Db) :
    SubmissionRequest → Option Db
  | .job authorization key jobId outboxId submission =>
      committed (submitJob codec env queued authorization key jobId outboxId submission) db
  | .collection authorization key ids submission =>
      committed (submitCollection codec env queued authorization key ids submission) db
  | .graph authorization key ids submission =>
      committed (submitGraph codec env queued authorization key ids submission) db

end SubmissionRequest

def Submitter.wants (submitter : Submitter) : List RowKey :=
  match submitter.stage with
  | .reserving => submitter.request.reserves
  | .locking _ => (submitter.request.namespaceId.map RowKey.policy).toList
  | .counting | .admitted _ => []

def Submitter.advance (db : Db) (submitter : Submitter) : Submitter :=
  { submitter with
    stage :=
      match submitter.stage with
      | .reserving => .counting
      | .counting => .locking (submitter.request.counts db)
      | .locking count | .admitted count => .admitted count }

def Submitter.commit (codec : Codec) (submitter : Submitter) (db : Db) : Option Db :=
  match submitter.stage with
  | .admitted count => submitter.request.run codec submitter.env (fun _ _ => count) db
  | .reserving | .counting | .locking _ => none

/-- The calls that neither submit jobs nor change policies. -/
abbrev WorkCall :=
  { call : Call //
    call.operation.licence.submits = false ∧ call.operation.licence.configures = false }

/-- Submissions as sessions, among calls that move the jobs there are. -/
def submitting (codec : Codec) :
    Protocol Db Submitter (Env × SubmissionRequest) WorkCall RowKey where
  call call := call.1.apply codec
  start request := ⟨request.1, request.2, .reserving⟩
  wants _ _ submitter := submitter.wants
  advance _ db submitter := submitter.advance db
  commit submitter db := submitter.commit codec db
  same key db db' := db.sameRow key db'

abbrev SubmissionWorld := World Db Submitter RowKey

/-- A submission to the namespace that is within the quota by its count still is when
it gets the lock. -/
def countStands (n : Id) (w : SubmissionWorld) : Action (Env × SubmissionRequest) WorkCall → Bool
  | .advance i =>
      match (w.sessions.get? i).map fun s => (s.state.request, s.state.stage),
        w.committed.policies.get? n with
      | some (request, SubmissionStage.locking count), some policy =>
          request.namespaceId ≠ some n || policy.maxQueuedJobs < count + request.additionalJobs ||
            queuedJobs w.committed n + request.additionalJobs ≤ policy.maxQueuedJobs
      | _, _ => true
  | _ => true

/-- The jobs of the first store are in the second one as they were; the others are
listed and belong to the namespace. -/
def JobsAdded (n : Id) (l : List Id) (db db' : Db) : Prop :=
  ∀ j job, db'.jobs.get? j = some job →
    db.jobs.get? j = some job ∨ j ∈ l ∧ job.namespaceId = n

variable {key : String} {ids : GroupIds} {auth : Except StoreError Authorization}

section Added

variable {codec : Codec} {env : Env} {authorization : Authorization} {l : List Id}

theorem jobsAdded_of_jobs_eq (h : db'.jobs = db.jobs) : JobsAdded n l db db' :=
  fun _ _ hj => Or.inl (h ▸ hj)

theorem JobsAdded.trans {db₁ db₂ db₃ : Db} (h : JobsAdded n l db₁ db₂)
    (h' : JobsAdded n l db₂ db₃) : JobsAdded n l db₁ db₃ := by
  intro j job hj
  obtain hold | hnew := h' j job hj
  · exact h j job hold
  · exact Or.inr hnew

theorem JobsAdded.queuedJobs_le (h : JobsAdded n l db db') :
    queuedJobs db' n ≤ queuedJobs db n + l.length := by
  refine Table.count_le_count_add l fun j job hj hp => ?_
  obtain hold | ⟨hlisted, -⟩ := h j job hj
  · exact Or.inr ⟨job, hold, hp⟩
  · exact Or.inl hlisted

theorem JobsAdded.queuedJobs_le_of_ne (h : JobsAdded n l db db') {m : Id} (hm : m ≠ n) :
    queuedJobs db' m ≤ queuedJobs db m := by
  refine Table.count_le_count fun j job hj hp => ?_
  obtain hold | ⟨-, hns⟩ := h j job hj
  · exact ⟨job, hold, hp⟩
  · rw [Bool.and_eq_true, decide_eq_true_eq] at hp
    exact absurd (hp.1.symm.trans hns) hm

theorem jobsAdded_insertJob {j : Id} {submission : JobSubmission}
    (h : insertJob env db authorization j submission placement = .ok db') (hj : j ∈ l) :
    JobsAdded authorization.namespaceId l db db' := by
  simp only [insertJob, bind_ok_iff, need_ok_iff, pure_ok_iff] at h
  obtain ⟨jobs, hinsert, rfl⟩ := h
  intro k job hk
  rw [show ({ db with jobs := jobs } : Db).jobs = jobs from rfl, Table.get?_insert hinsert] at hk
  split at hk
  · rename_i hkj
    cases hk
    exact Or.inr ⟨hkj ▸ hj, rfl⟩
  · exact Or.inl hk

theorem jobsAdded_insertBoundJob {j : Id} {item : JobSubmission} {grouping : Grouping}
    (h : insertBoundJob codec env authorization j item placement grouping db = .ok db')
    (hj : j ∈ l) : JobsAdded authorization.namespaceId l db db' := by
  simp only [insertBoundJob, bind_ok_iff, pure_ok_iff] at h
  obtain ⟨db₁, hworkload, db₂, hinsert, rfl⟩ := h
  obtain ⟨t, rfl⟩ := insertWorkloadRevision_ok hworkload
  obtain ⟨-, hget, -⟩ := board_insertJob hinsert
  have hadded := jobsAdded_insertJob hinsert hj
  intro k job hk
  rw [Table.get?_modify] at hk
  split at hk
  · rename_i hkj
    rw [hkj, hget] at hk
    cases hk
    exact Or.inr ⟨hkj ▸ hj, rfl⟩
  · exact hadded k job hk

theorem jobsAdded_insertCollectionItem
    (h : insertCollectionItem codec env authorization key ids db entry = .ok db')
    (hj : ids.jobId entry.2 ∈ l) : JobsAdded authorization.namespaceId l db db' := by
  obtain ⟨⟨item, placement⟩, index⟩ := entry
  simp only [insertCollectionItem, bind_ok_iff] at h
  obtain ⟨db₁, hbound, items, -, hevidence⟩ := h
  obtain ⟨_, rfl⟩ := insertOutbox_ok hevidence
  have hadded := jobsAdded_insertBoundJob hbound hj
  exact hadded

theorem jobsAdded_insertGraphNode
    (h : insertGraphNode codec env authorization key ids db entry = .ok db')
    (hj : ids.jobId entry.2 ∈ l) : JobsAdded authorization.namespaceId l db db' := by
  obtain ⟨⟨item, placement⟩, index⟩ := entry
  simp only [insertGraphNode, bind_ok_iff] at h
  obtain ⟨db₁, hbound, nodes, -, hevidence⟩ := h
  obtain ⟨_, rfl⟩ := insertOutbox_ok hevidence
  have hadded := jobsAdded_insertBoundJob hbound hj
  exact hadded

theorem jobs_insertGraphEdge {nodes : List JobSubmission} {edge : GraphEdgeSubmission}
    (h : insertGraphEdge ids nodes db edge = .ok db') : db'.jobs = db.jobs := by
  simp only [insertGraphEdge, bind_ok_iff, pure_ok_iff] at h
  obtain ⟨_, -, _, -, _, -, _, -, _, -, rfl⟩ := h
  rfl

theorem jobsAdded_members {α β : Type} {members : List α} {placements : List β}
    {f : Db → (α × β) × Nat → Except StoreError Db} (hf : ∀ d entry d', f d entry = .ok d' →
      ids.jobId entry.2 ∈ (List.range members.length).map ids.jobId →
      JobsAdded n ((List.range members.length).map ids.jobId) d d')
    (h : (members.zip placements).zipIdx.foldlM f db = .ok db') :
    JobsAdded n ((List.range members.length).map ids.jobId) db db' := by
  refine foldlM_ok_induction
    (P := fun d => JobsAdded n ((List.range members.length).map ids.jobId) db d) _ ?_
    (jobsAdded_of_jobs_eq rfl) h
  intro d entry d' hmem hd hstep
  refine hd.trans (hf d entry d' hstep (List.mem_map_of_mem (List.mem_range.mpr ?_)))
  have hlt := List.snd_lt_of_mem_zipIdx hmem
  rw [List.length_zip] at hlt
  omega

theorem enforceNamespaceQuota_ok {additionalJobs collectionItems graphNodes : Nat}
    (h : enforceNamespaceQuota queued db n additionalJobs collectionItems graphNodes = .ok ()) :
    ∃ policy, db.policies.get? n = some policy ∧
      queued db n + additionalJobs ≤ policy.maxQueuedJobs := by
  simp only [enforceNamespaceQuota, checkNamespaceQuota, bind_ok_iff, need_ok_iff,
    ensure_ok_iff] at h
  obtain ⟨policy, hpolicy, _, hjobs, -⟩ := h
  exact ⟨policy, hpolicy, hjobs.2⟩

/-- A submission writes no jobs, or those it was admitted for. -/
def Admits (queued : Db → Id → Nat) (authorization : Except StoreError Authorization)
    (additionalJobs : Nat) (db db' : Db) : Prop :=
  db'.jobs = db.jobs ∨ ∃ granted policy l d, authorization = .ok granted ∧
    db.policies.get? granted.namespaceId = some policy ∧
    queued d granted.namespaceId + additionalJobs ≤ policy.maxQueuedJobs ∧
    l.length = additionalJobs ∧ JobsAdded granted.namespaceId l db db'

theorem admits_submitJob {jobId outboxId : Id} {submission : JobSubmission} {result : SubmitResult}
    (h : submitJob codec env queued auth key jobId outboxId submission db = .ok (result, db')) :
    Admits queued auth 1 db db' := by
  simp only [submitJob, bind_ok_iff] at h
  obtain ⟨_, -, _, -, authorization, hauth, ⟨replayed, db₁⟩, hreserve, h⟩ := h
  obtain ⟨t, rfl⟩ := reserveIdempotency_ok hreserve
  cases replayed with
  | some _ =>
      simp only [bind_ok_iff, pure_ok_iff] at h
      obtain ⟨_, -, heq⟩ := h
      cases heq
      exact Or.inl rfl
  | none =>
      simp only [bind_ok_iff, pure_ok_iff] at h
      obtain ⟨_, hquota, placement, -, db₂, hworkload, db₃, hinsert, _, -, db₄, hcomplete, db₅,
        hevidence, heq⟩ := h
      cases heq
      obtain ⟨policy, hpolicy, hjobs⟩ := enforceNamespaceQuota_ok hquota
      obtain ⟨t₂, rfl⟩ := insertWorkloadRevision_ok hworkload
      obtain ⟨t₄, rfl⟩ := completeIdempotency_ok hcomplete
      obtain ⟨_, rfl⟩ := insertOutbox_ok hevidence
      have hadded := jobsAdded_insertJob (l := [jobId]) hinsert List.mem_cons_self
      exact Or.inr ⟨authorization, policy, [jobId], _, hauth, hpolicy, hjobs, rfl, hadded⟩

theorem admits_submitCollection {submission : CollectionSubmission} {result : CollectionResult}
    (h : submitCollection codec env queued auth key ids submission db = .ok (result, db')) :
    Admits queued auth submission.items.length db db' := by
  simp only [submitCollection, bind_ok_iff] at h
  obtain ⟨_, -, _, -, authorization, hauth, ⟨replayed, db₁⟩, hreserve, h⟩ := h
  obtain ⟨t, rfl⟩ := reserveIdempotency_ok hreserve
  cases replayed with
  | some _ =>
      simp only [bind_ok_iff, pure_ok_iff, Prod.mk.injEq] at h
      obtain ⟨_, -, -, rfl⟩ := h
      exact Or.inl rfl
  | none =>
      simp only [bind_ok_iff, pure_ok_iff, Prod.mk.injEq] at h
      obtain ⟨_, hquota, placements, -, mode, -, collections, -, db₂, hitems, db₃, hcomplete, db₄,
        hout, _, -, -, rfl⟩ := h
      obtain ⟨policy, hpolicy, hjobs⟩ := enforceNamespaceQuota_ok hquota
      obtain ⟨t₃, rfl⟩ := completeIdempotency_ok hcomplete
      obtain ⟨_, rfl⟩ := insertOutbox_ok hout
      have hadded := jobsAdded_members
        (fun d entry d' hstep => jobsAdded_insertCollectionItem hstep) hitems
      exact Or.inr ⟨authorization, policy, _, _, hauth, hpolicy, hjobs, by simp, hadded⟩

theorem admits_submitGraph {submission : GraphSubmission} {result : GraphResult}
    (h : submitGraph codec env queued auth key ids submission db = .ok (result, db')) :
    Admits queued auth submission.nodes.length db db' := by
  simp only [submitGraph, bind_ok_iff] at h
  obtain ⟨_, -, _, -, authorization, hauth, ⟨replayed, db₁⟩, hreserve, h⟩ := h
  obtain ⟨t, rfl⟩ := reserveIdempotency_ok hreserve
  cases replayed with
  | some _ =>
      simp only [bind_ok_iff, pure_ok_iff, Prod.mk.injEq] at h
      obtain ⟨_, -, -, rfl⟩ := h
      exact Or.inl rfl
  | none =>
      simp only [bind_ok_iff, pure_ok_iff, Prod.mk.injEq] at h
      obtain ⟨_, hquota, placements, -, graphs, -, db₂, hnodes, db₃, hedges, db₄, hcomplete, db₅,
        hout, _, -, -, rfl⟩ := h
      obtain ⟨policy, hpolicy, hjobs⟩ := enforceNamespaceQuota_ok hquota
      obtain ⟨t₃, rfl⟩ := completeIdempotency_ok hcomplete
      obtain ⟨_, rfl⟩ := insertOutbox_ok hout
      have hadded := jobsAdded_members
        (fun d entry d' hstep => jobsAdded_insertGraphNode hstep) hnodes
      have hsame : db₃.jobs = db₂.jobs :=
        foldlM_ok_induction (P := fun d => d.jobs = db₂.jobs) _
          (fun d edge d' _ hd hstep => (jobs_insertGraphEdge hstep).trans hd) rfl hedges
      have hall := hadded.trans (jobsAdded_of_jobs_eq hsame)
      exact Or.inr ⟨authorization, policy, _, _, hauth, hpolicy, hjobs, by simp, hall⟩

end Added

theorem SubmissionRequest.run_admits {codec : Codec} {env : Env} {request : SubmissionRequest}
    (h : request.run codec env queued db = some db') :
    Moves .submission db.board db'.board ∧
      Admits queued request.authorization request.additionalJobs db db' := by
  have hmoves : Effect .submission (fun _ => false) db.board db'.board →
      Moves .submission db.board db'.board := Effect.moves
  cases request with
  | job =>
      obtain ⟨result, hok⟩ := (committed_eq_some_iff _ _ _).mp h
      exact ⟨hmoves (effect_submitJob hok), admits_submitJob hok⟩
  | collection =>
      obtain ⟨result, hok⟩ := (committed_eq_some_iff _ _ _).mp h
      exact ⟨hmoves (effect_submitCollection hok), admits_submitCollection hok⟩
  | graph =>
      obtain ⟨result, hok⟩ := (committed_eq_some_iff _ _ _).mp h
      exact ⟨hmoves (effect_submitGraph hok), admits_submitGraph hok⟩

theorem queuedJobs_le_of_moves (hM : M.submits = false) (hc : Coupled db.board)
    (hm : Moves M db.board db'.board) :
    queuedJobs db' n ≤ queuedJobs db n := by
  refine Table.count_le_count fun j job hj hp => ?_
  rw [Bool.and_eq_true, decide_eq_true_eq, Bool.not_eq_true'] at hp
  obtain ⟨hns, hlive⟩ := hp
  cases hprogress : job.progress with
  | terminal o =>
      rw [hprogress] at hlive
      cases hlive
  | live phase =>
      have hJ' := Db.board_job hj
      obtain ⟨J, before, hJ, hbefore, hsame⟩ := hm.live_before hM hc hJ' hprogress
      obtain ⟨row, hrow, rfl⟩ := Db.board_job_eq_some.mp hJ
      refine ⟨row, hrow, ?_⟩
      have hns' : row.namespaceId = n := hsame.trans hns
      have hlive' : row.progress = .live before := hbefore
      simp [hns', hlive', Progress.isTerminal]

/-- The namespace has its limits and is within its quota. -/
structure WithinQuota (n : Id) (limit : NamespaceLimit) (db : Db) : Prop where
  ordered : db.Ordered
  policy : db.board.policy n = some limit
  within : queuedJobs db n ≤ limit.maxQueuedJobs

/-- An admitted submission to the namespace has its policy row, and there is room for
it if there was by its count. -/
def CountHolds (n : Id) (limit : NamespaceLimit) (db : Db) (s : Session Submitter RowKey) : Prop :=
  ∀ count, s.state.stage = .admitted count → s.state.request.namespaceId = some n →
    RowKey.policy n ∈ s.held ∧
      (count + s.state.request.additionalJobs ≤ limit.maxQueuedJobs →
        queuedJobs db n + s.state.request.additionalJobs ≤ limit.maxQueuedJobs)

theorem Submitter.commit_some {codec : Codec} {submitter : Submitter}
    (h : submitter.commit codec db = some db') :
    ∃ count, submitter.stage = .admitted count ∧
      submitter.request.run codec submitter.env (fun _ _ => count) db = some db' := by
  unfold Submitter.commit at h
  split at h
  · rename_i count hstage
    exact ⟨count, hstage, h⟩
  · cases h
  · cases h
  · cases h

theorem SubmissionRequest.namespaceId_of_ok {request : SubmissionRequest}
    {granted : Authorization} (h : request.authorization = .ok granted) :
    request.namespaceId = some granted.namespaceId := by
  rw [SubmissionRequest.namespaceId, h]
  rfl

theorem queuedJobs_commit {codec : Codec} {s : Session Submitter RowKey}
    (hdb : WithinQuota n limit db) (hs : CountHolds n limit db s)
    (h : s.state.commit codec db = some db') : queuedJobs db' n ≤ limit.maxQueuedJobs := by
  obtain ⟨count, hstage, hrun⟩ := Submitter.commit_some h
  obtain ⟨-, hsame | ⟨granted, policy, l, d, hauth, hpolicy, hfits, hlength, hadded⟩⟩ :=
    SubmissionRequest.run_admits hrun
  · rw [queuedJobs, hsame]
    exact hdb.within
  · by_cases hn : n = granted.namespaceId
    · subst hn
      have hcount := (hs count hstage (SubmissionRequest.namespaceId_of_ok hauth)).2
      have hlimit : policy.limit = limit := by
        have hrow := hdb.policy
        simp only [Db.board, hpolicy, Option.map_some] at hrow
        exact Option.some.inj hrow
      have hmax : policy.maxQueuedJobs = limit.maxQueuedJobs :=
        congrArg NamespaceLimit.maxQueuedJobs hlimit
      have hroom := hcount (hmax ▸ hfits)
      have hle := hadded.queuedJobs_le
      omega
    · exact (hadded.queuedJobs_le_of_ne hn).trans hdb.within

theorem WithinQuota.moves (h : WithinQuota n limit db) (hm : Moves M db.board db'.board)
    (hM : M.configures = false) (hle : queuedJobs db' n ≤ limit.maxQueuedJobs) :
    WithinQuota n limit db' := by
  refine ⟨h.ordered.moves hm, ?_, hle⟩
  rw [hm.policy_eq hM]
  exact h.policy

theorem maintains_submitting (codec : Codec) (n : Id) (limit : NamespaceLimit) :
    (submitting codec).Maintains (fun w a => countStands n w a = true) (WithinQuota n limit)
      (CountHolds n limit) where
  start _ _ _ := by
    intro count hstage
    cases hstage
  advance w i s hw hallow hs := by
    intro count hstage hns
    simp only [submitting, Submitter.advance] at hstage hns
    split at hstage
    · cases hstage
    · cases hstage
    · rename_i count' hbefore
      cases hstage
      obtain ⟨policy, hpolicy, rfl⟩ := Option.map_eq_some_iff.mp hw.committed.policy
      simp only [countStands, hs, Option.map_some, hbefore, hns, hpolicy, Bool.or_eq_true,
        decide_eq_true_eq, ne_eq, not_true_eq_false, false_or] at hallow
      refine ⟨List.mem_append_right _ ?_, fun hfits => ?_⟩
      · simp [submitting, Submitter.wants, hbefore, hns]
      · exact hallow.resolve_left (Nat.not_lt.mpr hfits)
    · rename_i count' hbefore
      cases hstage
      obtain ⟨hheld, hcount⟩ := hw.sessions i s hs _ hbefore hns
      exact ⟨List.mem_append_left _ hheld, hcount⟩
  call w c hw _ := by
    have hm := moves_apply codec c.1 hw.committed.ordered
    refine hw.committed.moves hm c.2.2 ?_
    exact (queuedJobs_le_of_moves c.2.1 hw.committed.ordered.coupled hm).trans hw.committed.within
  frame_call w c t hw _ ht _ := by
    intro count hstage hns
    obtain ⟨hheld, hcount⟩ := ht count hstage hns
    have hm := moves_apply codec c.1 hw.committed.ordered
    have hle := queuedJobs_le_of_moves (n := n) c.2.1 hw.committed.ordered.coupled hm
    exact ⟨hheld, fun hfits => (Nat.add_le_add_right hle _).trans (hcount hfits)⟩
  commit w i s new hw _ hs hnew := by
    obtain ⟨count, -, hrun⟩ := Submitter.commit_some hnew
    exact hw.committed.moves (SubmissionRequest.run_admits hrun).1 rfl
      (queuedJobs_commit hw.committed (hw.sessions i s hs) hnew)
  frame_commit w i s new t hw _ hs hnew ht _ hapart := by
    intro count hstage hns
    obtain ⟨hheld, hcount⟩ := ht count hstage hns
    refine ⟨hheld, fun hfits => (Nat.add_le_add_right ?_ _).trans (hcount hfits)⟩
    obtain ⟨count', hstage', hrun⟩ := Submitter.commit_some hnew
    obtain ⟨-, hsame | ⟨granted, policy, l, d, hauth, -, -, -, hadded⟩⟩ :=
      SubmissionRequest.run_admits hrun
    · rw [queuedJobs, hsame]
      exact Nat.le_refl _
    · -- The policy row is with one of the two, so they submit to different namespaces.
      have hne : n ≠ granted.namespaceId := by
        intro hn
        have hns' : s.state.request.namespaceId = some n := by
          rw [hn]
          exact SubmissionRequest.namespaceId_of_ok hauth
        exact hapart _ hheld (hw.sessions i s hs count' hstage' hns').1
      exact hadded.queuedJobs_le_of_ne hne

/-- Every interleaving of submissions keeps a namespace within its quota, if no
submission gets the policy row after the room it has counted was taken. -/
theorem submissions_keep_quota {codec : Codec} (hdb : Db.Arises codec db) {policy : PolicyRow}
    (hpolicy : db.policies.get? n = some policy) (hwithin : queuedJobs db n ≤ policy.maxQueuedJobs)
    {w : SubmissionWorld}
    (h : Transition.Reaches (submitting codec).Step (fun w a => countStands n w a = true)
      ⟨db, .empty⟩ w) : queuedJobs w.committed n ≤ policy.maxQueuedJobs := by
  have hstart : WithinQuota n policy.limit db :=
    ⟨ordered_of_arises hdb, by simp only [Db.board, hpolicy, Option.map_some], hwithin⟩
  exact ((maintains_submitting codec n policy.limit).holds (Protocol.holds_quiet hstart)
    h).committed.within

namespace Sample

def resubmission (key : String) (first : Id) : Env × SubmissionRequest :=
  (env 2, .graph authorization key ⟨first, fun i => first + 10 + i, fun i => first + 30 + i⟩ graph)

def oneAfterTheOther : List (Action (Env × SubmissionRequest) WorkCall) :=
  [.start 1 (resubmission "submit-graph-2" 100), .start 2 (resubmission "submit-graph-3" 200),
    .advance 1, .advance 2, .advance 1, .advance 1, .commit 1, .advance 2, .advance 2]

/-- Two submissions that count before either has the policy row. -/
def sideBySide : List (Action (Env × SubmissionRequest) WorkCall) :=
  [.start 1 (resubmission "submit-graph-2" 100), .start 2 (resubmission "submit-graph-3" 200),
    .advance 1, .advance 2, .advance 1, .advance 2, .advance 1, .commit 1, .advance 2, .commit 2]

end Sample

/-- Two more graphs of two nodes, where the quota has room for one: the second waits
until the first has committed and is refused. -/
theorem submissions_keep_quota_one_after_the_other :
    ∃ w : SubmissionWorld,
      Transition.Reaches (submitting Sample.codec).Step (fun w a => countStands 1 w a = true)
        ⟨Sample.submitted, .empty⟩ w ∧
      queuedJobs Sample.submitted 1 = 2 ∧ queuedJobs w.committed 1 = 4 ∧
      queuedJobs w.committed 1 ≤ Sample.policy.maxQueuedJobs := by
  have hrun : ((Transition.exec
      (fun w a => if countStands 1 w a then (submitting Sample.codec).next w a else none)
      ⟨Sample.submitted, .empty⟩ Sample.oneAfterTheOther).map fun w => queuedJobs w.committed 1) =
      some 4 := by decide
  obtain ⟨w, hw, hqueued⟩ := Option.map_eq_some_iff.mp hrun
  have hreach := Transition.reaches_of_exec hw
  exact ⟨w, hreach, by decide, hqueued,
    submissions_keep_quota Sample.submitted_arises (by decide) (by decide) hreach⟩

/-- Two submissions that count side by side are both admitted on the room of one. -/
theorem submissions_exceed_quota_side_by_side :
    ∃ w : SubmissionWorld,
      Transition.Reachable (submitting Sample.codec).Step ⟨Sample.submitted, .empty⟩ w ∧
      Sample.submitted.policies.get? 1 = some Sample.policy ∧
      queuedJobs Sample.submitted 1 ≤ Sample.policy.maxQueuedJobs ∧
      w.committed.policies.get? 1 = some Sample.policy ∧
      ¬queuedJobs w.committed 1 ≤ Sample.policy.maxQueuedJobs := by
  have hrun : ((Transition.exec (submitting Sample.codec).next ⟨Sample.submitted, .empty⟩
      Sample.sideBySide).map fun w => (queuedJobs w.committed 1, w.committed.policies.get? 1)) =
      some (6, some Sample.policy) := by decide
  obtain ⟨w, hw, hvalues⟩ := Option.map_eq_some_iff.mp hrun
  obtain ⟨hqueued, hpolicy⟩ := Prod.mk.inj hvalues
  refine ⟨w, Transition.reachable_of_exec hw, by decide, by decide, hpolicy, ?_⟩
  rw [hqueued]
  decide

end JobmanControl
