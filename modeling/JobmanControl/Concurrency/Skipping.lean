import JobmanControl.Concurrency.Committed
import JobmanControl.Library.Session

/-!
Completions that skip locked nodes. When an upstream node finishes, propagation
disposes of the nodes that can no longer run, except those whose row another
transaction has locked: `FOR UPDATE … SKIP LOCKED` omits them, and nothing looks at
them again. A node is left stuck when the transaction that held it rolls back.
-/

namespace JobmanControl

open Relational Interleaving Lifecycle Lifecycle.Board

inductive PropagationRequest
  | recordExecutionEvent (identity : AgentIdentity) (event : ExecutionObservation)
  | cancelJob (authorization : Except StoreError Authorization) (jobId : Id)
      (idempotencyKey requestDigest : String)
  /-- Any transaction that locks jobs and is then given up. -/
  | hold (jobs : List Id)

inductive PropagationStage
  | opening
  | grouping
  | propagating
  /-- Propagation has skipped these rows, and the writes can be committed. -/
  | ready (skipped : List Id)

structure Propagation where
  env : Env
  request : PropagationRequest
  stage : PropagationStage

namespace PropagationRequest

def jobs (db : Db) : PropagationRequest → List Id
  | .recordExecutionEvent _ event => ((db.reportingJob event).map Prod.fst).toList
  | .cancelJob _ jobId _ _ => if (db.jobs.get? jobId).isSome then [jobId] else []
  | .hold jobs => jobs.filter fun j => (db.jobs.get? j).isSome

/-- The graph whose nodes the transaction settles, if it finishes its job. -/
def graph (db : Db) : PropagationRequest → Option Id
  | .recordExecutionEvent _ event =>
      if completionEvent event.type then
        (db.reportingJob event).bind fun entry => entry.2.grouping.graphId
      else none
  | .cancelJob _ jobId _ _ =>
      match (db.executionsOf jobId).head? with
      | none => (db.jobs.get? jobId).bind fun job => job.grouping.graphId
      | some (_, execution) =>
          if execution.2.progress = .live .planned then
            (db.jobs.get? jobId).bind fun job => job.grouping.graphId
          else none
  | .hold _ => none

/-- The nodes of the graph that other transactions have locked. -/
def skips (locked : RowKey → Bool) (db : Db) (request : PropagationRequest) : List Id :=
  match request.graph db with
  | none => []
  | some g => (db.jobs.select fun j job =>
      job.grouping.graphId = some g && locked (.job j)).map Prod.fst

/-- The transaction when propagation skips the given rows. A replayed cancellation
writes nothing: it ends like a rollback. -/
def run (codec : Codec) (env : Env) (skipped : List Id) (db : Db) :
    PropagationRequest → Option Db
  | .recordExecutionEvent identity event =>
      committed (JobmanControl.recordExecutionEvent codec env
        { GroupView.alone with locked := skipped.contains } identity event) db
  | .cancelJob authorization jobId key digest =>
      match authorization with
      | .error _ => none
      | .ok granted =>
          if (db.idempotency.get?
              ⟨granted.namespaceId, granted.principalId, .jobsCancel, key⟩).isSome then
            none
          else
            committed (JobmanControl.cancelJob codec env
              { GroupView.alone with locked := skipped.contains } (.ok granted) jobId key digest) db
  | .hold _ => none

end PropagationRequest

namespace Propagation

def wants (db : Db) (propagation : Propagation) : List RowKey :=
  match propagation.stage with
  | .opening => (propagation.request.jobs db).map RowKey.job
  | .grouping => ((propagation.request.graph db).map RowKey.graph).toList
  | .propagating | .ready _ => []

def advance (locked : RowKey → Bool) (db : Db) (propagation : Propagation) : Propagation :=
  { propagation with
    stage :=
      match propagation.stage with
      | .opening => .grouping
      | .grouping => .propagating
      | .propagating => .ready (propagation.request.skips locked db)
      | .ready skipped => .ready skipped }

def commit (codec : Codec) (propagation : Propagation) (db : Db) : Option Db :=
  match propagation.stage with
  | .ready skipped => propagation.request.run codec propagation.env skipped db
  | .opening | .grouping | .propagating => none

def hasSkipped (propagation : Propagation) (j : Id) : Bool :=
  match propagation.stage with
  | .ready skipped => skipped.contains j
  | .opening | .grouping | .propagating => false

end Propagation

/-- Completions and cancellations of single jobs as sessions, among all calls. The
nodes a transaction disposes of are among its writes, and a commit waits for every
row that another session holds. -/
def propagating (codec : Codec) :
    Protocol Db Propagation (Env × PropagationRequest) Call RowKey where
  call := Call.apply codec
  start request := ⟨request.1, request.2, .opening⟩
  wants _ db propagation := propagation.wants db
  advance locked db propagation := propagation.advance locked db
  commit propagation db := propagation.commit codec db
  same key db db' := db.sameRow key db'

abbrev PropagationWorld := World Db Propagation RowKey

/-- No transaction rolls back while it holds the row of a waiting node that is stuck
or that an open transaction has skipped. -/
def heldOn (w : PropagationWorld) : Action (Env × PropagationRequest) Call → Bool
  | .rollback i =>
      match w.sessions.get? i with
      | none => true
      | some s => !w.committed.jobs.any fun j job =>
          s.held.contains (.job j) && job.isAccepted &&
            (isStuck w.committed j job ||
              w.sessions.any fun n t => n ≠ i && t.state.hasSkipped j)
  | _ => true

def PropagationRequest.Owns (db : Db) (j : Id) : PropagationRequest → Prop
  | .recordExecutionEvent _ _ => ¬db.board.Idle j
  | .cancelJob _ jobId _ _ => j = jobId
  | .hold _ => True

section Run

variable {codec : Codec} {env : Env} {skipped : List Id} {db db' : Db}
  {request : PropagationRequest} {M : Licence} {j : Id}

theorem not_idle_moves (hc : Coupled db.board) (hm : Moves M db.board db'.board)
    (h : ¬db.board.Idle j) : ¬db'.board.Idle j := by
  simp only [Idle, ne_eq, not_forall, not_not] at h ⊢
  obtain ⟨r, R, hR, hj⟩ := h
  obtain ⟨R', hR', hsame, -⟩ := (hm.persists hc).run r R hR
  exact ⟨r, R', hR', hsame.trans hj⟩

theorem PropagationRequest.Owns.moves (hc : Coupled db.board)
    (hm : Moves M db.board db'.board) (h : request.Owns db j) : request.Owns db' j := by
  cases request with
  | recordExecutionEvent => exact not_idle_moves hc hm h
  | cancelJob => exact h
  | hold => trivial

theorem PropagationRequest.owns_jobs (hc : Coupled db.board) (h : j ∈ request.jobs db) :
    request.Owns db j := by
  cases request with
  | recordExecutionEvent identity event =>
      simp only [PropagationRequest.jobs, Option.mem_toList] at h
      obtain ⟨⟨k, job⟩, hreport, rfl⟩ := Option.map_eq_some_iff.mp h
      obtain ⟨J, r, R, E, a, A, hb⟩ := bundle_of_reportingJob hc hreport
      exact fun hidle => hidle r R hb.run hb.run_job
  | cancelJob =>
      simp only [PropagationRequest.jobs] at h
      split at h
      · exact List.mem_singleton.mp h
      · cases h
  | hold => trivial

/-- What a commit does: it leaves only skipped nodes stuck, and none of its own jobs
waiting. -/
theorem PropagationRequest.run_effect (ho : db.Ordered)
    (h : request.run codec env skipped db = some db') :
    Effect .nothing skipped.contains db.board db'.board ∧
      ∀ j J, request.Owns db j → db'.board.job j = some J → J.progress ≠ .live .accepted := by
  cases request with
  | recordExecutionEvent identity event =>
      obtain ⟨replayed, hok⟩ := (committed_eq_some_iff _ _ _).mp h
      have heffect : Effect .nothing skipped.contains db.board db'.board :=
        effect_recordExecutionEvent ho.coupled ho.wired
          (fun d k _ _ _ _ _ _ _ hcd _ collectionId =>
            (listed_failFastSiblings hcd collectionId k).1) hok
      refine ⟨heffect, fun k K hown hK hacc => ?_⟩
      exact not_idle_moves ho.coupled heffect.moves hown
        ((heffect.moves.coupled ho.coupled).idle_of_accepted hK hacc)
  | cancelJob authorization jobId key digest =>
      cases authorization with
      | error => cases h
      | ok granted =>
          simp only [PropagationRequest.run] at h
          split at h
          · cases h
          · rename_i hfree
            obtain ⟨result, hok⟩ := (committed_eq_some_iff _ _ _).mp h
            refine ⟨effect_cancelJob ho.coupled ho.wired hok, ?_⟩
            rintro k K rfl hK
            exact cancelJob_ends ho.coupled ho.wired hok (by simpa using hfree) hK
  | hold => cases h

end Run

/-- What holds whenever no holder has given up: sessions hold the rows of their own
jobs, a row that was skipped is still held by another session as long as its job
waits, and so is the row of every node that is stuck. -/
structure Watched (w : PropagationWorld) : Prop where
  ordered : w.committed.Ordered
  own : ∀ i s j, w.sessions.get? i = some s → RowKey.job j ∈ s.held →
    s.state.request.Owns w.committed j
  known : ∀ i s j, w.sessions.get? i = some s → s.state.hasSkipped j = true →
    w.committed.board.job j ≠ none
  skipped : ∀ i s j J, w.sessions.get? i = some s → s.state.hasSkipped j = true →
    w.committed.board.job j = some J → J.progress = .live .accepted →
    ∃ n, n ≠ i ∧ w.HasRow n (.job j)
  stuck : ∀ j, w.committed.board.Stuck j → ∃ i, w.HasRow i (.job j)

section Steps

variable {codec : Codec} {w w' : PropagationWorld}

variable {db db' : Db} {j : Id} {i : Nat}

theorem waiting_before {M : Licence} (hc : Coupled db.board) (hm : Moves M db.board db'.board)
    {J : JobFacts} (hknown : db.board.job j ≠ none) (hJ : db'.board.job j = some J)
    (hacc : J.progress = .live .accepted) : db.board.job j = some J := by
  obtain ⟨K, hK⟩ := Option.ne_none_iff_exists'.mp hknown
  rw [(hm.persists hc).job_waiting j K J hK hJ hacc]
  exact hK

theorem known_after {M : Licence} (hc : Coupled db.board) (hm : Moves M db.board db'.board)
    (hknown : db.board.job j ≠ none) : db'.board.job j ≠ none := by
  obtain ⟨K, hK⟩ := Option.ne_none_iff_exists'.mp hknown
  obtain ⟨K', hK', -⟩ := (hm.persists hc).job j K hK
  rw [hK']
  simp

theorem watched_call {c : Call} (hw : Watched w) (h : (propagating codec).Step w (.call c) w') :
    Watched w' := by
  obtain ⟨rfl, -⟩ := Protocol.step_call h
  have hc := hw.ordered.coupled
  have heffect := effect_apply codec c hc hw.ordered.wired
  refine ⟨hw.ordered.moves heffect.moves, ?_, ?_, ?_, ?_⟩
  · intro i s j hs hj
    exact (hw.own i s j hs hj).moves hc heffect.moves
  · intro i s j hs hj
    exact known_after hc heffect.moves (hw.known i s j hs hj)
  · intro i s j J hs hj hJ hacc
    exact hw.skipped i s j J hs hj (waiting_before hc heffect.moves (hw.known i s j hs hj) hJ hacc)
      hacc
  · intro j hstuck
    obtain hbefore | hlocked := heffect.stuck hc hw.ordered.wired hstuck
    · exact hw.stuck j hbefore
    · cases hlocked

theorem watched_start {r : Env × PropagationRequest} (hw : Watched w)
    (h : (propagating codec).Step w (.start i r) w') : Watched w' := by
  obtain ⟨hsame, hfree, hget⟩ := Protocol.step_start h
  -- A session that has just been opened holds nothing and has skipped nothing.
  have hold : ∀ n s, w'.sessions.get? n = some s →
      s.held = [] ∧ s.state.stage = .opening ∨ w.sessions.get? n = some s := by
    intro n s hs
    rw [hget] at hs
    split at hs
    · cases hs
      exact Or.inl ⟨rfl, rfl⟩
    · exact Or.inr hs
  have hrow : ∀ n j, w.HasRow n (.job j) → w'.HasRow n (.job j) :=
    fun n j hheld => (h.hasRow hheld).resolve_right (by simp)
  have hfresh : ∀ (s : Session Propagation RowKey) j, s.state.stage = .opening →
      s.state.hasSkipped j ≠ true := by
    intro s j hstage
    simp [Propagation.hasSkipped, hstage]
  refine ⟨hsame ▸ hw.ordered, ?_, ?_, ?_, ?_⟩
  · intro n s j hs hj
    rw [hsame]
    obtain ⟨hnone, -⟩ | hs := hold n s hs
    · rw [hnone] at hj
      cases hj
    · exact hw.own n s j hs hj
  · intro n s j hs hj
    rw [hsame]
    obtain ⟨-, hstage⟩ | hs := hold n s hs
    · exact absurd hj (hfresh s j hstage)
    · exact hw.known n s j hs hj
  · intro n s j J hs hj hJ hacc
    rw [hsame] at hJ
    obtain ⟨-, hstage⟩ | hs := hold n s hs
    · exact absurd hj (hfresh s j hstage)
    · obtain ⟨m, hm, hheld⟩ := hw.skipped n s j J hs hj hJ hacc
      exact ⟨m, hm, hrow m j hheld⟩
  · intro j hstuck
    exact (hw.stuck j (hsame ▸ hstuck)).imp fun m => hrow m j

theorem Propagation.owns_wants {propagation : Propagation} (hc : Coupled db.board)
    (h : RowKey.job j ∈ propagation.wants db) : propagation.request.Owns db j := by
  unfold Propagation.wants at h
  split at h
  · obtain ⟨k, hk, hsame⟩ := List.mem_map.mp h
    cases hsame
    exact PropagationRequest.owns_jobs hc hk
  · simp at h
  · cases h
  · cases h

theorem Propagation.skips_locked {propagation : Propagation}
    (h : (propagation.advance (w.others i) w.committed).hasSkipped j = true) :
    (w.committed.board.job j ≠ none ∧ ∃ n, n ≠ i ∧ w.HasRow n (.job j)) ∨
      propagation.hasSkipped j = true := by
  cases hstage : propagation.stage with
  | opening | grouping => simp [Propagation.advance, Propagation.hasSkipped, hstage] at h
  | ready skipped =>
      simp only [Propagation.advance, Propagation.hasSkipped, hstage] at h ⊢
      exact Or.inr h
  | propagating =>
      simp only [Propagation.advance, Propagation.hasSkipped, hstage, PropagationRequest.skips,
        List.contains_iff_mem] at h
      split at h
      · cases h
      · obtain ⟨⟨k, job⟩, hmem, rfl⟩ := List.mem_map.mp h
        obtain ⟨hjob, hp⟩ := (Table.mem_select _ _ _ _).mp hmem
        rw [Bool.and_eq_true] at hp
        refine Or.inl ⟨?_, (w.others_eq_true_iff i _).mp hp.2⟩
        rw [Ne, Db.board_job_eq_none, hjob]
        simp

theorem watched_advance (hw : Watched w) (h : (propagating codec).Step w (.advance i) w') :
    Watched w' := by
  obtain ⟨hsame, u, hu, -, hget⟩ := Protocol.step_advance h
  have hc := hw.ordered.coupled
  have hrow : ∀ n j, w.HasRow n (.job j) → w'.HasRow n (.job j) :=
    fun n j hheld => (h.hasRow hheld).resolve_right (by simp)
  refine ⟨hsame ▸ hw.ordered, ?_, ?_, ?_, ?_⟩
  · intro n s j hs hj
    rw [hget] at hs
    rw [hsame]
    split at hs
    · cases hs
      obtain hheld | hwanted := List.mem_append.mp hj
      · exact hw.own i u j hu hheld
      · have hown : u.state.request.Owns w.committed j := Propagation.owns_wants hc hwanted
        exact hown
    · exact hw.own n s j hs hj
  · intro n s j hs hj
    rw [hget] at hs
    rw [hsame]
    split at hs
    · cases hs
      obtain ⟨hknown, -⟩ | hbefore := Propagation.skips_locked hj
      · exact hknown
      · exact hw.known i u j hu hbefore
    · exact hw.known n s j hs hj
  · intro n s j J hs hj hJ hacc
    rw [hget] at hs
    rw [hsame] at hJ
    split at hs
    · rename_i hn
      cases hs
      rw [hn]
      obtain ⟨-, m, hm, hheld⟩ | hbefore := Propagation.skips_locked hj
      · exact ⟨m, hm, hrow m j hheld⟩
      · obtain ⟨m, hm, hheld⟩ := hw.skipped i u j J hu hbefore hJ hacc
        exact ⟨m, hm, hrow m j hheld⟩
    · obtain ⟨m, hm, hheld⟩ := hw.skipped n s j J hs hj hJ hacc
      exact ⟨m, hm, hrow m j hheld⟩
  · intro j hstuck
    exact (hw.stuck j (hsame ▸ hstuck)).imp fun m => hrow m j

theorem Propagation.commit_some {propagation : Propagation}
    (h : propagation.commit codec db = some db') :
    ∃ skipped, propagation.stage = .ready skipped ∧
      propagation.request.run codec propagation.env skipped db = some db' := by
  unfold Propagation.commit at h
  split at h
  · rename_i skipped hstage
    exact ⟨skipped, hstage, h⟩
  · cases h
  · cases h
  · cases h

theorem watched_commit (hw : Watched w) (h : (propagating codec).Step w (.commit i) w') :
    Watched w' := by
  obtain ⟨u, hu, hcommit, -, hget⟩ := Protocol.step_commit h
  obtain ⟨skipped, hstage, hrun⟩ := Propagation.commit_some hcommit
  have hc := hw.ordered.coupled
  obtain ⟨heffect, hends⟩ := PropagationRequest.run_effect hw.ordered hrun
  have hold : ∀ n s, w'.sessions.get? n = some s → n ≠ i ∧ w.sessions.get? n = some s :=
    fun n s hs => Option.ite_none_left_eq_some.mp ((hget n).symm.trans hs)
  -- The row of a job that waits now is not one the committing session had.
  have hrow : ∀ n j J, w'.committed.board.job j = some J → J.progress = .live .accepted →
      w.HasRow n (.job j) → w'.HasRow n (.job j) := by
    intro n j J hJ hacc hheld
    obtain hkept | hsame | hsame := h.hasRow hheld
    · exact hkept
    · cases hsame
      obtain ⟨s, hs, hj⟩ := hheld
      cases hs.symm.trans hu
      exact absurd hacc (hends j J (hw.own _ _ j hu hj) hJ)
    · cases hsame
  refine ⟨hw.ordered.moves heffect.moves, ?_, ?_, ?_, ?_⟩
  · intro n s j hs hj
    exact (hw.own n s j (hold n s hs).2 hj).moves hc heffect.moves
  · intro n s j hs hj
    exact known_after hc heffect.moves (hw.known n s j (hold n s hs).2 hj)
  · intro n s j J hs hj hJ hacc
    have hs' := (hold n s hs).2
    obtain ⟨m, hm, hheld⟩ := hw.skipped n s j J hs' hj
      (waiting_before hc heffect.moves (hw.known n s j hs' hj) hJ hacc) hacc
    exact ⟨m, hm, hrow m j J hJ hacc hheld⟩
  · intro j hstuck
    obtain ⟨J, hJ, hacc⟩ := hstuck.waiting
    obtain hbefore | hlocked := heffect.stuck hc hw.ordered.wired hstuck
    · obtain ⟨m, hheld⟩ := hw.stuck j hbefore
      exact ⟨m, hrow m j J hJ hacc hheld⟩
    · have hj : u.state.hasSkipped j = true := by
        simp only [Propagation.hasSkipped, hstage]
        exact hlocked
      obtain ⟨m, -, hheld⟩ := hw.skipped i u j J hu hj
        (waiting_before hc heffect.moves (hw.known i u j hu hj) hJ hacc) hacc
      exact ⟨m, hrow m j J hJ hacc hheld⟩

theorem heldOn_rollback {u : Session Propagation RowKey} (h : heldOn w (.rollback i) = true)
    (hu : w.sessions.get? i = some u) {J : JobFacts} (hj : RowKey.job j ∈ u.held)
    (hJ : w.committed.board.job j = some J) (hacc : J.progress = .live .accepted) :
    ¬w.committed.board.Stuck j ∧ ∀ n t, w.sessions.get? n = some t → n ≠ i →
      t.state.hasSkipped j = false := by
  obtain ⟨job, hjob, rfl⟩ := Db.board_job_eq_some.mp hJ
  simp only [heldOn, hu, Bool.not_eq_true', Table.any_eq_false_iff] at h
  have hrow := h j job hjob
  have haccepted : job.isAccepted = true := decide_eq_true hacc
  rw [haccepted, List.contains_iff_mem.mpr hj, Bool.true_and, Bool.true_and,
    Bool.or_eq_false_iff, Table.any_eq_false_iff] at hrow
  refine ⟨?_, ?_⟩
  · rw [← isStuck_iff hjob, hrow.1]
    simp
  · intro n t ht hn
    simpa [hn] using hrow.2 n t ht

theorem watched_rollback (hw : Watched w) (hheldOn : heldOn w (.rollback i) = true)
    (h : (propagating codec).Step w (.rollback i) w') : Watched w' := by
  obtain ⟨hsame, u, hu, hget⟩ := Protocol.step_rollback h
  have hold : ∀ n s, w'.sessions.get? n = some s → n ≠ i ∧ w.sessions.get? n = some s :=
    fun n s hs => Option.ite_none_left_eq_some.mp ((hget n).symm.trans hs)
  have hrow : ∀ n j, n ≠ i → w.HasRow n (.job j) → w'.HasRow n (.job j) := by
    rintro n j hn ⟨s, hs, hj⟩
    exact ⟨s, by rw [hget, if_neg hn]; exact hs, hj⟩
  refine ⟨hsame ▸ hw.ordered, ?_, ?_, ?_, ?_⟩
  · intro n s j hs hj
    rw [hsame]
    exact hw.own n s j (hold n s hs).2 hj
  · intro n s j hs hj
    rw [hsame]
    exact hw.known n s j (hold n s hs).2 hj
  · intro n s j J hs hj hJ hacc
    rw [hsame] at hJ
    obtain ⟨hn, hs'⟩ := hold n s hs
    obtain ⟨m, hm, hheld⟩ := hw.skipped n s j J hs' hj hJ hacc
    refine ⟨m, hm, hrow m j ?_ hheld⟩
    rintro rfl
    obtain ⟨t, ht, hjt⟩ := hheld
    cases ht.symm.trans hu
    rw [(heldOn_rollback hheldOn hu hjt hJ hacc).2 n s hs' hn] at hj
    cases hj
  · intro j hstuck
    rw [hsame] at hstuck
    obtain ⟨m, hheld⟩ := hw.stuck j hstuck
    refine ⟨m, hrow m j ?_ hheld⟩
    rintro rfl
    obtain ⟨t, ht, hjt⟩ := hheld
    cases ht.symm.trans hu
    obtain ⟨J, hJ, hacc⟩ := hstuck.waiting
    exact (heldOn_rollback hheldOn hu hjt hJ hacc).1 hstuck

theorem watched_reaches (hdb : Db.Arises codec db)
    (h : Transition.Reaches (propagating codec).Step (fun w a => heldOn w a = true)
      ⟨db, .empty⟩ w) : Watched w := by
  have hstart : Watched (⟨db, .empty⟩ : PropagationWorld) := by
    refine ⟨ordered_of_arises hdb, ?_, ?_, ?_, ?_⟩
    · exact fun _ _ _ hs => by cases hs
    · exact fun _ _ _ hs => by cases hs
    · exact fun _ _ _ _ hs => by cases hs
    · exact fun j hstuck => absurd hstuck ((sound_later sound_empty hdb).unstuck j)
  refine h.invariant hstart ?_
  intro w a w' hw hheldOn hstep
  cases a with
  | call c => exact watched_call hw hstep
  | start i r => exact watched_start hw hstep
  | advance i => exact watched_advance hw hstep
  | commit i => exact watched_commit hw hstep
  | rollback i => exact watched_rollback hw hheldOn hstep

end Steps

/-- A waiting node whose upstreams have all finished, one of them with an outcome its
edge does not ask for. -/
structure Db.LeftStuck (db : Db) (j : Id) (job : JobRow) : Prop where
  row : db.jobs.get? j = some job
  waiting : job.progress = .live .accepted
  finished : ∀ key edge upstream, db.graphEdges.get? key = some edge → key.downstreamJobId = j →
    db.jobs.get? key.upstreamJobId = some upstream → upstream.progress.isTerminal = true
  refused : ∃ key edge upstream outcome, db.graphEdges.get? key = some edge ∧
    key.downstreamJobId = j ∧ db.jobs.get? key.upstreamJobId = some upstream ∧
    upstream.progress = .terminal outcome ∧ accepts edge outcome = false

theorem Db.leftStuck_iff {db : Db} {j : Id} {job : JobRow} (hjob : db.jobs.get? j = some job) :
    db.LeftStuck j job ↔ db.board.Stuck j := by
  have hJ := Db.board_job hjob
  constructor
  · intro h
    obtain ⟨key, edge, upstream, outcome, he, hdown, hup, ho, hrefused⟩ := h.refused
    refine ⟨⟨job.facts, hJ, h.waiting⟩, ?_, key, edge, he, hdown, upstream.facts, outcome,
      Db.board_job hup, ho, hrefused⟩
    intro key' edge' U he' hdown' hU
    obtain ⟨row, hrow, rfl⟩ := Db.board_job_eq_some.mp hU
    exact (Progress.isTerminal_iff _).mp (h.finished key' edge' row he' hdown' hrow)
  · rintro ⟨⟨J, hJ', hacc⟩, hfinished, key, edge, he, hdown, U, outcome, hU, ho, hrefused⟩
    cases hJ.symm.trans hJ'
    obtain ⟨upstream, hup, rfl⟩ := Db.board_job_eq_some.mp hU
    refine ⟨hjob, hacc, ?_, key, edge, upstream, outcome, he, hdown, hup, ho, hrefused⟩
    intro key' edge' row he' hdown' hrow
    exact (Progress.isTerminal_iff _).mpr
      (hfinished key' edge' row.facts he' hdown' (Db.board_job hrow))

/-- When all transactions have finished no node is left stuck, if none rolled back
while it held the row of a waiting node that was stuck or had been skipped. -/
theorem no_node_left_stuck {codec : Codec} {db : Db} (hdb : Db.Arises codec db)
    {w : PropagationWorld}
    (h : Transition.Reaches (propagating codec).Step (fun w a => heldOn w a = true)
      ⟨db, .empty⟩ w) (hfinished : ∀ i, w.sessions.get? i = none) :
    ∀ j job, ¬w.committed.LeftStuck j job := by
  intro j job hleft
  obtain ⟨i, s, hs, -⟩ := (watched_reaches hdb h).stuck j
    ((Db.leftStuck_iff hleft.row).mp hleft)
  rw [hfinished i] at hs
  cases hs

namespace Sample

def engaged : Db := submitted.run codec ((firstNode .failure).take 2)

theorem engaged_arises : Db.Arises codec engaged :=
  submitted_arises.trans (Db.later_run _ _ _)

/-- A principal who may not cancel it asks for the second node to be cancelled. -/
def refusedCancellation : Env × PropagationRequest :=
  (env 4, .cancelJob (.ok ⟨1, 9, false⟩) 11 "cancel-job-1" "cancel")

def failedNode : Env × PropagationRequest :=
  (env 4, .recordExecutionEvent identity (completion 41 .failure))

/-- The refused cancellation ends before propagation looks at its node. -/
def refusedBefore : List (Action (Env × PropagationRequest) Call) :=
  [.start 0 refusedCancellation, .advance 0, .rollback 0, .start 1 failedNode, .advance 1,
    .advance 1, .advance 1, .commit 1]

/-- The refused cancellation holds its node until the completion has committed. -/
def refusedAfter : List (Action (Env × PropagationRequest) Call) :=
  [.start 0 refusedCancellation, .advance 0, .start 1 failedNode, .advance 1, .advance 1,
    .advance 1, .commit 1, .rollback 0]

end Sample

theorem no_node_left_stuck_refused_before :
    ∃ w : PropagationWorld,
      Transition.Reaches (propagating Sample.codec).Step (fun w a => heldOn w a = true)
        ⟨Sample.engaged, .empty⟩ w ∧
      (w.committed.jobs.get? 11).map (·.progress) = some (.terminal .aborted) ∧
      ∀ j job, ¬w.committed.LeftStuck j job := by
  have hrun : ((Transition.exec
      (fun w a => if heldOn w a then (propagating Sample.codec).next w a else none)
      ⟨Sample.engaged, .empty⟩ Sample.refusedBefore).map fun w =>
        (w.sessions.entries.isEmpty, (w.committed.jobs.get? 11).map (·.progress))) =
      some (true, some (.terminal .aborted)) := by decide
  obtain ⟨w, hw, hvalues⟩ := Option.map_eq_some_iff.mp hrun
  obtain ⟨hempty, hprogress⟩ := Prod.mk.inj hvalues
  have hreach := Transition.reaches_of_exec hw
  refine ⟨w, hreach, hprogress, no_node_left_stuck Sample.engaged_arises hreach fun i => ?_⟩
  rw [Table.get?, List.isEmpty_iff.mp hempty]
  rfl

/-- Propagation that skips the row of a refused cancellation leaves the node stuck. -/
theorem refused_cancellation_leaves_node_stuck :
    ∃ w : PropagationWorld,
      Transition.Reachable (propagating Sample.codec).Step ⟨Sample.engaged, .empty⟩ w ∧
      w.sessions.entries.isEmpty = true ∧ ∃ job, w.committed.LeftStuck 11 job := by
  have hrun : ((Transition.exec (propagating Sample.codec).next ⟨Sample.engaged, .empty⟩
      Sample.refusedAfter).map fun w => (w.sessions.entries.isEmpty,
        (w.committed.jobs.get? 11).map fun job => isStuck w.committed 11 job)) =
      some (true, some true) := by decide
  obtain ⟨w, hw, hvalues⟩ := Option.map_eq_some_iff.mp hrun
  obtain ⟨hempty, hstuck⟩ := Prod.mk.inj hvalues
  obtain ⟨job, hjob, hjobStuck⟩ := Option.map_eq_some_iff.mp hstuck
  refine ⟨w, Transition.reachable_of_exec hw, hempty, job, ?_⟩
  exact (Db.leftStuck_iff hjob).mpr ((isStuck_iff hjob).mp hjobStuck)

end JobmanControl
