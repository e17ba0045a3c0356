import JobmanControl.Catalog.Generations
import JobmanControl.Catalog.Roster
import JobmanControl.Catalog.Transparency

/-!
The states of a target. A change that the table of transitions allows goes through,
provided the server accepts the outbox statement; while a target is not active nothing is
added to it and no offer of it is listed, and while it is draining the work it has goes on
as if it were active.
-/

namespace JobmanControl

open Relational

section States

variable {platform : Platform} {db db' : Db} {t : Id}

/-- A request for an allowed change: it names the current revision, its key and its outbox
identity are new, and the name fits the operation's column. -/
structure StateRequest (db : Db) (granted : Authorization) (row : TargetRow) (key : String)
    (outboxId : Id) (change : TargetStateChange) : Prop where
  owner : granted.namespaceId = row.namespaceId
  allowed : validTargetStateTransition row.state change.state = true
  revision : change.expectedRevision = row.revision
  keyValid : validIdempotencyKey key = true
  keyFree : db.idempotency.get? (granted.record (.targetsState row.name) key) = none
  outbox : db.outbox.get? outboxId = none
  short : row.name.length ≤ 114

theorem stateText_length (name : String) :
    (IdempotentOperation.targetsState name).text.length = 14 + name.length := by
  change ("targets.state" ++ ":" ++ name).length = _
  rw [String.length_append, String.length_append]
  congr 1

/-- A request for an allowed change is carried out exactly if the outbox statement is
accepted. -/
theorem Db.Cataloged.updateTargetState_iff (h : db.Cataloged) (env : Env) {row : TargetRow}
    (hrow : db.targets.get? t = some row)
    (hvalid : validName row.name = true ∧ 1 ≤ row.revision) (uses : List ParameterUse)
    {granted : Authorization} {key : String} (digest : String) {outboxId : Id}
    {change : TargetStateChange} (hrequest : StateRequest db granted row key outboxId change) :
    (∃ result db', updateTargetState uses env (.ok granted) row.name key digest outboxId change db =
        .ok ((result, false), db') ∧
        db'.targets.get? t = some (row.enterState env change.state)) ↔
      parameterResolves uses = true := by
  constructor
  · rintro ⟨result, db', hok, -⟩
    obtain ⟨_, _, _, -, ⟨hfalse, -⟩ | ⟨hresolves, -⟩⟩ := updateTargetState_ok hok
    · cases hfalse
    · exact hresolves
  · intro hresolves
    obtain ⟨g, generation, hcurrent⟩ := h.current t row hrow
    obtain ⟨namespaceName, hnamespace⟩ := h.housed t row hrow
    have hnamed : JobmanControl.targetNamed db granted.namespaceId row.name = some (t, row) := by
      rw [hrequest.owner]
      exact h.targetNamed hrow
    obtain ⟨records, hreserve, hcomplete⟩ := reserve_complete_fresh env t .target digest 200
      (by rw [stateText_length]; have := hrequest.short; lia) hrequest.keyFree
    obtain ⟨records', hcompleted⟩ := hcomplete
      { db with
        targets := db.targets.modify t fun target =>
          if target.namespaceId = granted.namespaceId then target.enterState env change.state
          else target
        idempotency := records } rfl
    obtain ⟨outbox, houtbox⟩ := Table.insert?_isSome db.outbox outboxId
      ⟨granted.namespaceId, .targetStateChanged t change.state, env.now, none⟩ hrequest.outbox
    have hchange : ∃ db', changeTargetState uses env granted key digest row.name outboxId t
        change.state { db with idempotency := records } = .ok db' ∧
        db'.targets.get? t = some (row.enterState env change.state) ∧
        db'.namespaces = db.namespaces ∧ db'.generations = db.generations := by
      refine ⟨_, (bind_ok_iff _ _ _).mpr ⟨_, hcompleted, (bind_ok_iff _ _ _).mpr ⟨(),
        ensure_of_true (by simpa using hresolves) _, (bind_ok_iff _ _ _).mpr
          ⟨outbox, need_of_eq_some houtbox _, rfl⟩⟩⟩, ?_, rfl, rfl⟩
      simp only [Db.appendAudit]
      rw [Table.get?_modify, if_pos rfl, hrow, Option.map_some, if_pos hrequest.owner.symm]
    obtain ⟨db', hchange, htarget, hnamespaces, hgenerations⟩ := hchange
    have hget : getTargetById db' granted.namespaceId t = .ok ⟨t,
        row.enterState env change.state, g, generation, namespaceName, loadPartitions db' g⟩ :=
      getTargetById_of htarget hrequest.owner.symm (hnamespaces ▸ hnamespace) hcurrent.selected
        (hgenerations ▸ hcurrent.stored)
    refine ⟨⟨t, row.enterState env change.state, g, generation, namespaceName,
      loadPartitions db' g⟩, db', ?_, htarget⟩
    rw [updateTargetState, ensure_of_true (by simp [hrequest.keyValid, hvalid.1]), ok_bind,
      validateTargetStateChange,
      ensure_of_true (by rw [hrequest.revision]; exact Int.ofNat_le.mpr hvalid.2), ok_bind]
    simp only [ok_bind, need_of_eq_some hnamed, hreserve]
    rw [ensure_of_true (by simp [hrequest.revision, hrequest.allowed]), ok_bind, hchange,
      ok_bind, hget, ok_bind]
    rfl

/-- No agent is shown an offer of the target. -/
def NoOfferListed (db : Db) (t : Id) : Prop :=
  ∀ env identity limit offers db', listAssignments env identity limit db = .ok (offers, db') →
    ∀ offer ∈ offers, ∀ execution, db.executions.get? offer.executionId = some execution →
      execution.targetId ≠ t

theorem noOfferListed (hbound : db.roster.Bound) (hclosed : db.ClosedTarget t) :
    NoOfferListed db t := by
  intro env identity limit offers db' hlist offer hoffer execution hexecution htarget
  simp only [listAssignments, bind_ok_iff, pure_ok_iff, Prod.mk.injEq] at hlist
  obtain ⟨-, -, rfl, -⟩ := hlist
  obtain ⟨⟨id, row⟩, hmem, hsome⟩ := List.mem_filterMap.mp hoffer
  obtain ⟨_, -, rfl⟩ := Option.map_eq_some_iff.mp hsome
  obtain ⟨hrow, hopen⟩ :=
    (Table.mem_select _ _ _ _).mp ((mem_orderBy _ _ _).mp (List.mem_of_mem_take hmem))
  -- the agent of the offer is the one of its execution, and so is its target
  obtain ⟨y, hy, -, hagent⟩ := hbound.assignment id row.identity
    (Option.map_eq_some_iff.mpr ⟨row, hrow, rfl⟩)
  obtain rfl : execution.identity = y :=
    Option.some.inj ((congrArg (Option.map ExecutionRow.identity) hexecution).symm.trans hy)
  obtain ⟨z, hz, -, hzt, -⟩ := hbound.agent _ _ hy
  obtain ⟨agent, hagentRow, rfl⟩ := Option.map_eq_some_iff.mp hz
  have hagentId : row.agentId = execution.agentId := hagent.symm
  simp only [Bool.and_eq_true, Option.any_eq_true, decide_eq_true_eq] at hopen
  obtain ⟨-, agent', hagent', -, target, htargetRow, hactive⟩ := hopen
  rw [hagentId] at hagent'
  cases hagentRow.symm.trans hagent'
  refine hclosed (roster_target_active.mpr ⟨target, ?_, hactive⟩)
  have hsame : agent.targetId = execution.targetId := hzt
  rw [← htarget, ← hsame]
  exact htargetRow

def Db.activate (t : Id) (db : Db) : Db :=
  db.retarget (db.targets.modify t fun row => { row with state := .active })

/-- A call does and answers what it would if the target were active. -/
def AsIfActive {α : Type} (t : Id) (db : Db) (f : Tx StoreError Db α) : Prop :=
  f (db.activate t) = (f db).map (Prod.map id (Db.activate t))

theorem CallIgnoresTargets.asIfActive {α : Type} {f : Tx StoreError Db α}
    (hf : CallIgnoresTargets f) (t : Id) (db : Db) : AsIfActive t db f := by
  rw [AsIfActive, Db.activate, hf]
  cases hok : f db with
  | error e => rfl
  | ok entry =>
      have hsame := hf db.targets db
      rw [show db.retarget db.targets = db from rfl, hok] at hsame
      have htargets : entry.2.targets = db.targets :=
        congrArg (fun entry => entry.2.targets) (Except.ok.inj hsame)
      simp only [Except.map, Prod.map, Db.activate, htargets, id]

/-- The work of a target goes on: its agents are authenticated, and what they report, what
they log and what is cancelled is taken as if the target were active. -/
structure StillServed (platform : Platform) (t : Id) (db : Db) : Prop where
  session : ∀ env token, AsIfActive t db (authenticateAgent platform.tokens env token)
  certificate : ∀ env agentId serial publicKeyDigest,
    AsIfActive t db (authenticateAgentCertificate env agentId serial publicKeyDigest)
  report : ∀ env identity event,
    AsIfActive t db (recordExecutionEvent platform.codec env .alone identity event)
  log : ∀ env identity chunk,
    AsIfActive t db (commitLogChunk platform.uuid Db.chunkAt env identity chunk)
  cancelJob : ∀ env authorization jobId key digest,
    AsIfActive t db (cancelJob platform.codec env .alone authorization jobId key digest)
  cancelGraph : ∀ env authorization graphId key digest,
    AsIfActive t db (cancelGraph platform.codec env .alone authorization graphId key digest)
  listActions : ∀ env identity limit, AsIfActive t db (listDesiredActions env identity limit)
  acknowledge : ∀ identity acknowledgement,
    AsIfActive t db (acknowledgeDesiredAction identity acknowledgement)

section Serving

theorem activate_serving (hdraining : db.roster.target t = some .draining) (k : Id) :
    ((db.activate t).targets.get? k).map (fun row => row.state.serving) =
      (db.targets.get? k).map fun row => row.state.serving := by
  simp only [Db.activate, Db.retarget_targets, Table.get?_modify]
  split
  · rename_i hk
    subst hk
    obtain ⟨row, hrow, hstate⟩ := Option.map_eq_some_iff.mp hdraining
    rw [hrow]
    simp [hstate, TargetState.serving]
  · rfl

theorem servingSession_activate (hdraining : db.roster.target t = some .draining) (env : Env)
    (tokenHash : String) :
    servingSession env (db.activate t) tokenHash = servingSession env db tokenHash := by
  unfold servingSession
  congr 1
  funext entry
  congr 1
  funext agent
  have hserving := activate_serving hdraining agent.targetId
  cases hold : db.targets.get? agent.targetId <;>
    cases hnew : (db.activate t).targets.get? agent.targetId <;>
    simp only [hold, hnew, Option.map_none, Option.map_some, reduceCtorEq, Option.some.injEq]
      at hserving
  · rfl
  · simp only [Option.bind_eq_bind, Option.bind_some, hserving]

theorem stillServed (hdraining : db.roster.target t = some .draining) :
    StillServed platform t db := by
  refine ⟨?_, ?_, ?_, ?_, ?_, ?_, ?_, ?_⟩
  · intro env token
    simp only [AsIfActive, authenticateAgent, servingSession_activate hdraining]
    cases servingSession env db (platform.tokens.hash token) with
    | none => rfl
    | some entry =>
        obtain ⟨⟨sessionId, session⟩, agent⟩ := entry
        have hnamespaces : (db.activate t).namespaces = db.namespaces := rfl
        simp only [need, ok_bind, hnamespaces]
        cases db.namespaces.get? agent.namespaceId <;> rfl
  · intro env agentId serial publicKeyDigest
    have hagents : (db.activate t).agents = db.agents := rfl
    have hcertificates : (db.activate t).certificates = db.certificates := rfl
    have hnamespaces : (db.activate t).namespaces = db.namespaces := rfl
    simp only [AsIfActive, authenticateAgentCertificate, hagents, hcertificates, hnamespaces]
    cases db.agents.get? agentId with
    | none => rfl
    | some agent =>
        cases db.certificates.get? serial with
        | none => rfl
        | some certificate =>
            have hserving := activate_serving hdraining agent.targetId
            simp only [need, ok_bind]
            cases hold : db.targets.get? agent.targetId <;>
              cases hnew : (db.activate t).targets.get? agent.targetId <;>
              simp only [hold, hnew, Option.map_none, Option.map_some, reduceCtorEq,
                Option.some.injEq] at hserving
            · rfl
            · simp only [ok_bind, hserving]
              cases db.namespaces.get? agent.namespaceId with
              | none => rfl
              | some name =>
                  simp only [ok_bind]
                  unfold ensure
                  split <;> rfl
  · exact fun env identity event =>
      (CallIgnoresTargets.recordExecutionEvent _ env identity event).asIfActive t db
  · exact fun env identity chunk =>
      (CallIgnoresTargets.commitLogChunk _ env identity chunk).asIfActive t db
  · exact fun env authorization jobId key digest =>
      (CallIgnoresTargets.cancelJob _ env authorization jobId key digest).asIfActive t db
  · exact fun env authorization graphId key digest =>
      (CallIgnoresTargets.cancelGraph _ env authorization graphId key digest).asIfActive t db
  · exact fun env identity limit =>
      (CallIgnoresTargets.listDesiredActions env identity limit).asIfActive t db
  · exact fun identity acknowledgement =>
      (CallIgnoresTargets.acknowledgeDesiredAction identity acknowledgement).asIfActive t db

end Serving

/-- From the commit of a change on, for as long as the target is not active: nothing is
added to it, no offer of it is listed, and while it is draining its work goes on. -/
def Settles (platform : Platform) (t : Id) (db : Db) : Prop :=
  ∀ db', Transition.Reaches (Service.Step platform) (fun d _ => d.ClosedTarget t) db db' →
    Roster.NothingNew t db.roster db'.roster ∧ (db'.ClosedTarget t → NoOfferListed db' t) ∧
      (db'.roster.target t = some .draining → StillServed platform t db')

theorem Service.Arises.settles (h : Service.Arises platform db) : Settles platform t db := by
  intro db' hrun
  have hlater : Service.Later platform db db' := hrun.mono fun _ _ _ => trivial
  exact ⟨Service.nothingNew_of_closed hrun, noOfferListed (Service.Arises.bound (h.trans hlater)),
    stillServed⟩

/-- Every allowed change of a target is committed, and holds until the target is active
again, exactly if the server accepts the outbox statement. -/
theorem target_state_change_iff (harises : Service.Arises platform db) (env : Env) {row : TargetRow}
    (hrow : db.targets.get? t = some row) (uses : List ParameterUse) {granted : Authorization}
    {key : String} (digest : String) {outboxId : Id} {change : TargetStateChange}
    (hrequest : StateRequest db granted row key outboxId change) :
    (∃ result db', updateTargetState uses env (.ok granted) row.name key digest outboxId change db =
        .ok ((result, false), db') ∧
        db'.targets.get? t = some (row.enterState env change.state) ∧ Settles platform t db') ↔
      parameterResolves uses = true := by
  have hiff := harises.cataloged.updateTargetState_iff env hrow
    (harises.target_valid hrow) uses digest hrequest
  constructor
  · rintro ⟨result, db', hok, htarget, -⟩
    exact hiff.mp ⟨result, db', hok, htarget⟩
  · intro hresolves
    obtain ⟨result, db', hok, htarget⟩ := hiff.mpr hresolves
    have hstep : (ServiceCall.mk env (.updateTargetState uses (.ok granted) row.name key digest
        outboxId change)).apply platform db = db' := by
      simp only [ServiceCall.apply, atomically, hok]
    exact ⟨result, db', hok, htarget,
      Service.Arises.settles (Transition.Reaches.tail _ harises trivial hstep)⟩

end States

namespace Sample

def targeted : Db :=
  Service.run platform housed
    [⟨env 1, .createTarget authorization "create-target" "request" (targetDraw 1)
      (hostSpec "cluster")⟩]

theorem targeted_arises : Service.Arises platform targeted :=
  (Service.later_run platform Db.empty _).trans (Service.later_run platform housed _)

def cluster : TargetRow := ⟨1, "cluster", .active, some 11, .host, 1, 1, 1⟩

theorem targeted_cluster : targeted.targets.get? 10 = some cluster := by
  decide

theorem stateRequest : StateRequest targeted ⟨1, 2, false⟩ cluster "drain-target" 22
    ⟨1, .draining⟩ :=
  ⟨rfl, rfl, rfl, by decide, by decide, by decide, by decide⟩

end Sample

/-- The target of the sample is drained by the statement with a cast. -/
theorem target_state_change_cluster : ∃ result db',
    updateTargetState [.uuidCast, .textCast] (Sample.env 2) Sample.authorization "cluster"
      "drain-target" "request" 22 ⟨1, .draining⟩ Sample.targeted = .ok ((result, false), db') ∧
      (db'.targets.get? 10).map TargetRow.state = some .draining ∧
      Settles Sample.platform 10 db' := by
  obtain ⟨result, db', hok, htarget, hsettles⟩ :=
    (target_state_change_iff Sample.targeted_arises (Sample.env 2) Sample.targeted_cluster
      [.uuidCast, .textCast] "request" Sample.stateRequest).mpr (by decide)
  exact ⟨result, db', hok, by rw [htarget]; rfl, hsettles⟩

/-- With the statement as it is, the target of the sample cannot be drained. -/
theorem target_never_drained : Service.Arises Sample.platform Sample.targeted ∧
    Sample.targeted.targets.get? 10 = some Sample.cluster ∧
    StateRequest Sample.targeted ⟨1, 2, false⟩ Sample.cluster "drain-target" 22 ⟨1, .draining⟩ ∧
    (updateTargetState targetStateOutboxUses (Sample.env 2) Sample.authorization "cluster"
      "drain-target" "request" 22 ⟨1, .draining⟩ Sample.targeted).toOption = none :=
  ⟨Sample.targeted_arises, Sample.targeted_cluster, Sample.stateRequest, by decide⟩

end JobmanControl
