import JobmanControl.Store.Footprint
import JobmanControl.Store.Log
import JobmanControl.Store.Maintenance

/-!
The store with every table filled by the operations that fill it. Targets, agents and logs
come from their own calls here, where the transition system of the jobs lets administration
replace them at will. Namespaces are added and never removed; policies and the recovery
state are still replaced freely.
-/

namespace JobmanControl

open Relational

/-- What the store is built with: the documents it can read, its tokens, and how it writes
an identity. -/
structure Platform where
  codec : Codec
  tokens : TokenScheme
  uuid : Id → String

inductive ServiceOperation
  | ensureBootstrapNamespace (namespaceId : Id) (name : String) (policy : PolicyRow)
  | administer (policies : Table Id PolicyRow) (recovery : RecoveryRow)
  | work (operation : Operation)
  | createTarget (authorization : Except StoreError Authorization)
      (idempotencyKey requestDigest : String) (draw : TargetDraw) (spec : TargetSpec)
  | createTargetGeneration (authorization : Except StoreError Authorization)
      (name idempotencyKey requestDigest : String) (draw : TargetDraw)
      (change : TargetGenerationChange)
  | updateTargetState (uses : List ParameterUse)
      (authorization : Except StoreError Authorization)
      (name idempotencyKey requestDigest : String) (outboxId : Id) (change : TargetStateChange)
  | createEnrollmentToken (signIn : Id → Option (String × String))
      (caller : Except StoreError Enroller) (recipient : Except StoreError Authorization)
      (namespaceName targetName idempotencyKey requestDigest : String) (enrollmentId : Id)
      (request : EnrollmentRequest)
  | enrollAgent (enrollmentToken : String) (registration : AgentRegistration)
      (sessionLifetime : Nat) (agentId sessionId : Id)
  | renewAgentSession (currentToken : String) (sessionLifetime : Nat) (newSessionId : Id)
  | authenticateAgent (token : String)
  | recordAgentCertificate (agentId : Id) (certificate : AgentCertificate)
  | rotateAgentCertificate (identity : AgentIdentity) (currentSerial : String)
      (certificate : AgentCertificate)
  | authenticateAgentCertificate (agentId : Id) (serial publicKeyDigest : String)
  | listAssignments (identity : AgentIdentity) (limit : Int)
  | listDesiredActions (identity : AgentIdentity) (limit : Int)
  | acknowledgeDesiredAction (identity : AgentIdentity) (acknowledgement : ActionAcknowledgement)
  | recordAgentCapabilities (identity : AgentIdentity) (capabilities : AgentCapabilities)
  | commitLogChunk (identity : AgentIdentity) (chunk : LogChunk)
  | configureMonitoringRetention (retention : Int)
  | publishMonitoringEvents (limit : Int)
  | pruneMonitoringEvents (limit : Int)
  | pruneOperationalData (limit : Int) (order : ScanOrder)

structure ServiceCall where
  env : Env
  operation : ServiceOperation

/-- `ensureBootstrapNamespace` with the policy the namespace gets; an existing name is left
as it is. -/
def ensureBootstrapNamespace (namespaceId : Id) (name : String) (policy : PolicyRow) :
    Tx StoreError Db Unit := fun db =>
  if db.namespaces.any fun _ existing => existing = name then .ok ((), db)
  else do
    ensure (validName name) (.constraint "namespaces_name_format")
    let namespaces ← need (db.namespaces.insert? namespaceId name) (.constraint "namespaces_pkey")
    let policies ← need (db.policies.insert? namespaceId policy)
      (.constraint "namespace_policies_pkey")
    pure ((), { db with namespaces := namespaces, policies := policies })

def publishMonitoringEvents (now : Time) (limit : Int) : Tx StoreError Db Unit := fun db => do
  let pending ← claimMonitoringEvents limit db
  let db ← appendMonitoringEvents now pending db
  pure ((), db)

/-- The calls on jobs other than a replacement of the tables they read. -/
def Operation.apply (codec : Codec) (env : Env) (operation : Operation) (db : Db) : Db :=
  match operation with
  | .configure _ => db
  | operation => Call.apply codec ⟨env, operation⟩ db

/-- The store after a call: its writes, or nothing if it was refused. -/
def ServiceCall.apply (platform : Platform) (call : ServiceCall) (db : Db) : Db :=
  match call.operation with
  | .ensureBootstrapNamespace namespaceId name policy =>
      atomically (ensureBootstrapNamespace namespaceId name policy) db
  | .administer policies recovery => { db with policies := policies, recovery := recovery }
  | .work operation => operation.apply platform.codec call.env db
  | .createTarget authorization key digest draw spec =>
      atomically (createTarget call.env authorization key digest draw spec) db
  | .createTargetGeneration authorization name key digest draw change =>
      atomically (createTargetGeneration lockTargetGeneration call.env authorization name key digest
        draw change) db
  | .updateTargetState uses authorization name key digest outboxId change =>
      atomically (updateTargetState uses call.env authorization name key digest outboxId change) db
  | .createEnrollmentToken signIn caller recipient namespaceName targetName key digest enrollmentId
      request =>
      atomically (createEnrollmentToken platform.tokens signIn call.env caller recipient
        namespaceName targetName key digest enrollmentId request) db
  | .enrollAgent token registration lifetime agentId sessionId =>
      atomically (enrollAgent platform.tokens call.env token registration lifetime agentId
        sessionId) db
  | .renewAgentSession token lifetime sessionId =>
      atomically (renewAgentSession platform.tokens call.env token lifetime sessionId) db
  | .authenticateAgent token => atomically (authenticateAgent platform.tokens call.env token) db
  | .recordAgentCertificate agentId certificate =>
      atomically (recordAgentCertificate agentId certificate) db
  | .rotateAgentCertificate identity serial certificate =>
      atomically (rotateAgentCertificate call.env identity serial certificate) db
  | .authenticateAgentCertificate agentId serial digest =>
      atomically (authenticateAgentCertificate call.env agentId serial digest) db
  | .listAssignments identity limit => atomically (listAssignments call.env identity limit) db
  | .listDesiredActions identity limit => atomically (listDesiredActions call.env identity limit) db
  | .acknowledgeDesiredAction identity acknowledgement =>
      atomically (acknowledgeDesiredAction identity acknowledgement) db
  | .recordAgentCapabilities identity capabilities =>
      atomically (recordAgentCapabilities call.env identity capabilities) db
  | .commitLogChunk identity chunk =>
      atomically (commitLogChunk platform.uuid Db.chunkAt call.env identity chunk) db
  | .configureMonitoringRetention retention =>
      atomically (configureMonitoringRetention retention) db
  | .publishMonitoringEvents limit => atomically (publishMonitoringEvents call.env.now limit) db
  | .pruneMonitoringEvents limit => atomically (pruneMonitoringEvents call.env.now limit) db
  | .pruneOperationalData limit order =>
      atomically (pruneOperationalData call.env.now order limit) db

structure AgentBinding where
  namespaceId : Id
  targetId : Id
  targetGenerationId : Id
  principalId : Id
  status : TargetState
  deriving DecidableEq

def AgentRow.binding (row : AgentRow) : AgentBinding :=
  ⟨row.namespaceId, row.targetId, row.targetGenerationId, row.principalId, row.status⟩

def ServiceOperation.ofCredentials : ServiceOperation → Bool
  | .createEnrollmentToken .. | .renewAgentSession .. | .authenticateAgent ..
  | .recordAgentCertificate .. | .rotateAgentCertificate .. | .authenticateAgentCertificate ..
  | .recordAgentCapabilities .. => true
  | _ => false

/-- What a call does to the catalog. -/
inductive CatalogStep (env : Env) (db db' : Db) : Prop
  | same : db'.catalog = db.catalog → CatalogStep env db db'
  | housed {namespaceId : Id} {name : String} {namespaces : Table Id String} :
      db.namespaces.insert? namespaceId name = some namespaces →
      db'.catalog = { db with namespaces := namespaces }.catalog → CatalogStep env db db'
  | created {granted : Authorization} {draw : TargetDraw} {spec : TargetSpec}
      {generations : Table Id GenerationRow} {createdAt : Time} :
      Creating env granted draw spec generations createdAt db db' → CatalogStep env db db'
  | selected {granted : Authorization} {draw : TargetDraw} {name : String} {locked : LockedTarget}
      {change : TargetGenerationChange} {generations : Table Id GenerationRow} :
      lockTargetGeneration db granted.namespaceId name = some locked →
      Selecting env granted draw locked change generations db db' → CatalogStep env db db'
  | moved {namespaceId targetId : Id} {name : String} {row : TargetRow} {state : TargetState} :
      targetNamed db namespaceId name = some (targetId, row) →
      Moving env targetId row state db db' → CatalogStep env db db'

/-- What a call that is not about jobs does, by the tables it writes. -/
inductive Effect (platform : Platform) (env : Env) (db : Db) : Db → Prop
  | refused : Effect platform env db db
  | administered (policies : Table Id PolicyRow) (recovery : RecoveryRow) :
      Effect platform env db { db with policies := policies, recovery := recovery }
  | cataloged {db' : Db} : CatalogStep env db db' →
      (∃ namespaces targets generations partitions clocks policies idempotency audit outbox,
        db' = { db with
          namespaces := namespaces, targets := targets, generations := generations
          partitions := partitions, targetCatalogClocks := clocks, policies := policies
          idempotency := idempotency, audit := audit, outbox := outbox }) →
      Effect platform env db db'
  | enrolled {token : String} {registration : AgentRegistration} {lifetime : Nat}
      {agentId sessionId : Id} {session : AgentSession} {db' : Db} :
      enrollAgent platform.tokens env token registration lifetime agentId sessionId db =
        .ok (session, db') →
      Effect platform env db db'
  | credentialed (operation : ServiceOperation) : operation.ofCredentials = true →
      Effect platform env db ((ServiceCall.mk env operation).apply platform db)
  | delivered (delivered : Id → AssignmentRow → Bool) :
      Effect platform env db { db with
        assignments := db.assignments.updateWhere delivered fun _ assignment =>
          { assignment with
            deliveryCount := assignment.deliveryCount + 1
            lastDeliveredAt := some env.now } }
  | acted (actions : Table Id DesiredActionRow) :
      Effect platform env db { db with actions := actions }
  | logged (streams : Table (Id × LogStream) LogStreamRow) (chunks : Table LogChunkKey LogChunkRow)
      (audit : List AuditRow) :
      Effect platform env db { db with logStreams := streams, logChunks := chunks, audit := audit }
  | maintained (idempotency : Table IdempotencyKey IdempotencyRow) (outbox : Table Id OutboxRow)
      (feed : Table Nat FeedRow) (feedState : FeedState) :
      Effect platform env db { db with
        idempotency := idempotency, outbox := outbox, feed := feed, feedState := feedState }

section Effect

variable {platform : Platform} {env : Env} {db db' : Db}

theorem publishMonitoringEvents_writes {now : Time} {limit : Int} {u : Unit}
    (h : publishMonitoringEvents now limit db = .ok (u, db')) :
    ∃ outbox feed feedState,
      db' = { db with outbox := outbox, feed := feed, feedState := feedState } := by
  simp only [publishMonitoringEvents, appendMonitoringEvents, bind_ok_iff, pure_ok_iff, Prod.exists,
    Prod.mk.injEq] at h
  obtain ⟨pending, -, _, ⟨db₁, head, hloop, rfl⟩, -, rfl⟩ := h
  obtain ⟨outbox, feed, hdb₁⟩ :
      ∃ outbox feed, db₁ = { db with outbox := outbox, feed := feed } := by
    refine foldlM_ok_induction
      (P := fun d : Db × Nat => ∃ outbox feed, d.1 = { db with outbox := outbox, feed := feed })
      pending ?_ ⟨db.outbox, db.feed, rfl⟩ hloop
    rintro ⟨d, head⟩ event ⟨d', head'⟩ - ⟨outbox, feed, hd⟩ hstep
    simp only [appendMonitoringEvent, placeMonitoringEvent, bind_ok_iff, pure_ok_iff, Prod.exists,
      Prod.mk.injEq] at hstep
    obtain ⟨d₁, _, hplace, rfl, -⟩ := hstep
    dsimp only at hd
    subst hd
    split at hplace
    · cases hplace
      exact ⟨_, feed, rfl⟩
    · simp only [bind_ok_iff, pure_ok_iff, Prod.mk.injEq] at hplace
      obtain ⟨-, -, feed', -, rfl, -⟩ := hplace
      exact ⟨_, feed', rfl⟩
  subst hdb₁
  split
  · exact ⟨outbox, feed, db.feedState, rfl⟩
  · exact ⟨outbox, feed, _, rfl⟩

theorem pruneMonitoringEvents_writes {now : Time} {limit : Int} {deleted : Nat}
    (h : pruneMonitoringEvents now limit db = .ok (deleted, db')) :
    ∃ feed feedState, db' = { db with feed := feed, feedState := feedState } := by
  simp only [pruneMonitoringEvents, bind_ok_iff] at h
  obtain ⟨-, -, h⟩ := h
  split at h
  · cases h
    exact ⟨_, _, rfl⟩
  · simp only [bind_ok_iff, pure_ok_iff, Prod.mk.injEq] at h
    obtain ⟨-, -, -, rfl⟩ := h
    exact ⟨_, _, rfl⟩

theorem pruneOperationalData_writes {now : Time} {order : ScanOrder} {limit : Int} {removed : Nat}
    (h : pruneOperationalData now order limit db = .ok (removed, db')) :
    ∃ idempotency outbox, db' = { db with idempotency := idempotency, outbox := outbox } := by
  simp only [pruneOperationalData, bind_ok_iff] at h
  obtain ⟨-, -, h⟩ := h
  split at h <;> simp only [pure_ok_iff, Prod.mk.injEq] at h <;> obtain ⟨-, rfl⟩ := h
  · exact ⟨_, db.outbox, rfl⟩
  · exact ⟨_, _, rfl⟩

theorem Effect.atomically {α : Type} {tx : Tx StoreError Db α}
    (h : ∀ a db', tx db = .ok (a, db') → Effect platform env db db') :
    Effect platform env db (atomically tx db) := by
  obtain ⟨a, hok⟩ | hsame := atomically_cases tx db
  · exact h a _ hok
  · rw [hsame]
    exact .refused

/-- Every call is about jobs or has one of the effects. -/
theorem ServiceCall.apply_effect (call : ServiceCall) (platform : Platform) (db : Db) :
    (∃ operation, call.operation = .work operation ∧
      call.apply platform db = operation.apply platform.codec call.env db) ∨
    Effect platform call.env db (call.apply platform db) := by
  obtain ⟨env, operation⟩ := call
  by_cases hwork : ∃ work, operation = .work work
  · obtain ⟨work, rfl⟩ := hwork
    exact Or.inl ⟨work, rfl, rfl⟩
  refine Or.inr ?_
  cases operation with
  | work work => exact absurd ⟨work, rfl⟩ hwork
  | createEnrollmentToken | renewAgentSession | authenticateAgent | recordAgentCertificate
  | rotateAgentCertificate | authenticateAgentCertificate | recordAgentCapabilities =>
      exact .credentialed _ rfl
  | administer policies recovery => exact .administered policies recovery
  | enrollAgent => exact .atomically fun _ _ h => .enrolled h
  | ensureBootstrapNamespace =>
      refine .atomically fun _ _ h => ?_
      unfold JobmanControl.ensureBootstrapNamespace at h
      split at h
      · cases h
        exact .refused
      · simp only [bind_ok_iff, need_ok_iff, pure_ok_iff, Prod.mk.injEq] at h
        obtain ⟨-, -, namespaces, hinsert, policies, -, -, rfl⟩ := h
        exact .cataloged (.housed hinsert rfl) ⟨_, _, _, _, _, _, _, _, _, rfl⟩
  | createTarget =>
      refine .atomically fun _ _ h => ?_
      obtain ⟨-, rfl⟩ | ⟨granted, generations, createdAt, hcreating⟩ := createTarget_ok h
      · exact .refused
      · obtain ⟨_, _, _, _, _, hrest⟩ := hcreating.rest
        exact .cataloged (.created hcreating) ⟨_, _, _, _, _, _, _, _, _, hrest⟩
  | createTargetGeneration =>
      refine .atomically fun _ _ h => ?_
      obtain ⟨granted, locked, -, hlocked, -, ⟨-, rfl, -⟩ | ⟨-, -, -, generations, hselecting⟩⟩ :=
        createTargetGeneration_ok h
      · exact .refused
      · obtain ⟨_, _, _, _, _, hrest⟩ := hselecting.rest
        exact .cataloged (.selected hlocked hselecting) ⟨_, _, _, _, _, _, _, _, _, hrest⟩
  | updateTargetState =>
      refine .atomically fun _ _ h => ?_
      obtain ⟨_, targetId, row, hnamed, ⟨-, rfl⟩ | ⟨-, hmoving⟩⟩ := updateTargetState_ok h
      · exact .refused
      · obtain ⟨_, _, _, _, hrest⟩ := hmoving.rest
        exact .cataloged (.moved hnamed hmoving) ⟨_, _, _, _, _, _, _, _, _, hrest⟩
  | listAssignments =>
      refine .atomically fun _ _ h => ?_
      obtain ⟨delivered, rfl⟩ := listAssignments_writes h
      exact .delivered delivered
  | commitLogChunk =>
      refine .atomically fun _ _ h => ?_
      obtain ⟨streams, chunks, audit, rfl⟩ := commitLogChunk_writes h
      exact .logged streams chunks audit
  | listDesiredActions =>
      refine .atomically fun _ _ h => ?_
      obtain ⟨actions, rfl⟩ := listDesiredActions_writes h
      exact .acted _
  | acknowledgeDesiredAction =>
      refine .atomically fun _ _ h => ?_
      obtain ⟨actions, rfl⟩ := acknowledgeDesiredAction_writes h
      exact .acted _
  | configureMonitoringRetention =>
      refine .atomically fun _ _ h => ?_
      simp only [configureMonitoringRetention, bind_ok_iff, pure_ok_iff, Prod.mk.injEq] at h
      obtain ⟨-, -, -, rfl⟩ := h
      exact .maintained db.idempotency db.outbox db.feed _
  | publishMonitoringEvents =>
      refine .atomically fun _ _ h => ?_
      obtain ⟨outbox, feed, feedState, rfl⟩ := publishMonitoringEvents_writes h
      exact .maintained db.idempotency outbox feed feedState
  | pruneMonitoringEvents =>
      refine .atomically fun _ _ h => ?_
      obtain ⟨feed, feedState, rfl⟩ := pruneMonitoringEvents_writes h
      exact .maintained db.idempotency db.outbox feed feedState
  | pruneOperationalData =>
      refine .atomically fun _ _ h => ?_
      obtain ⟨idempotency, outbox, rfl⟩ := pruneOperationalData_writes h
      exact .maintained idempotency outbox db.feed db.feedState

def AgentRow.seen (env : Env) (row : AgentRow) : AgentRow :=
  { row with updatedAt := env.now, lastSeenAt := some env.now }

inductive AgentStep (scheme : TokenScheme) (env : Env) (db db' : Db) : Prop
  | same : db'.agents = db.agents → db'.capabilitySnapshots = db.capabilitySnapshots →
      AgentStep scheme env db db'
  | seen (a : Id) : db'.agents = db.agents.modify a (AgentRow.seen env) →
      db'.capabilitySnapshots = db.capabilitySnapshots → AgentStep scheme env db db'
  | enrolled {token : String} {registration : AgentRegistration} {a : Id}
      {binding : EnrollmentBinding} : Enrolling scheme env token registration a binding db db' →
      AgentStep scheme env db db'
  | reported {a : Id} {agent : AgentRow} {capabilities : AgentCapabilities}
      {row : CapabilitySnapshotRow} : validateAgentCapabilities capabilities = .ok () →
      db.agents.get? a = some agent →
      (agent.report env capabilities (agent.capabilityRevision + 1)).Says row →
      db.capabilitySnapshots.insert? (a, agent.capabilityRevision + 1) row =
        some db'.capabilitySnapshots →
      db'.agents = db.agents.modify a
        (AgentRow.report env capabilities (agent.capabilityRevision + 1)) →
      AgentStep scheme env db db'

/-- What the calls about credentials write. No agent moves to another target by them. -/
structure CredentialStep (scheme : TokenScheme) (env : Env) (db db' : Db) : Prop where
  agents : AgentStep scheme env db db'
  binding : ∀ id, (db'.agents.get? id).map AgentRow.binding =
    (db.agents.get? id).map AgentRow.binding
  rest : ∃ idempotency tokens sessions certificates snapshots agents audit, db' = { db with
    idempotency := idempotency, enrollmentTokens := tokens, sessions := sessions
    certificates := certificates, capabilitySnapshots := snapshots, agents := agents
    audit := audit }

theorem binding_modify {agentId : Id} {f : AgentRow → AgentRow}
    (hf : ∀ row, (f row).binding = row.binding) (id : Id) :
    ((db.agents.modify agentId f).get? id).map AgentRow.binding =
      (db.agents.get? id).map AgentRow.binding := by
  rw [Table.get?_modify]
  split
  · rw [Option.map_map]
    exact congrArg (fun g => (db.agents.get? id).map g) (funext hf)
  · rfl

theorem ServiceOperation.apply_credentials {operation : ServiceOperation} (platform : Platform)
    (env : Env) (db : Db) (h : operation.ofCredentials = true) :
    CredentialStep platform.tokens env db ((ServiceCall.mk env operation).apply platform db) := by
  -- Most of them leave the agents alone.
  have hsame : ∀ {db' : Db}, db'.agents = db.agents →
      db'.capabilitySnapshots = db.capabilitySnapshots →
      (∃ idempotency tokens sessions certificates snapshots agents audit, db' = { db with
        idempotency := idempotency, enrollmentTokens := tokens, sessions := sessions
        certificates := certificates, capabilitySnapshots := snapshots, agents := agents
        audit := audit }) → CredentialStep platform.tokens env db db' :=
    fun hagents hsnapshots hrest => ⟨.same hagents hsnapshots, fun _ => by rw [hagents], hrest⟩
  have htx : ∀ {α : Type} (tx : Tx StoreError Db α),
      (∀ a db', tx db = .ok (a, db') → CredentialStep platform.tokens env db db') →
      CredentialStep platform.tokens env db (atomically tx db) := by
    intro α tx hok
    obtain ⟨a, h⟩ | hrefused := atomically_cases tx db
    · exact hok a _ h
    · rw [hrefused]
      exact hsame rfl rfl ⟨_, _, _, _, _, _, _, rfl⟩
  cases operation with
  | createEnrollmentToken =>
      refine htx _ fun _ _ h => ?_
      obtain ⟨_, _, _, rfl, -⟩ := createEnrollmentToken_writes h
      exact hsame rfl rfl ⟨_, _, _, _, _, _, _, rfl⟩
  | renewAgentSession =>
      refine htx _ fun _ _ h => ?_
      obtain ⟨sessions, rfl⟩ := renewAgentSession_writes h
      exact hsame rfl rfl ⟨_, _, _, _, _, _, _, rfl⟩
  | authenticateAgent =>
      refine htx _ fun _ _ h => ?_
      obtain ⟨sessions, rfl⟩ := authenticateAgent_writes h
      exact hsame rfl rfl ⟨_, _, _, _, _, _, _, rfl⟩
  | recordAgentCertificate =>
      refine htx _ fun _ _ h => ?_
      obtain ⟨certificates, rfl⟩ := recordAgentCertificate_writes h
      exact hsame rfl rfl ⟨_, _, _, _, _, _, _, rfl⟩
  | rotateAgentCertificate =>
      refine htx _ fun _ _ h => ?_
      obtain ⟨certificates, rfl⟩ := rotateAgentCertificate_writes h
      exact hsame rfl rfl ⟨_, _, _, _, _, _, _, rfl⟩
  | authenticateAgentCertificate agentId =>
      refine htx _ fun _ _ h => ?_
      obtain rfl := authenticateAgentCertificate_writes h
      exact ⟨.seen agentId rfl rfl, binding_modify fun _ => rfl, _, _, _, _, _, _, _, rfl⟩
  | recordAgentCapabilities =>
      refine htx _ fun _ _ h => ?_
      obtain rfl | ⟨agent, row, snapshots, hvalid, hagent, hsays, hinsert, rfl⟩ :=
        recordAgentCapabilities_writes h
      · exact hsame rfl rfl ⟨_, _, _, _, _, _, _, rfl⟩
      · exact ⟨.reported hvalid hagent hsays hinsert rfl, binding_modify fun _ => rfl,
          _, _, _, _, _, _, _, rfl⟩
  | _ => cases h

end Effect

namespace Service

def Step (platform : Platform) (db : Db) (call : ServiceCall) (db' : Db) : Prop :=
  call.apply platform db = db'

/-- The stores any sequence of calls leads to. -/
abbrev Later (platform : Platform) (db db' : Db) : Prop :=
  Transition.Reachable (Step platform) db db'

/-- The stores that can arise. -/
abbrev Arises (platform : Platform) (db : Db) : Prop := Later platform Db.empty db

def run (platform : Platform) (db : Db) (calls : List ServiceCall) : Db :=
  calls.foldl (fun db call => call.apply platform db) db

/-- A list of calls is a run; what they have in common is what the run is restricted to. -/
theorem reaches_run {allowed : ServiceCall → Prop} (platform : Platform) (db : Db)
    {calls : List ServiceCall} (h : ∀ call ∈ calls, allowed call) :
    Transition.Reaches (Step platform) (fun _ call => allowed call) db (run platform db calls) := by
  induction calls generalizing db with
  | nil => exact .refl
  | cons call rest ih =>
      have hrest := ih (call.apply platform db)
        fun other hmem => h other (List.mem_cons_of_mem _ hmem)
      exact (Transition.Reaches.tail call .refl (h call List.mem_cons_self) rfl).trans hrest

theorem later_run (platform : Platform) (db : Db) (calls : List ServiceCall) :
    Later platform db (run platform db calls) :=
  reaches_run platform db fun _ _ => trivial

end Service

/-! The small installation again, filled by the calls of the service. -/

namespace Sample

def tokens : TokenScheme where
  derive namespaceName id := namespaceName ++ "/" ++ toString id
  hash token := token

def platform : Platform := ⟨codec, tokens, toString⟩

def housed : Db :=
  Service.run platform Db.empty [⟨env 0, .ensureBootstrapNamespace 1 "research" policy⟩]

def hostSpec (name : String) : TargetSpec where
  name := name
  kind := .host
  executionBackend := .subprocess
  provider := ⟨.unset, "", ""⟩
  runtimes := ["native"]
  operatingSystems := []
  architectures := []
  capabilities := []
  logStoreName := ""
  logStoreVersion := 0
  artifactStores := []
  partitions := []

def targetDraw (n : Nat) : TargetDraw := ⟨10 * n, 10 * n + 1, 10 * n + 2, fun i => 1000 * n + i, n⟩

end Sample

end JobmanControl
