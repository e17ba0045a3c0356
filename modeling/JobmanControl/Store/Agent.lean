import JobmanControl.Store.Execution
import JobmanControl.Store.Target

/-!
The agents of a target: a token made for a member admits one agent to the current
generation, the agent keeps a session and a certificate, reports what it can run, and
asks for the offers and the cancellations that are meant for it. Tokens are known to the
store by their hashes.
-/

namespace JobmanControl

open Relational

/-- How the store makes the tokens it hands out, and how it keeps them. -/
structure TokenScheme where
  derive : String → Id → String
  hash : String → String

/-- `^sha256:[0-9a-f]{64}$`. -/
def validDigest (value : String) : Bool :=
  value.toList.take 7 = "sha256:".toList && (value.toList.drop 7).length = 64 &&
    (value.toList.drop 7).all fun c => decimalDigit c || ('a' ≤ c && c ≤ 'f')

def validSessionLifetime (lifetime : Nat) : Bool := minute ≤ lifetime && lifetime ≤ day

def allowsValue (allowed : List String) (value : String) : Bool :=
  allowed = [] || allowed.contains value

def ExecutionBackend.text : ExecutionBackend → String
  | .subprocess => "subprocess"
  | .slurm => "slurm"

/-! The checks of what an agent says about itself. -/

structure AgentFacts where
  agentVersion : String
  operatingSystem : String
  architecture : String
  hostname : String
  executionUser : String
  executionBackends : List ExecutionBackend
  runtimes : List String
  capabilities : List String
  deriving DecidableEq, Repr

def validateAgentFacts (facts : AgentFacts) : Except StoreError Unit := do
  ensure (facts.agentVersion ≠ "" ∧ facts.hostname ≠ "" ∧ facts.executionUser ≠ "" ∧
      validName facts.operatingSystem ∧ validName facts.architecture)
    (.invalid "agent capability facts are invalid")
  ensure (facts.agentVersion.utf8ByteSize ≤ 128 ∧ facts.hostname.utf8ByteSize ≤ 255 ∧
      facts.executionUser.utf8ByteSize ≤ 512)
    (.invalid "agent capability field is too long")
  validateSortedSet "execution backend" (facts.executionBackends.map ExecutionBackend.text)
    (some ["subprocess", "slurm"]) true
  validateSortedSet "runtime" facts.runtimes (some ["native", "container"]) true
  validateSortedSet "capability" facts.capabilities none false

structure AgentRegistration extends AgentFacts where
  targetGenerationId : Id
  protocolVersions : List String
  requestDigest : String
  deriving DecidableEq, Repr

def validateProtocolVersions : Option String → List String → Except StoreError Unit
  | _, [] => .ok ()
  | previous, version :: rest => do
      ensure (version ≠ "" ∧ version.utf8ByteSize ≤ 128 ∧ previous ≠ some version)
        (.invalid "protocol version is invalid or duplicated")
      validateProtocolVersions (some version) rest

def validateAgentRegistration (registration : AgentRegistration) : Except StoreError Unit := do
  ensure (registration.protocolVersions ≠ [] ∧ registration.protocolVersions.length ≤ 32 ∧
      isSorted registration.protocolVersions)
    (.invalid "protocol versions must be bounded and sorted")
  validateProtocolVersions none registration.protocolVersions
  ensure ("jobman/v1alpha1" ∈ registration.protocolVersions)
    (.invalid "agent does not support jobman/v1alpha1")
  ensure (validDigest registration.requestDigest)
    (.invalid "agent registration digest is invalid")
  validateAgentFacts registration.toAgentFacts

structure AgentCapabilities extends AgentFacts where
  agentId : Id
  observedAt : Time
  acceptingAssignments : Bool
  documentDigest : String
  document : String
  deriving DecidableEq, Repr

/-- `ValidateAgentCapabilities`; a time here is always a set one, in UTC. -/
def validateAgentCapabilities (capabilities : AgentCapabilities) : Except StoreError Unit := do
  ensure (validDigest capabilities.documentDigest)
    (.invalid "agent capability identity is invalid")
  validateAgentFacts capabilities.toAgentFacts

/-! Enrollment tokens. -/

structure EnrollmentRequest where
  issuer : String
  subject : String
  expectedUser : String
  lifetime : Nat
  deriving DecidableEq, Repr

def validateEnrollmentRequest (request : EnrollmentRequest) : Except StoreError Unit := do
  ensure (request.issuer ≠ "" ∧ request.subject ≠ "" ∧ request.expectedUser ≠ "")
    (.invalid "enrollment principal and expected user are required")
  ensure (request.issuer.utf8ByteSize ≤ 512 ∧ request.subject.utf8ByteSize ≤ 512 ∧
      request.expectedUser.utf8ByteSize ≤ 512 ∧ '\x00' ∉ request.expectedUser.toList)
    (.invalid "enrollment identity field is invalid")
  ensure (minute ≤ request.lifetime ∧ request.lifetime ≤ hour)
    (.invalid "enrollment lifetime must be between one minute and one hour")

/-- A token as a call returns it; one that was used is not shown again. -/
structure EnrollmentToken where
  id : Id
  namespaceName : String
  target : String
  targetGenerationId : Id
  issuer : String
  subject : String
  expectedUser : String
  token : String
  expiresAt : Time
  replayed : Bool
  deriving DecidableEq, Repr

/-- `getEnrollmentToken`; `signIn` is the table of principals. -/
def getEnrollmentToken (scheme : TokenScheme) (signIn : Id → Option (String × String)) (db : Db)
    (namespaceId enrollmentId : Id) : Except StoreError EnrollmentToken := do
  let row ← need (db.enrollmentTokens.get? enrollmentId) (.invalid "no rows in result set")
  ensure (row.namespaceId = namespaceId) (.invalid "no rows in result set")
  let namespaceName ← need (db.namespaces.get? row.namespaceId) (.invalid "no rows in result set")
  let target ← need (db.targets.get? row.targetId) (.invalid "no rows in result set")
  let (issuer, subject) ← need (signIn row.principalId) (.invalid "no rows in result set")
  pure ⟨enrollmentId, namespaceName, target.name, row.targetGenerationId, issuer, subject,
    row.expectedUser, if row.used.isSome then "" else scheme.derive "jme" enrollmentId,
    row.expiresAt, true⟩

/-- The caller of `CreateEnrollmentToken`, and whether they may make tokens for others. -/
structure Enroller where
  authorization : Authorization
  createAny : Bool
  deriving DecidableEq, Repr

/-- `CreateEnrollmentToken`. The member the token is for is authorized as the caller is;
one without access to the namespace is reported as not found. -/
def createEnrollmentToken (scheme : TokenScheme) (signIn : Id → Option (String × String))
    (env : Env) (caller : Except StoreError Enroller) (recipient : Except StoreError Authorization)
    (namespaceName targetName idempotencyKey requestDigest : String) (enrollmentId : Id)
    (request : EnrollmentRequest) : Tx StoreError Db EnrollmentToken := fun db => do
  ensure (validIdempotencyKey idempotencyKey) (.invalid "invalid idempotency key")
  validateEnrollmentRequest request
  let caller ← caller
  let authorization := caller.authorization
  let recipient ← recipient.mapError fun error => if error = .forbidden then .notFound else error
  ensure (caller.createAny ∨ recipient.principalId = authorization.principalId) .forbidden
  let (replayed, db) ← reserveIdempotency db authorization .agentEnrollmentTokensCreate
    .agentEnrollmentToken idempotencyKey requestDigest 201
  match replayed with
  | some tokenId => do
      let token ← getEnrollmentToken scheme signIn db authorization.namespaceId tokenId
      pure (token, db)
  | none => do
      let target ← need (targetNamed db authorization.namespaceId targetName) .notFound
      let generationId ← need target.2.currentGenerationId .notFound
      let _ ← need (db.generations.get? generationId) .notFound
      ensure (target.2.state = .active) .conflict
      let token := scheme.derive "jme" enrollmentId
      ensure (!db.enrollmentTokens.any fun _ existing => existing.tokenHash = scheme.hash token)
        (.constraint "agent_enrollment_tokens_token_hash_key")
      let expiresAt := env.now + request.lifetime
      let tokens ← need
        (db.enrollmentTokens.insert? enrollmentId
          { namespaceId := authorization.namespaceId
            targetId := target.1
            targetGenerationId := generationId
            principalId := recipient.principalId
            createdByPrincipalId := authorization.principalId
            expectedUser := request.expectedUser
            tokenHash := scheme.hash token
            requestDigest := requestDigest
            expiresAt := expiresAt
            used := none })
        (.constraint "agent_enrollment_tokens_pkey")
      let db ← completeIdempotency env { db with enrollmentTokens := tokens } authorization
        .agentEnrollmentTokensCreate idempotencyKey enrollmentId 201
      let db := db.appendAudit
        ⟨authorization.namespaceId, .principal authorization.principalId,
          .agentEnrollmentTokenCreated, .agentEnrollmentToken, enrollmentId, some requestDigest,
          some idempotencyKey⟩
      pure (⟨enrollmentId, namespaceName, targetName, generationId, request.issuer,
        request.subject, request.expectedUser, token, expiresAt, false⟩, db)

/-! Enrollment and sessions. -/

structure AgentSession where
  agentId : Id
  sessionId : Id
  token : String
  expiresAt : Time
  replayed : Bool
  deriving DecidableEq, Repr

/-- The rows `lookupEnrollmentForUpdate` joins: the token, its target and its generation,
as long as that generation is the current one. -/
structure EnrollmentBinding where
  enrollmentId : Id
  token : EnrollmentTokenRow
  target : TargetRow
  generation : GenerationRow
  deriving DecidableEq, Repr

def lookupEnrollment (db : Db) (tokenHash : String) : Option EnrollmentBinding := do
  let entry ← (db.enrollmentTokens.select fun _ token => token.tokenHash = tokenHash).head?
  let target ← db.targets.get? entry.2.targetId
  let generation ← db.generations.get? entry.2.targetGenerationId
  guard (target.currentGenerationId = some entry.2.targetGenerationId)
  pure ⟨entry.1, entry.2, target, generation⟩

def replayEnrollment (scheme : TokenScheme) (env : Env) (db : Db) (agentId : Id)
    (registrationDigest : String) : Except StoreError AgentSession := do
  let agent ← need (db.agents.get? agentId) .conflict
  let (sessionId, session) ← need
    (firstBy (fun a b => a.2.createdAt ≥ b.2.createdAt)
      (db.sessions.select fun _ session =>
        session.agentId = agentId && session.revokedAt = none && env.now < session.expiresAt))
    .conflict
  ensure (agent.registrationDigest = registrationDigest) .idempotencyConflict
  pure ⟨agentId, sessionId, scheme.derive "jms" sessionId, session.expiresAt, true⟩

def newAgentRow (env : Env) (binding : EnrollmentBinding) (registration : AgentRegistration) :
    AgentRow :=
  { namespaceId := binding.token.namespaceId
    targetId := binding.token.targetId
    targetGenerationId := binding.token.targetGenerationId
    principalId := binding.token.principalId
    status := .active
    acceptingAssignments := true
    lastCapabilityAt := some env.now
    lastSeenAt := some env.now
    operatingSystem := registration.operatingSystem
    architecture := registration.architecture
    executionBackends := registration.executionBackends
    runtimes := registration.runtimes
    capabilities := registration.capabilities
    createdAt := env.now
    updatedAt := env.now
    agentVersion := registration.agentVersion
    protocolVersions := registration.protocolVersions
    hostname := registration.hostname
    executionUser := registration.executionUser
    registrationDigest := registration.requestDigest
    capabilityRevision := 0 }

def insertSession (env : Env) (db : Db) (sessionId namespaceId agentId : Id) (tokenHash : String)
    (lifetime : Nat) : Except StoreError Db := do
  ensure (!db.sessions.any fun _ session => session.tokenHash = tokenHash)
    (.constraint "agent_sessions_token_hash_key")
  let sessions ← need
    (db.sessions.insert? sessionId
      ⟨agentId, env.now + lifetime, none, namespaceId, tokenHash, none, none, env.now⟩)
    (.constraint "agent_sessions_pkey")
  pure { db with sessions := sessions }

/-- `EnrollAgent`, for the row its lock statement returns. -/
def enrollAgentWith (lookup : Db → String → Option EnrollmentBinding) (scheme : TokenScheme)
    (env : Env) (enrollmentToken : String) (registration : AgentRegistration)
    (sessionLifetime : Nat) (agentId sessionId : Id) :
    Tx StoreError Db AgentSession := fun db => do
  validateAgentRegistration registration
  ensure (validSessionLifetime sessionLifetime) (.invalid "agent session lifetime is invalid")
  let binding ← need (lookup db (scheme.hash enrollmentToken)) .unauthenticated
  match binding.token.used with
  | some use => do
      let session ← replayEnrollment scheme env db use.usedByAgentId registration.requestDigest
      pure (session, db)
  | none => do
      ensure (env.now < binding.token.expiresAt ∧ binding.target.state = .active ∧
        binding.token.targetGenerationId = registration.targetGenerationId) .conflict
      ensure (binding.token.expectedUser = registration.executionUser ∧
        registration.executionBackends.contains binding.generation.executionBackend ∧
        allowsValue binding.generation.operatingSystems registration.operatingSystem ∧
        allowsValue binding.generation.architectures registration.architecture) .forbidden
      let agents ← need (db.agents.insert? agentId (newAgentRow env binding registration))
        (.constraint "agents_pkey")
      let token := scheme.derive "jms" sessionId
      let db ← insertSession env { db with agents := agents } sessionId binding.token.namespaceId
        agentId (scheme.hash token) sessionLifetime
      let db : Db :=
        { db with
          enrollmentTokens := db.enrollmentTokens.modify binding.enrollmentId fun row =>
            { row with used := some ⟨env.now, agentId⟩ } }
      let db := db.appendAudit
        ⟨binding.token.namespaceId, .principal binding.token.principalId, .agentEnrolled, .agent,
          agentId, some registration.requestDigest, none⟩
      pure (⟨agentId, sessionId, token, env.now + sessionLifetime, false⟩, db)

def enrollAgent (scheme : TokenScheme) (env : Env) (enrollmentToken : String)
    (registration : AgentRegistration) (sessionLifetime : Nat) (agentId sessionId : Id) :
    Tx StoreError Db AgentSession :=
  enrollAgentWith lookupEnrollment scheme env enrollmentToken registration sessionLifetime agentId
    sessionId

/-- `status IN ('active', 'draining')`, for an agent and for a target. -/
def TargetState.serving (state : TargetState) : Bool := state = .active || state = .draining

/-- An unrevoked and unexpired session whose agent and target serve. -/
def servingSession (env : Env) (db : Db) (tokenHash : String) :
    Option ((Id × SessionRow) × AgentRow) := do
  let entry ← (db.sessions.select fun _ session =>
    session.tokenHash = tokenHash && session.revokedAt = none &&
      decide (env.now < session.expiresAt)).head?
  let agent ← db.agents.get? entry.2.agentId
  let target ← db.targets.get? agent.targetId
  guard (agent.status.serving ∧ target.state.serving)
  pure (entry, agent)

/-- `RenewAgentSession`, for the row its lock statement returns. -/
def renewAgentSessionWith (lookup : Env → Db → String → Option ((Id × SessionRow) × AgentRow))
    (scheme : TokenScheme) (env : Env) (currentToken : String) (sessionLifetime : Nat)
    (newSessionId : Id) : Tx StoreError Db AgentSession := fun db => do
  ensure (validSessionLifetime sessionLifetime) (.invalid "agent session lifetime is invalid")
  let ((sessionId, session), agent) ← need (lookup env db (scheme.hash currentToken))
    .unauthenticated
  let token := scheme.derive "jms" newSessionId
  let db ← insertSession env db newSessionId agent.namespaceId session.agentId (scheme.hash token)
    sessionLifetime
  let db : Db :=
    { db with
      sessions := db.sessions.modify sessionId fun row =>
        { row with revokedAt := some env.now, replacedBySessionId := some newSessionId } }
  pure (⟨session.agentId, newSessionId, token, env.now + sessionLifetime, false⟩, db)

def renewAgentSession (scheme : TokenScheme) (env : Env) (currentToken : String)
    (sessionLifetime : Nat) (newSessionId : Id) : Tx StoreError Db AgentSession :=
  renewAgentSessionWith servingSession scheme env currentToken sessionLifetime newSessionId

def authenticateAgent (scheme : TokenScheme) (env : Env) (token : String) :
    Tx StoreError Db AgentIdentity := fun db => do
  let ((sessionId, session), agent) ← need (servingSession env db (scheme.hash token))
    .unauthenticated
  let _ ← need (db.namespaces.get? agent.namespaceId) .unauthenticated
  pure (⟨session.agentId, agent.namespaceId, agent.targetGenerationId⟩,
    { db with
      sessions := db.sessions.modify sessionId fun row => { row with lastSeenAt := some env.now } })

/-! Certificates. -/

structure AgentCertificate where
  serial : String
  publicKeyDigest : String
  expiresAt : Time
  deriving DecidableEq, Repr

/-- `RecordAgentCertificate`: a serial that is known must be known with the same values. -/
def recordAgentCertificate (agentId : Id) (certificate : AgentCertificate) :
    Tx StoreError Db Unit := fun db => do
  let agent ← need (db.agents.get? agentId) .conflict
  ensure (agent.status = .active) .conflict
  match db.certificates.insert? certificate.serial
      ⟨agent.namespaceId, agentId, certificate.publicKeyDigest, certificate.expiresAt, none,
        none⟩ with
  | some certificates => pure ((), { db with certificates := certificates })
  | none => do
      let existing ← need (db.certificates.get? certificate.serial) .conflict
      ensure (existing.agentId = agentId ∧
        existing.publicKeyDigest = certificate.publicKeyDigest ∧
        existing.notAfter = certificate.expiresAt) .conflict
      pure ((), db)

/-- `RotateAgentCertificate`, for the certificate the caller was authenticated with and the
row its update finds among the certificates. -/
def rotateAgentCertificateWith
    (lookup : Table String CertificateRow → String → Option CertificateRow) (env : Env)
    (identity : AgentIdentity) (currentSerial : String) (certificate : AgentCertificate) :
    Tx StoreError Db Unit := fun db => do
  let certificates ← need
    (db.certificates.insert? certificate.serial
      ⟨identity.namespaceId, identity.agentId, certificate.publicKeyDigest, certificate.expiresAt,
        none, none⟩)
    (.constraint "agent_certificates_pkey")
  let current ← need (lookup certificates currentSerial) .unauthenticated
  ensure (current.agentId = identity.agentId ∧ current.revokedAt = none ∧
    env.now < current.notAfter) .unauthenticated
  pure ((), { db with
    certificates := certificates.modify currentSerial fun row =>
      { row with revokedAt := some env.now, replacedBySerial := some certificate.serial } })

def rotateAgentCertificate (env : Env) (identity : AgentIdentity) (currentSerial : String)
    (certificate : AgentCertificate) : Tx StoreError Db Unit :=
  rotateAgentCertificateWith Table.get? env identity currentSerial certificate

def authenticateAgentCertificate (env : Env) (agentId : Id) (serial publicKeyDigest : String) :
    Tx StoreError Db AgentIdentity := fun db => do
  let agent ← need (db.agents.get? agentId) .unauthenticated
  let certificate ← need (db.certificates.get? serial) .unauthenticated
  let target ← need (db.targets.get? agent.targetId) .unauthenticated
  let _ ← need (db.namespaces.get? agent.namespaceId) .unauthenticated
  ensure (certificate.publicKeyDigest = publicKeyDigest ∧ certificate.agentId = agentId ∧
    certificate.namespaceId = agent.namespaceId ∧ certificate.revokedAt = none ∧
    env.now < certificate.notAfter ∧ agent.status.serving ∧ target.state.serving)
    .unauthenticated
  pure (⟨agentId, agent.namespaceId, agent.targetGenerationId⟩,
    { db with
      agents := db.agents.modify agentId fun row =>
        { row with updatedAt := env.now, lastSeenAt := some env.now } })

/-! Offers, cancellations and capabilities. -/

structure Assignment where
  deliveryId : Id
  executionId : Id
  effectiveExecutionDigest : String
  document : String
  createdAt : Time
  deriving DecidableEq, Repr

/-- The offers the agent may see: none unless it is active, accepting and fresh, and its
target is active. -/
def openOffers (env : Env) (db : Db) (identity : AgentIdentity) : List (Id × AssignmentRow) :=
  orderBy (fun a b => a.2.createdAt < b.2.createdAt ||
      (a.2.createdAt = b.2.createdAt && a.1 ≤ b.1))
    (db.assignments.select fun _ assignment =>
      assignment.agentId = identity.agentId && assignment.namespaceId = identity.namespaceId &&
        assignment.state = .offered &&
        (db.agents.get? assignment.agentId).any fun agent =>
          agent.status = .active && agent.acceptingAssignments &&
            (agent.lastCapabilityAt.any fun observed => env.now < observed + Db.tenMinutes) &&
            (db.targets.get? agent.targetId).any fun target => target.state = .active)

/-- `ListAssignments`: the offers are delivered again, and each delivery is counted. -/
def listAssignments (env : Env) (identity : AgentIdentity) (limit : Int) :
    Tx StoreError Db (List Assignment) := fun db => do
  ensure (1 ≤ limit ∧ limit ≤ 100) (.invalid "assignment limit must be between 1 and 100")
  let selected := (openOffers env db identity).take limit.toNat
  let delivered := selected.filterMap fun entry =>
    (db.executions.get? entry.2.executionId).map fun execution =>
      (⟨entry.1, entry.2.executionId, execution.effectiveSpecDigest, entry.2.document,
        entry.2.createdAt⟩ : Assignment)
  pure (delivered, { db with
    assignments := db.assignments.updateWhere
      (fun id assignment => (selected.map Prod.fst).contains id &&
        (db.executions.get? assignment.executionId).isSome)
      (fun _ assignment =>
        { assignment with
          deliveryCount := assignment.deliveryCount + 1
          lastDeliveredAt := some env.now }) })

structure DesiredAction where
  actionId : Id
  executionId : Id
  agentId : Id
  revision : Nat
  createdAt : Time
  deriving DecidableEq, Repr

def listDesiredActions (env : Env) (identity : AgentIdentity) (limit : Int) :
    Tx StoreError Db (List DesiredAction) := fun db => do
  ensure (1 ≤ limit ∧ limit ≤ 100) (.invalid "action limit must be between 1 and 100")
  let selected :=
    (orderBy (fun a b => a.2.createdAt < b.2.createdAt ||
        (a.2.createdAt = b.2.createdAt && a.1 ≤ b.1))
      (db.actions.select fun _ action =>
        action.agentId = identity.agentId && action.namespaceId = identity.namespaceId &&
          action.state = .pending)).take limit.toNat
  pure (selected.map fun entry =>
      ⟨entry.1, entry.2.executionId, entry.2.agentId, entry.2.revision, entry.2.createdAt⟩,
    { db with
      actions := db.actions.updateWhere (fun id _ => (selected.map Prod.fst).contains id)
        (fun _ action =>
          { action with
            deliveryCount := action.deliveryCount + 1
            lastDeliveredAt := some env.now }) })

structure ActionAcknowledgement where
  actionId : Id
  executionId : Id
  revision : Int
  observedAt : Time
  deriving DecidableEq, Repr

/-- `AcknowledgeDesiredAction`; the answer says whether it had been acknowledged before. -/
def acknowledgeDesiredAction (identity : AgentIdentity) (acknowledgement : ActionAcknowledgement) :
    Tx StoreError Db Bool := fun db => do
  let action ← need (db.actions.get? acknowledgement.actionId) .notFound
  ensure (action.namespaceId = identity.namespaceId ∧
    action.executionId = acknowledgement.executionId ∧ action.agentId = identity.agentId ∧
    action.revision = acknowledgement.revision) .notFound
  match action.state with
  | .pending =>
      pure (false, { db with
        actions := db.actions.modify acknowledgement.actionId fun row =>
          { row with state := .acknowledged acknowledgement.observedAt } })
  | .acknowledged _ => pure (true, db)

def isSubset (values allowed : List String) : Bool := values.all fun value => allowed.contains value

structure AgentCapabilitySnapshot where
  capabilities : AgentCapabilities
  revision : Nat
  replayed : Bool
  deriving DecidableEq, Repr

def AgentRow.report (env : Env) (capabilities : AgentCapabilities) (revision : Nat)
    (row : AgentRow) : AgentRow :=
  { row with
    agentVersion := capabilities.agentVersion
    executionBackends := capabilities.executionBackends
    runtimes := capabilities.runtimes
    capabilities := capabilities.capabilities
    acceptingAssignments := capabilities.acceptingAssignments
    capabilityRevision := revision
    lastCapabilityAt := some capabilities.observedAt
    updatedAt := env.now }

def recordAgentCapabilities (env : Env) (identity : AgentIdentity)
    (capabilities : AgentCapabilities) : Tx StoreError Db AgentCapabilitySnapshot := fun db => do
  validateAgentCapabilities capabilities
  ensure (capabilities.agentId = identity.agentId) .forbidden
  let agent ← need (db.agents.get? identity.agentId) .conflict
  let target ← need (db.targets.get? agent.targetId) .conflict
  let generation ← need (db.generations.get? agent.targetGenerationId) .conflict
  ensure (agent.namespaceId = identity.namespaceId ∧
    agent.targetGenerationId = identity.targetGenerationId ∧ agent.status.serving ∧
    target.state.serving) .conflict
  match (db.capabilitySnapshots.select fun key snapshot =>
      key.1 = identity.agentId && snapshot.documentDigest = capabilities.documentDigest).head? with
  | some ((_, revision), _) => pure (⟨capabilities, revision, true⟩, db)
  | none => do
      ensure (agent.operatingSystem = capabilities.operatingSystem ∧
        agent.architecture = capabilities.architecture ∧
        agent.hostname = capabilities.hostname ∧
        agent.executionUser = capabilities.executionUser) .conflict
      ensure (capabilities.executionBackends.contains generation.executionBackend ∧
        isSubset capabilities.runtimes generation.runtimes) .conflict
      let revision := agent.capabilityRevision + 1
      let snapshots ← need
        (db.capabilitySnapshots.insert? (identity.agentId, revision)
          { namespaceId := identity.namespaceId
            observedAt := capabilities.observedAt
            acceptingAssignments := capabilities.acceptingAssignments
            agentVersion := capabilities.agentVersion
            operatingSystem := capabilities.operatingSystem
            architecture := capabilities.architecture
            hostname := capabilities.hostname
            executionUser := capabilities.executionUser
            executionBackends := capabilities.executionBackends
            runtimes := capabilities.runtimes
            capabilities := capabilities.capabilities
            documentDigest := capabilities.documentDigest
            document := capabilities.document })
        (.constraint "agent_capability_snapshots_pkey")
      let db : Db :=
        { db with
          capabilitySnapshots := snapshots
          agents := db.agents.modify identity.agentId (AgentRow.report env capabilities revision) }
      let db := db.appendAudit
        ⟨identity.namespaceId, .agent identity.agentId, .agentCapabilitiesReported, .agent,
          identity.agentId, some capabilities.documentDigest, none⟩
      pure (⟨capabilities, revision, false⟩, db)

variable {sessionId agentId : Id} {lifetime : Nat} {token : String} {identity : AgentIdentity}

/-! What each call writes. -/

section Writes

variable {scheme : TokenScheme} {env : Env} {db db' : Db}

theorem createEnrollmentToken_writes {signIn : Id → Option (String × String)}
    {caller : Except StoreError Enroller} {recipient : Except StoreError Authorization}
    {namespaceName targetName key digest : String} {enrollmentId : Id}
    {request : EnrollmentRequest} {token : EnrollmentToken}
    (h : createEnrollmentToken scheme signIn env caller recipient namespaceName targetName key
      digest enrollmentId request db = .ok (token, db')) :
    ∃ idempotency tokens audit, db' = { db with
        idempotency := idempotency, enrollmentTokens := tokens, audit := audit } ∧
      (tokens = db.enrollmentTokens ∨
        ∃ row, db.enrollmentTokens.insert? enrollmentId row = some tokens ∧ row.used = none ∧
          ∀ e old, db.enrollmentTokens.get? e = some old → old.tokenHash ≠ row.tokenHash) := by
  simp only [createEnrollmentToken, bind_ok_iff, Prod.exists] at h
  obtain ⟨-, -, -, -, caller, -, recipient, -, -, -, replayed, db₁, hreserve, h⟩ := h
  obtain ⟨idempotency, rfl⟩ := reserveIdempotency_ok hreserve
  split at h
  · simp only [bind_ok_iff, pure_ok_iff, Prod.mk.injEq] at h
    obtain ⟨_, -, -, rfl⟩ := h
    exact ⟨idempotency, db.enrollmentTokens, db.audit, rfl, Or.inl rfl⟩
  · simp only [bind_ok_iff, need_ok_iff, ensure_ok_iff, pure_ok_iff, Prod.mk.injEq,
      Bool.not_eq_true', Table.any_eq_false_iff, decide_eq_false_iff_not] at h
    obtain ⟨_, -, _, -, -, -, -, -, -, hunseen, tokens, htokens, db₂, hcomplete, -, rfl⟩ := h
    obtain ⟨idempotency', rfl⟩ := completeIdempotency_ok hcomplete
    exact ⟨idempotency', tokens, _, rfl, Or.inr ⟨_, htokens, rfl, hunseen⟩⟩

theorem insertSession_ok {namespaceId : Id} {hash : String}
    (h : insertSession env db sessionId namespaceId agentId hash lifetime = .ok db') :
    ∃ sessions, db' = { db with sessions := sessions } := by
  simp only [insertSession, bind_ok_iff, pure_ok_iff] at h
  obtain ⟨-, -, sessions, -, rfl⟩ := h
  exact ⟨sessions, rfl⟩

/-- What a new enrollment finds, and what it writes. -/
structure Enrolling (scheme : TokenScheme) (env : Env) (token : String)
    (registration : AgentRegistration) (agentId : Id) (binding : EnrollmentBinding)
    (db db' : Db) : Prop where
  valid : validateAgentRegistration registration = .ok ()
  bound : lookupEnrollment db (scheme.hash token) = some binding
  active : binding.target.state = .active
  operatingSystem :
    allowsValue binding.generation.operatingSystems registration.operatingSystem = true
  architecture : allowsValue binding.generation.architectures registration.architecture = true
  agents : db.agents.insert? agentId (newAgentRow env binding registration) = some db'.agents
  rest : ∃ agents sessions tokens audit, db' = { db with
    agents := agents, sessions := sessions, enrollmentTokens := tokens, audit := audit }

/-- An enrollment admits one agent, to the current generation of an active target, or
answers a repeated one. -/
theorem enrollAgent_writes {registration : AgentRegistration} {session : AgentSession}
    (h : enrollAgent scheme env token registration lifetime agentId sessionId db =
      .ok (session, db')) :
    db' = db ∨ ∃ binding, Enrolling scheme env token registration agentId binding db db' := by
  simp only [enrollAgent, enrollAgentWith, bind_ok_iff, need_ok_iff] at h
  obtain ⟨_, hvalid, -, -, binding, hbinding, h⟩ := h
  split at h
  · simp only [bind_ok_iff, pure_ok_iff, Prod.mk.injEq] at h
    obtain ⟨_, -, -, rfl⟩ := h
    exact Or.inl rfl
  · simp only [bind_ok_iff, need_ok_iff, ensure_ok_iff, pure_ok_iff, Prod.mk.injEq] at h
    obtain ⟨-, ⟨-, hactive, -⟩, -, ⟨-, -, hos, harch⟩, agents, hagents, db₁, hsession, -, rfl⟩ := h
    obtain ⟨sessions, rfl⟩ := insertSession_ok hsession
    exact Or.inr ⟨binding, hvalid, hbinding, hactive, hos, harch, hagents, agents, sessions, _, _,
      rfl⟩

theorem renewAgentSession_writes {session : AgentSession}
    (h : renewAgentSession scheme env token lifetime sessionId db = .ok (session, db')) :
    ∃ sessions, db' = { db with sessions := sessions } := by
  simp only [renewAgentSession, renewAgentSessionWith, bind_ok_iff, pure_ok_iff, Prod.exists,
    Prod.mk.injEq] at h
  obtain ⟨-, -, _, _, _, -, db₁, hsession, -, rfl⟩ := h
  obtain ⟨sessions, rfl⟩ := insertSession_ok hsession
  exact ⟨_, rfl⟩

theorem authenticateAgent_writes (h : authenticateAgent scheme env token db = .ok (identity, db')) :
    ∃ sessions, db' = { db with sessions := sessions } := by
  simp only [authenticateAgent, bind_ok_iff, pure_ok_iff, Prod.exists, Prod.mk.injEq] at h
  obtain ⟨_, _, _, -, _, -, -, rfl⟩ := h
  exact ⟨_, rfl⟩

theorem recordAgentCertificate_writes {certificate : AgentCertificate} {u : Unit}
    (h : recordAgentCertificate agentId certificate db = .ok (u, db')) :
    ∃ certificates, db' = { db with certificates := certificates } := by
  simp only [recordAgentCertificate, bind_ok_iff] at h
  obtain ⟨_, -, -, -, h⟩ := h
  split at h
  · cases h
    exact ⟨_, rfl⟩
  · simp only [bind_ok_iff, pure_ok_iff, Prod.mk.injEq] at h
    obtain ⟨_, -, -, -, -, rfl⟩ := h
    exact ⟨db.certificates, rfl⟩

theorem rotateAgentCertificate_writes {serial : String} {certificate : AgentCertificate} {u : Unit}
    (h : rotateAgentCertificate env identity serial certificate db = .ok (u, db')) :
    ∃ certificates, db' = { db with certificates := certificates } := by
  simp only [rotateAgentCertificate, rotateAgentCertificateWith, bind_ok_iff, pure_ok_iff,
    Prod.mk.injEq] at h
  obtain ⟨_, -, _, -, -, -, -, rfl⟩ := h
  exact ⟨_, rfl⟩

theorem authenticateAgentCertificate_writes {serial digest : String}
    (h : authenticateAgentCertificate env agentId serial digest db = .ok (identity, db')) :
    db' = { db with agents := db.agents.modify agentId fun row =>
      { row with updatedAt := env.now, lastSeenAt := some env.now } } := by
  simp only [authenticateAgentCertificate, bind_ok_iff, pure_ok_iff, Prod.mk.injEq] at h
  obtain ⟨_, -, _, -, _, -, _, -, -, -, -, rfl⟩ := h
  rfl

theorem listAssignments_writes {limit : Int} {offers : List Assignment}
    (h : listAssignments env identity limit db = .ok (offers, db')) :
    ∃ delivered : Id → AssignmentRow → Bool, db' = { db with
      assignments := db.assignments.updateWhere delivered fun _ assignment =>
        { assignment with
          deliveryCount := assignment.deliveryCount + 1
          lastDeliveredAt := some env.now } } := by
  simp only [listAssignments, bind_ok_iff, pure_ok_iff, Prod.mk.injEq] at h
  obtain ⟨-, -, -, rfl⟩ := h
  exact ⟨_, rfl⟩

theorem listDesiredActions_writes {limit : Int} {actions : List DesiredAction}
    (h : listDesiredActions env identity limit db = .ok (actions, db')) :
    ∃ actions, db' = { db with actions := actions } := by
  simp only [listDesiredActions, bind_ok_iff, pure_ok_iff, Prod.mk.injEq] at h
  obtain ⟨-, -, -, rfl⟩ := h
  exact ⟨_, rfl⟩

theorem acknowledgeDesiredAction_writes {acknowledgement : ActionAcknowledgement} {replayed : Bool}
    (h : acknowledgeDesiredAction identity acknowledgement db = .ok (replayed, db')) :
    ∃ actions, db' = { db with actions := actions } := by
  simp only [acknowledgeDesiredAction, bind_ok_iff] at h
  obtain ⟨action, -, -, -, h⟩ := h
  split at h <;> cases h
  · exact ⟨_, rfl⟩
  · exact ⟨db.actions, rfl⟩

structure AgentRow.Says (row : AgentRow) (report : CapabilitySnapshotRow) : Prop where
  reportedAt : row.lastCapabilityAt = some report.observedAt
  accepting : row.acceptingAssignments = report.acceptingAssignments
  executionBackends : row.executionBackends = report.executionBackends
  runtimes : row.runtimes = report.runtimes
  capabilities : row.capabilities = report.capabilities

/-- A report is stored under the agent that made it, and read from its row. -/
theorem recordAgentCapabilities_writes {capabilities : AgentCapabilities}
    {snapshot : AgentCapabilitySnapshot}
    (h : recordAgentCapabilities env identity capabilities db = .ok (snapshot, db')) :
    db' = db ∨ ∃ agent row snapshots, validateAgentCapabilities capabilities = .ok () ∧
      db.agents.get? identity.agentId = some agent ∧
      (agent.report env capabilities (agent.capabilityRevision + 1)).Says row ∧
      db.capabilitySnapshots.insert? (identity.agentId, agent.capabilityRevision + 1) row =
        some snapshots ∧
      db' = { db with
        capabilitySnapshots := snapshots
        agents := db.agents.modify identity.agentId
          (AgentRow.report env capabilities (agent.capabilityRevision + 1))
        audit := db.audit ++ [⟨identity.namespaceId, .agent identity.agentId,
          .agentCapabilitiesReported, .agent, identity.agentId,
          some capabilities.documentDigest, none⟩] } := by
  simp only [recordAgentCapabilities, bind_ok_iff, need_ok_iff] at h
  obtain ⟨_, hvalid, -, -, agent, hagent, _, -, _, -, -, -, h⟩ := h
  split at h
  · cases h
    exact Or.inl rfl
  · simp only [bind_ok_iff, need_ok_iff, pure_ok_iff, Prod.mk.injEq] at h
    obtain ⟨-, -, -, -, snapshots, hsnapshots, -, rfl⟩ := h
    exact Or.inr ⟨agent, _, snapshots, hvalid, hagent, ⟨rfl, rfl, rfl, rfl, rfl⟩, hsnapshots, rfl⟩

end Writes

end JobmanControl
