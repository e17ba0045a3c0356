import JobmanControl.Authority.Directory

/-!
Delegated callers. A registered service signs short-lived assertions; presenting
one checks its claims against the registered key and the TLS peer and then
consumes it by inserting its service and assertion ID into a ledger. An assertion
stands for a represented user or for the service itself; both kinds share the
ledger. Assertion times are integers, as a signed document may hold any.
-/

namespace JobmanControl

open Relational

/-- What the code takes from cryptographic and token libraries: the digest of a
mapping, the md5 identity of a mirrored grant, and the library's own validation of
standard claims at a time with five seconds of leeway. -/
structure Primitives where
  digest : DirectoryMapping → String
  legacyGrantId : Id → Id → Id
  validateWithLeeway : (issuer audience : String) → (notBefore expiry issuedAt : Int) → Time → Bool

/-- The represented user: the directory text with the uuid it is, if it is one. -/
structure ActorClaim where
  directoryText : String
  directoryId : Option Id
  signIn : SignIn
  deriving DecidableEq, Repr

structure DelegationClaims where
  issuer : String
  subject : String
  audience : List String
  id : String
  issuedAt : Option Int
  notBefore : Option Int
  expiry : Option Int
  thumbprint : Option String
  hasActorMember : Bool
  actor : Option ActorClaim
  operation : Capability
  namespaceIds : List Id
  mode : DelegationMode
  deriving DecidableEq, Repr

/-- A signed token: the key it names, the public key it was really signed for, and
what it claims. -/
structure Assertion where
  keyId : String
  signer : String
  claims : DelegationClaims
  deriving DecidableEq, Repr

structure PeerCertificate where
  thumbprint : String
  notBefore : Int
  notAfter : Int
  deriving DecidableEq, Repr

/-- The number of bytes `base64.RawURLEncoding` decodes a text to. -/
def rawUrlDecodedLength (value : String) : Option Nat :=
  let symbols := value.toList.filter fun c => c ≠ '\r' ∧ c ≠ '\n'
  let known (c : Char) : Bool :=
    ('A' ≤ c && c ≤ 'Z') || ('a' ≤ c && c ≤ 'z') || ('0' ≤ c && c ≤ '9') || c = '-' || c = '_'
  if symbols.all known && symbols.length % 4 ≠ 1 then some (symbols.length * 6 / 8) else none

def validShape (claims : DelegationClaims) (operation : Capability) : Bool :=
  if operation = .eventsRead then
    claims.actor = none && claims.subject = claims.issuer && claims.mode = .worker
  else
    claims.actor.any fun actor =>
      claims.subject = actor.directoryText && actor.directoryId.isSome &&
        actor.signIn.issuer ≠ "" && actor.signIn.issuer.utf8ByteSize ≤ 512 &&
        actor.signIn.subject ≠ "" && actor.signIn.subject.utf8ByteSize ≤ 512

def validLifetime (issued notBefore expires certificateExpires : Int) : Bool :=
  issued < expires && expires ≤ issued + 60 * second && issued ≤ notBefore + 5 * second &&
    notBefore < expires && expires ≤ certificateExpires

def validDelegationClaims (primitives : Primitives) (serviceId : String) (key : DelegationKey)
    (claims : DelegationClaims) (now : Time) (operation : Capability)
    (certificateExpires : Int) : Option (Int × Int) :=
  match claims.issuedAt, claims.notBefore, claims.expiry with
  | some issued, some notBefore, some expires =>
      if validShape claims operation ∧ claims.audience = [key.audience] ∧
          claims.operation = operation ∧ key.operations.contains operation ∧
          validLifetime issued notBefore expires certificateExpires ∧
          primitives.validateWithLeeway serviceId key.audience notBefore expires issued now ∧
          ((rawUrlDecodedLength claims.id).any fun n => 16 ≤ n && n ≤ 64) ∧
          claims.namespaceIds ≠ [] ∧ claims.namespaceIds.length ≤ 320 ∧
          claims.namespaceIds.Nodup ∧
          ∀ id ∈ claims.namespaceIds, key.namespaceIds.contains id then
        some (issued, expires)
      else none
  | _, _, _ => none

/-- `Authenticate` up to the consumption of the assertion. `registered` is what the
registry returned for the issuer and key the token names. -/
def authenticate (primitives : Primitives) (now : Time) (registered : Option DelegationKey)
    (peer : PeerCertificate) (assertion : Assertion) (operation : Capability) :
    Except StoreError Principal := do
  let claims := assertion.claims
  ensure (delegationOperation operation ∧ assertion.keyId ≠ "" ∧
      assertion.keyId.utf8ByteSize ≤ 128 ∧ claims.issuer ≠ "" ∧ claims.issuer.utf8ByteSize ≤ 128)
    .unauthenticated
  let key ← need registered .unauthenticated
  ensure (key.enabled ∧ assertion.signer = key.publicKey) .unauthenticated
  ensure (operation = .eventsRead → claims.hasActorMember = false) .unauthenticated
  ensure (peer.notBefore ≤ now ∧ (now : Int) < peer.notAfter ∧
      claims.thumbprint = some peer.thumbprint ∧
      key.certificateThumbprints.contains peer.thumbprint)
    .unauthenticated
  let (issued, expires) ← need
    (validDelegationClaims primitives claims.issuer key claims now operation peer.notAfter)
    .unauthenticated
  pure
    { signIn := (claims.actor.map (·.signIn)).getD ⟨"", ""⟩
      delegation := some
        { serviceOnly := claims.actor.isNone
          audience := key.audience
          serviceId := claims.issuer
          keyId := assertion.keyId
          certificateThumbprint := peer.thumbprint
          directoryId := claims.actor.bind (·.directoryId)
          operation := claims.operation
          namespaceIds := claims.namespaceIds
          mode := claims.mode
          assertionId := claims.id
          issuedAt := issued
          expiresAt := expires } }

namespace Authority

def authorizeMonitoringService (db : Authority) (now : Time) (principal : Principal) :
    Except StoreError DelegatedActor := do
  let actor ← need principal.delegation .forbidden
  ensure (actor.serviceOnly ∧ actor.operation = .eventsRead ∧ actor.mode = .worker ∧
      actor.directoryId = none ∧ principal.signIn = ⟨"", ""⟩ ∧
      actor.namespaceIds ≠ [] ∧ actor.namespaceIds.length ≤ 320)
    .forbidden
  let key ← db.serviceKey actor
  ensure (actor.namespaceIds.Nodup ∧ ∀ id ∈ actor.namespaceIds, key.namespaceIds.contains id)
    .forbidden
  ensure (db.assertionCurrent now actor ∧ actor.issuedAt < actor.expiresAt ∧
      actor.expiresAt ≤ actor.issuedAt + 60 * second)
    .authorizationUnavailable
  ensure ((db.namespaces.count fun id _ => actor.namespaceIds.contains id) =
      actor.namespaceIds.length)
    .forbidden
  pure actor

/-- `INSERT INTO delegation_assertions … ON CONFLICT DO NOTHING`, which must insert. -/
def consumeAssertion (db : Authority) (now : Time) (principalId : Option Id)
    (actor : DelegatedActor) : Except StoreError Authority := do
  ensure (22 ≤ actor.assertionId.length ∧ actor.assertionId.length ≤ 86)
    (.constraint "delegation_assertions_assertion_id_check")
  let assertions ← need
    (db.assertions.insert? (actor.serviceId, actor.assertionId)
      ⟨actor.keyId, principalId, actor.operation, actor.issuedAt, actor.expiresAt, now⟩)
    .unauthenticated
  pure { db with assertions := assertions }

end Authority

def acceptDelegationAssertion (now : Time) (principal : Principal) :
    Tx StoreError Authority DelegatedActor := fun db =>
  if principal.delegation.any (·.serviceOnly) then do
    let actor ← db.authorizeMonitoringService now principal
    let db ← db.consumeAssertion now none actor
    pure (actor, db)
  else do
    let identity ← db.resolveDelegatedPrincipal now principal
    let actor ← need principal.delegation .forbidden
    let db ← db.consumeAssertion now (some identity.1) actor
    pure (actor, db)

/-- One presented assertion: authentication, then its consumption in a transaction.
The key was read from the registry before the transaction began. -/
def presentAssertion (primitives : Primitives) (now validatedAt : Time)
    (registered : Option DelegationKey) (peer : PeerCertificate) (assertion : Assertion)
    (operation : Capability) : Tx StoreError Authority DelegatedActor := fun db => do
  let principal ← authenticate primitives validatedAt registered peer assertion operation
  acceptDelegationAssertion now principal db

/-- `PruneDelegationAudits`, with the retention in whole seconds. -/
def pruneDelegationAudits (now : Time) (limit retention : Nat) : Tx StoreError Authority Nat :=
  fun db => do
    ensure (1 ≤ limit ∧ limit ≤ 10000 ∧ 90 * 86400 ≤ retention ∧ retention ≤ 3650 * 86400)
      (.invalid "delegation audit retention bounds are invalid")
    let expired := (orderBy (fun a b => a.2.acceptedAt ≤ b.2.acceptedAt)
      (db.assertions.select fun _ row =>
        row.acceptedAt + retention * second < now && row.expiresAt + 5 * second < (now : Int))).take
      limit
    pure (expired.length, { db with
      assertions := db.assertions.deleteWhere fun key _ => (expired.map Prod.fst).contains key })

structure KeyRegistration where
  serviceId : String
  keyId : String
  key : DelegationKey
  deriving DecidableEq, Repr

def validateDelegationKey (registration : KeyRegistration) : Bool :=
  let key := registration.key
  registration.serviceId ≠ "" && registration.serviceId.utf8ByteSize ≤ 128 &&
    registration.keyId ≠ "" && registration.keyId.utf8ByteSize ≤ 128 &&
    key.audience ≠ "" && key.audience.utf8ByteSize ≤ 512 &&
    key.certificateThumbprints ≠ [] && key.certificateThumbprints.length ≤ 8 &&
    key.namespaceIds ≠ [] && key.namespaceIds.length ≤ 320 &&
    key.operations ≠ [] && key.operations.length ≤ 8 &&
    (key.certificateThumbprints.all fun t => rawUrlDecodedLength t = some 32) &&
    key.operations.all delegationOperation

/-- One iteration of the registration loop; key material is never replaced. -/
def registerKey (db : Authority) (registration : KeyRegistration) :
    Except StoreError Authority := do
  let id := (registration.serviceId, registration.keyId)
  ensure ((db.serviceKeys.get? id).all fun existing =>
      existing.publicKey = registration.key.publicKey) .conflict
  pure { db with
    serviceKeys := db.serviceKeys.upsert id registration.key fun existing =>
      { registration.key with publicKey := existing.publicKey } }

def registerDelegationKeys (keys : List KeyRegistration) : Tx StoreError Authority Unit :=
  fun db => do
    ensure (keys.length ≤ 64) (.invalid "too many delegation service keys")
    ensure (∀ registration ∈ keys, validateDelegationKey registration)
      (.invalid "delegation service registration is invalid")
    ensure (keys.map fun registration => (registration.serviceId, registration.keyId)).Nodup
      (.invalid "duplicate delegation service key")
    let db : Authority :=
      { db with
        serviceKeys := db.serviceKeys.updateWhere (fun _ _ => true) fun _ key =>
          { key with enabled := false } }
    let db ← keys.foldlM registerKey db
    pure ((), db)

end JobmanControl
