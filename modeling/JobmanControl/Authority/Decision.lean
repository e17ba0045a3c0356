import JobmanControl.Authority.Schema

/-!
The authorization decision. The view `authorized_memberships` yields the roles a
principal's unrevoked grants contribute to a namespace; in a managed namespace a
grant contributes only if it comes from a group that is bound there and the
principal's directory account is enabled. `authorizeNamespace` resolves the
caller to a principal, reads the view and, for a managed namespace, insists on a
fresh verification of both the namespace and the account.
-/

namespace JobmanControl

open Relational

def second : Time := 1000000

/-- The capabilities a role confers, in the order they are reported. -/
def Role.capabilities (role : Role) : List Capability :=
  let submits := role = .submitter ∨ role = .operator ∨ role = .namespaceAdmin
  let operates := role = .operator ∨ role = .namespaceAdmin
  [.artifactsRead, .diagnosisRequest, .evidenceRead, .groupsRead, .jobsCancelOwn, .jobsRead,
    .logsRead, .namespaceRead, .policyRead, .reportsRead, .targetsRead] ++
  (if submits then [.jobsSubmit, .enrollmentCreateOwn] else []) ++
  (if operates then [.jobsCancelAny, .targetsOperate, .auditRead] else []) ++
  (if role = .namespaceAdmin then
    [.enrollmentCreateAny, .targetsManage, .membershipsManage, .policyManage] else [])

/-- The union over known roles, as a set: its order is not read anywhere. -/
def effectiveCapabilities (roles : List Role) : List Capability :=
  (roles.flatMap Role.capabilities).eraseDups

/-- What an authenticated service assertion says about its bearer. -/
structure DelegatedActor where
  serviceOnly : Bool
  audience : String
  serviceId : String
  keyId : String
  certificateThumbprint : String
  directoryId : Option Id
  operation : Capability
  namespaceIds : List Id
  mode : DelegationMode
  assertionId : String
  issuedAt : Int
  expiresAt : Int
  deriving DecidableEq, Repr

structure Principal where
  signIn : SignIn
  delegation : Option DelegatedActor
  deriving DecidableEq, Repr

structure NamespaceAuthorization where
  principalId : Id
  namespaceId : Id
  capabilities : List Capability
  canonical : Principal
  deriving DecidableEq, Repr

def NamespaceAuthorization.permits (authorization : NamespaceAuthorization)
    (capability : Capability) : Bool :=
  authorization.capabilities.contains capability

/-- The reads a service may make in a user's name. -/
def delegationReadOperation (operation : Capability) : Bool :=
  [.namespaceRead, .jobsRead, .groupsRead, .targetsRead, .logsRead, .artifactsRead,
    .evidenceRead].contains operation

def delegationOperation (operation : Capability) : Bool :=
  delegationReadOperation operation || operation = .eventsRead

/-- `at > now - 120 s AND at <= now + 5 s`, false for a missing time. -/
def verifiedRecently (now : Time) (verified : Option Time) : Bool :=
  match verified with
  | some v => now < v + 120 * second && v ≤ now + 5 * second
  | none => false

namespace Authority

def principalOf (db : Authority) (signIn : SignIn) : Option (Id × PrincipalRow) :=
  (db.principals.select fun _ principal => principal.signIn = signIn).head?

def namespaceNamed (db : Authority) (name : String) : Option Id :=
  ((db.namespaces.select fun _ n => n = name).head?).map Prod.fst

def accountOf (db : Authority) (principalId : Id) : Option (Id × AccountRow) :=
  (db.accounts.select fun _ account => account.principalId = principalId).head?

/-- The `WHERE` clause of `authorized_memberships`. -/
def contributes (db : Authority) (grant : GrantRow) : Bool :=
  grant.revokedAt = none &&
    match db.managed.get? grant.namespaceId with
    | none => true
    | some _ =>
        match grant.contribution with
        | .directory groupId =>
            (db.accounts.any fun _ account =>
              account.principalId = grant.principalId && account.enabled) &&
            match db.bindings.get? groupId with
            | some binding =>
                binding.namespaceId = grant.namespaceId && binding.role = grant.role &&
                  binding.enabled
            | none => false
        | .legacy | .manual _ => false

/-- The roles `authorized_memberships` yields for a pair, distinct and in order. -/
def authorizedRoles (db : Authority) (namespaceId principalId : Id) : List Role :=
  [.namespaceAdmin, .operator, .submitter, .viewer].filter fun role =>
    db.grants.any fun _ grant =>
      grant.namespaceId = namespaceId && grant.principalId = principalId && grant.role = role &&
        db.contributes grant

theorem contributes_iff (db : Authority) (grant : GrantRow) :
    db.contributes grant = true ↔ grant.revokedAt = none ∧
      (db.managed.get? grant.namespaceId = none ∨
        ∃ groupId binding, grant.contribution = .directory groupId ∧
          (db.accounts.any fun _ account =>
            account.principalId = grant.principalId && account.enabled) = true ∧
          db.bindings.get? groupId = some binding ∧ binding.namespaceId = grant.namespaceId ∧
          binding.role = grant.role ∧ binding.enabled = true) := by
  unfold contributes
  rw [Bool.and_eq_true, decide_eq_true_eq]
  refine and_congr_right fun _ => ?_
  cases db.managed.get? grant.namespaceId with
  | none => simp
  | some state =>
      cases grant.contribution with
      | legacy => simp
      | manual key => simp
      | directory groupId =>
          cases hbinding : db.bindings.get? groupId with
          | none => simp [hbinding]
          | some binding => simp [hbinding, and_assoc]

theorem mem_authorizedRoles (db : Authority) (n p : Id) (role : Role) :
    role ∈ db.authorizedRoles n p ↔ ∃ id grant, db.grants.get? id = some grant ∧
      grant.namespaceId = n ∧ grant.principalId = p ∧ grant.role = role ∧
      db.contributes grant = true := by
  have hall : role ∈ [Role.namespaceAdmin, .operator, .submitter, .viewer] := by
    cases role <;> decide
  simp only [authorizedRoles, List.mem_filter, hall, true_and, Table.any_eq_true_iff,
    Bool.and_eq_true, decide_eq_true_eq, and_assoc]

theorem authorizedRoles_congr {db db' : Authority} {n p : Id}
    (h : ∀ role, role ∈ db'.authorizedRoles n p ↔ role ∈ db.authorizedRoles n p) :
    db'.authorizedRoles n p = db.authorizedRoles n p := by
  refine List.filter_congr fun role hall => ?_
  have hrole := h role
  simp only [authorizedRoles, List.mem_filter, hall, true_and] at hrole
  exact Bool.eq_iff_iff.mpr hrole

/-- The checks both assertion paths make on the registered key. -/
def serviceKey (db : Authority) (actor : DelegatedActor) : Except StoreError DelegationKey := do
  let key ← need (db.serviceKeys.get? (actor.serviceId, actor.keyId)) .forbidden
  ensure (key.enabled ∧ actor.audience = key.audience ∧
      key.certificateThumbprints.contains actor.certificateThumbprint ∧
      key.operations.contains actor.operation)
    .forbidden
  pure key

/-- `issued_at <= now + 5 s AND expires_at > now - 5 s AND issued_at > floor`. -/
def assertionCurrent (db : Authority) (now : Time) (actor : DelegatedActor) : Bool :=
  actor.issuedAt ≤ now + 5 * second && (now : Int) < actor.expiresAt + 5 * second &&
    (db.epoch.delegationIssuedAfter : Int) < actor.issuedAt

def resolveDelegatedPrincipal (db : Authority) (now : Time) (principal : Principal) :
    Except StoreError (Id × Principal) := do
  let actor ← need principal.delegation .forbidden
  let directoryId ← need actor.directoryId .forbidden
  ensure (actor.serviceOnly = false ∧ delegationReadOperation actor.operation ∧
      actor.namespaceIds ≠ [] ∧ actor.namespaceIds.length ≤ 320)
    .forbidden
  let key ← db.serviceKey actor
  ensure (actor.namespaceIds.all fun id => key.namespaceIds.contains id) .forbidden
  let approved ← need (db.aliases.get? principal.signIn) .forbidden
  ensure (approved.directoryId = directoryId) .forbidden
  let account ← need (db.accounts.get? directoryId) .forbidden
  ensure (account.principalId = approved.principalId) .forbidden
  let canonical ← need (db.principals.get? account.principalId) .forbidden
  ensure (db.assertionCurrent now actor) .authorizationUnavailable
  ensure account.enabled .forbidden
  ensure (verifiedRecently now account.lastVerifiedAt) .authorizationUnavailable
  pure (account.principalId, ⟨canonical.signIn, some actor⟩)

def resolveAlias (db : Authority) (signIn : SignIn) : SignIn :=
  match db.aliases.get? signIn with
  | some approved =>
      match db.principals.get? approved.principalId with
      | some canonical => canonical.signIn
      | none => signIn
  | none => signIn

def resolveCaller (db : Authority) (now : Time) (principal : Principal)
    (capabilities : List Capability) : Except StoreError Principal :=
  match principal.delegation with
  | some actor => do
      ensure (capabilities = [actor.operation] ∧ delegationReadOperation actor.operation) .forbidden
      let identity ← db.resolveDelegatedPrincipal now principal
      pure identity.2
  | none => .ok ⟨db.resolveAlias principal.signIn, none⟩

def authorizeNamespace (db : Authority) (now : Time) (principal : Principal) (name : String)
    (capabilities : List Capability) : Except StoreError NamespaceAuthorization := do
  let caller ← db.resolveCaller now principal capabilities
  let row ← need (db.principalOf caller.signIn) .forbidden
  let namespaceId ← need (db.namespaceNamed name) .forbidden
  let roles := db.authorizedRoles namespaceId row.1
  ensure (roles ≠ []) .forbidden
  let managed := db.managed.get? namespaceId
  ensure (caller.delegation.all fun actor =>
      managed.isSome && actor.namespaceIds.contains namespaceId) .forbidden
  ensure (managed.all fun state =>
      verifiedRecently now state.lastVerifiedAt &&
        (db.accountOf row.1).any fun account =>
          verifiedRecently now account.2.lastVerifiedAt && account.2.enabled)
    .authorizationUnavailable
  ensure (managed.isSome → .membershipsManage ∉ capabilities) .forbidden
  ensure (∀ capability ∈ capabilities, capability ∈ effectiveCapabilities roles) .forbidden
  pure ⟨row.1, namespaceId, effectiveCapabilities roles, caller⟩

end Authority

end JobmanControl
