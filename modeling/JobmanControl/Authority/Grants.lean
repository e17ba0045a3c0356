import JobmanControl.Authority.Decision

/-!
The statements that write principals and grants, with their triggers, and the
operations of namespace administrators. Every change of a grant's role or
revocation gives its pair of namespace and principal a new version; a membership
is mirrored by a legacy grant; a principal may not take the identity of another
principal's alias.
-/

namespace JobmanControl

open Relational

structure MembershipGrant where
  signIn : SignIn
  displayName : String
  role : Role
  deriving DecidableEq, Repr

def validateMembershipGrant (value : MembershipGrant) : Except StoreError Unit := do
  let items := [value.signIn.issuer, value.signIn.subject, value.displayName]
  ensure (∀ item ∈ items, item ≠ "") (.invalid "membership identity and role are invalid")
  ensure (∀ item ∈ items, item.utf8ByteSize ≤ 512 ∧ item.toList.all fun c => c ≠ '\x00')
    (.invalid "membership identity field is invalid")

namespace Authority

def bumpVersion (db : Authority) (namespaceId principalId : Id) : Authority :=
  { db with versions := db.versions.upsert (namespaceId, principalId) 1 (· + 1) }

/-- `UPDATE authorization_versions SET revision = revision + 1 WHERE …`. -/
def bumpVersionsWhere (db : Authority) (p : Id → Id → Bool) : Authority :=
  { db with versions := db.versions.updateWhere (fun k _ => p k.1 k.2) fun _ n => n + 1 }

def grantFor (db : Authority) (namespaceId principalId : Id) (contribution : Contribution) :
    Option Id :=
  ((db.grants.select fun _ grant =>
    grant.namespaceId = namespaceId && grant.principalId = principalId &&
      grant.contribution = contribution).head?).map Prod.fst

def insertGrant (db : Authority) (id : Id) (row : GrantRow) : Except StoreError Authority := do
  ensure (db.grantFor row.namespaceId row.principalId row.contribution = none)
    (.constraint "membership_grants_source_key")
  let grants ← need (db.grants.insert? id row) (.constraint "membership_grants_pkey")
  pure (({ db with grants := grants } : Authority).bumpVersion row.namespaceId row.principalId)

def grantChanged (old new : GrantRow) : Bool :=
  old.role ≠ new.role || old.revokedAt ≠ new.revokedAt

/-- `UPDATE membership_grants SET … WHERE …`, with the trigger for each row. -/
def updateGrants (db : Authority) (p : Id → GrantRow → Bool) (f : GrantRow → GrantRow) :
    Authority :=
  ((db.grants.select p).filter fun entry => grantChanged entry.2 (f entry.2)).foldl
    (fun db entry => db.bumpVersion entry.2.namespaceId entry.2.principalId)
    { db with grants := db.grants.updateWhere p fun _ => f }

/-- `INSERT INTO membership_grants … ON CONFLICT (…, source_key) DO UPDATE`. -/
def upsertGrant (db : Authority) (id : Id) (row : GrantRow) (f : GrantRow → GrantRow) :
    Except StoreError Authority :=
  match db.grantFor row.namespaceId row.principalId row.contribution with
  | none => db.insertGrant id row
  | some existing => .ok (db.updateGrants (fun id _ => id = existing) f)

/-- The alias trigger on an inserted principal: an alias of the same identity is in
the way unless it belongs to this principal or to one that already has the identity. -/
def admitsPrincipal (db : Authority) (id : Id) (signIn : SignIn) : Bool :=
  (db.aliases.get? signIn).all fun row =>
    row.principalId = id ||
      (db.principals.get? row.principalId).any fun principal => principal.signIn = signIn

def admitsDisplayName (displayName : String) : Bool :=
  1 ≤ displayName.length && displayName.length ≤ 512

/-- `INSERT INTO principals … ON CONFLICT (id) DO NOTHING`. -/
def insertPrincipal (db : Authority) (id : Id) (signIn : SignIn) (displayName : String) :
    Except StoreError Authority := do
  ensure (db.admitsPrincipal id signIn) (.constraint "principal conflicts with a directory alias")
  ensure (admitsDisplayName displayName) (.constraint "principals_display_name_length")
  match db.principals.insert? id ⟨signIn, displayName⟩ with
  | none => pure db
  | some principals =>
      ensure (db.principalOf signIn = none) (.constraint "principals_identity_unique")
      pure { db with principals := principals }

/-- `INSERT INTO principals … ON CONFLICT (issuer, subject) DO UPDATE SET display_name`. -/
def upsertPrincipal (db : Authority) (candidateId : Id) (signIn : SignIn) (displayName : String) :
    Except StoreError (Id × Authority) := do
  ensure (db.admitsPrincipal candidateId signIn)
    (.constraint "principal conflicts with a directory alias")
  match db.principalOf signIn with
  | some existing =>
      ensure ((db.aliases.get? signIn).all fun row => row.principalId = existing.1)
        (.constraint "principal conflicts with a directory alias")
      pure (existing.1, { db with
        principals := db.principals.modify existing.1 fun row =>
          { row with displayName := displayName } })
  | none =>
      let principals ← need (db.principals.insert? candidateId ⟨signIn, displayName⟩)
        (.constraint "principals_pkey")
      pure (candidateId, { db with principals := principals })

def upsertMembership (db : Authority) (now : Time) (legacyId : Id → Id → Id)
    (namespaceId principalId : Id) (role : Role) : Except StoreError Authority :=
  let memberships := db.memberships.upsert (namespaceId, principalId) ⟨role, now, now⟩ fun row =>
    { row with role := role, updatedAt := now }
  let createdAt := ((db.memberships.get? (namespaceId, principalId)).map (·.createdAt)).getD now
  ({ db with memberships := memberships } : Authority).upsertGrant
    (legacyId namespaceId principalId)
    ⟨namespaceId, principalId, role, .legacy, createdAt, now, none⟩
    fun grant => { grant with role := role, revokedAt := none, updatedAt := now }

end Authority

/-- `PutMembership` as far as it concerns authority: `reservation` is what
`reserveIdempotency` answered, the principal of an earlier call when it is a replay. -/
def putMembership (now : Time) (legacyId : Id → Id → Id) (actor : Principal) (name : String)
    (reservation : Except StoreError (Option Id)) (candidateId : Id) (grant : MembershipGrant) :
    Tx StoreError Authority Id := fun db => do
  validateMembershipGrant grant
  let authorization ← db.authorizeNamespace now actor name [.membershipsManage]
  let replayed ← reservation
  match replayed with
  | some principalId => pure (principalId, db)
  | none =>
      let (principalId, db) ← db.upsertPrincipal candidateId grant.signIn grant.displayName
      let db ← db.upsertMembership now legacyId authorization.namespaceId principalId grant.role
      pure (principalId, db)

def getContributingGrant (db : Authority) (namespaceId grantId : Id) : Option GrantRow :=
  (db.grants.get? grantId).filter fun grant => grant.namespaceId = namespaceId

def putMembershipGrant (now : Time) (actor : Principal) (name : String) (grantId candidateId : Id)
    (grant : MembershipGrant) : Tx StoreError Authority GrantRow := fun db => do
  validateMembershipGrant grant
  let authorization ← db.authorizeNamespace now actor name [.membershipsManage]
  match getContributingGrant db authorization.namespaceId grantId with
  | some existing =>
      let principal ← need (db.principals.get? existing.principalId) .notFound
      ensure (existing.contribution = .manual grantId ∧ principal.signIn = grant.signIn ∧
          existing.role = grant.role ∧ existing.revokedAt = none)
        .conflict
      pure (existing, db)
  | none =>
      let (principalId, db) ← db.upsertPrincipal candidateId grant.signIn grant.displayName
      ensure (db.grants.get? grantId = none) .conflict
      let row : GrantRow :=
        ⟨authorization.namespaceId, principalId, grant.role, .manual grantId, now, now, none⟩
      let db ← db.insertGrant grantId row
      pure (row, db)

def revokeMembershipGrant (now : Time) (actor : Principal) (name : String) (grantId : Id) :
    Tx StoreError Authority GrantRow := fun db => do
  let authorization ← db.authorizeNamespace now actor name [.membershipsManage]
  let grant ← need (getContributingGrant db authorization.namespaceId grantId) .notFound
  ensure (grant.contribution = .manual grantId) .conflict
  if grant.revokedAt ≠ none then pure (grant, db)
  else
    let revoke (row : GrantRow) : GrantRow := { row with revokedAt := some now, updatedAt := now }
    pure (revoke grant, db.updateGrants (fun id _ => id = grantId) revoke)

end JobmanControl
