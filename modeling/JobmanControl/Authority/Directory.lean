import JobmanControl.Authority.Grants

/-!
Directory authority. `configureDirectory` installs an approved mapping and
withdraws every earlier proof for its source; `applyDirectorySnapshot` checks a
complete observation of the directory against the mapping and replaces the
directory grants of the source's namespaces by the ones the observation implies.
The version triggers of bindings, accounts and managed namespaces are part of the
statements that fire them.
-/

namespace JobmanControl

open Relational

/-- `IdentityAliases`: the canonical sign-in and the approved aliases, each once. -/
def identityAliases (identity : DirectoryIdentity) : List SignIn :=
  (orderBy (fun a b => a.issuer < b.issuer || (a.issuer = b.issuer && a.subject ≤ b.subject))
    (identity.signIn :: identity.aliases)).eraseDups

def validAliasField (value : String) : Bool :=
  value ≠ "" && value.utf8ByteSize ≤ 512 && value.toList.all fun c => c ≠ '\x00'

def registerAlias (directoryId : Id) (known : List (SignIn × Id)) (signIn : SignIn) :
    Except StoreError (List (SignIn × Id)) := do
  ensure (validAliasField signIn.issuer ∧ validAliasField signIn.subject)
    (.invalid "directory alias is invalid")
  ensure (((known.find? fun entry => entry.1 = signIn).map Prod.snd).all fun id => id = directoryId)
    (.invalid "directory alias maps to multiple identities")
  pure ((signIn, directoryId) :: known)

def validateIdentities (accounts principals : List Id) (known : List (SignIn × Id)) :
    List DirectoryIdentity → Except StoreError Unit
  | [] => .ok ()
  | identity :: rest => do
      ensure (identity.directoryId ∉ accounts ∧ identity.principalId ∉ principals ∧
          identity.displayName.utf8ByteSize ≤ 512 ∧ identity.aliases.length ≤ 16)
        (.invalid "directory identities must have distinct directory and principal UUIDs")
      let known ← (identityAliases identity).foldlM (registerAlias identity.directoryId) known
      validateIdentities (identity.directoryId :: accounts) (identity.principalId :: principals)
        known rest

def validateMapping (mapping : DirectoryMapping) : Except StoreError Unit := do
  ensure (mapping.sourceId ≠ "" ∧ mapping.sourceId.utf8ByteSize ≤ 128 ∧ 1 ≤ mapping.revision ∧
      mapping.namespaces ≠ [] ∧ mapping.namespaces.length ≤ 320 ∧
      mapping.bindings.length ≤ 1280 ∧ mapping.identities.length ≤ 10000)
    (.invalid "directory mapping bounds are invalid")
  ensure mapping.namespaces.Nodup (.invalid "directory namespace IDs must be distinct UUIDs")
  ensure (∀ id ∈ mapping.approvedTransitions, id ∈ mapping.namespaces)
    (.invalid "directory transition approval is outside configured namespaces")
  ensure ((mapping.bindings.map (·.groupId)).Nodup ∧
      ∀ binding ∈ mapping.bindings, binding.namespaceId ∈ mapping.namespaces)
    (.invalid "directory group must map one-to-one to a configured namespace role")
  validateIdentities [] [] [] mapping.identities

namespace Authority

def isManagedBy (db : Authority) (sourceId : String) (namespaceId : Id) : Bool :=
  (db.managed.get? namespaceId).any fun state => state.sourceId = sourceId

def identityConflicts (db : Authority) (sourceId : String) (identity : DirectoryIdentity) : Bool :=
  (db.principals.any fun id row =>
    (id = identity.principalId && row.signIn ≠ identity.signIn) ||
      (row.signIn = identity.signIn && id ≠ identity.principalId)) ||
  db.accounts.any fun id row =>
    (id = identity.directoryId || row.principalId = identity.principalId) &&
      (id ≠ identity.directoryId || row.principalId ≠ identity.principalId ||
        row.sourceId.any fun owner => owner ≠ sourceId)

def aliasConflicts (db : Authority) (sourceId : String) (identity : DirectoryIdentity)
    (signIn : SignIn) : Bool :=
  ((db.aliases.get? signIn).any fun row =>
    row.directoryId ≠ identity.directoryId || row.principalId ≠ identity.principalId ||
      row.sourceId.any fun owner => owner ≠ sourceId) ||
  db.principals.any fun id row => row.signIn = signIn && id ≠ identity.principalId

def bindingConflicts (db : Authority) (sourceId : String) (groupId : Id) : Bool :=
  (db.bindings.get? groupId).any fun row =>
    (db.managed.get? row.namespaceId).any fun state => state.sourceId ≠ sourceId

/-- The checks of `planDirectory`, on which `configureDirectory` insists. -/
def planDirectory (db : Authority) (mapping : DirectoryMapping) : Except StoreError Unit := do
  mapping.namespaces.forM fun id => do
    ensure (db.namespaces.get? id).isSome .notFound
    ensure ((db.managed.get? id).all fun state => state.sourceId = mapping.sourceId) .conflict
  ensure (∀ identity ∈ mapping.identities,
      db.identityConflicts mapping.sourceId identity = false ∧
        ∀ signIn ∈ identityAliases identity,
          db.aliasConflicts mapping.sourceId identity signIn = false) .conflict
  ensure (∀ binding ∈ mapping.bindings,
      db.bindingConflicts mapping.sourceId binding.groupId = false) .conflict

/-- `INSERT INTO namespace_directory_state … ON CONFLICT DO UPDATE`; only an insertion
fires the trigger that renews the versions of the namespace. -/
def manageNamespace (db : Authority) (sourceId : String) (revision : Int) (namespaceId : Id) :
    Authority :=
  match db.managed.insert? namespaceId ⟨sourceId, revision, none, none, none⟩ with
  | some managed =>
      ({ db with managed := managed } : Authority).bumpVersionsWhere fun n _ => n = namespaceId
  | none =>
      { db with
        managed := db.managed.modify namespaceId fun row =>
          { row with configurationRevision := revision, lastVerifiedAt := none } }

def renewVersions (db : Authority) (conditions : List (Id → Id → Bool)) : Authority :=
  conditions.foldl bumpVersionsWhere db

/-- The condition of `bump_directory_binding_versions` for the old and new binding of a
group: the pair has an unrevoked grant from the group that one of them matches. -/
def bindingTouches (db : Authority) (groupId : Id) (rows : List BindingRow) (n p : Id) : Bool :=
  db.grants.any fun _ grant =>
    grant.namespaceId = n && grant.principalId = p && grant.contribution = .directory groupId &&
      grant.revokedAt = none &&
      rows.any fun row => row.namespaceId = grant.namespaceId && row.role = grant.role

def bindingChanged (old new : BindingRow) : Bool :=
  old.namespaceId ≠ new.namespaceId || old.role ≠ new.role || old.enabled ≠ new.enabled

/-- `UPDATE directory_role_bindings SET … WHERE …`, with the trigger for each row. -/
def updateBindings (db : Authority) (p : Id → BindingRow → Bool) (f : BindingRow → BindingRow) :
    Authority :=
  ({ db with bindings := db.bindings.updateWhere p fun _ => f } : Authority).renewVersions
    (((db.bindings.select p).filter fun entry => bindingChanged entry.2 (f entry.2)).map
      fun entry => db.bindingTouches entry.1 [entry.2, f entry.2])

/-- `INSERT INTO directory_role_bindings … ON CONFLICT (group_id) DO UPDATE`. -/
def upsertBinding (db : Authority) (binding : DirectoryBinding) : Authority :=
  let row : BindingRow := ⟨binding.namespaceId, binding.role, true, 1⟩
  match db.bindings.insert? binding.groupId row with
  | some bindings =>
      ({ db with bindings := bindings } : Authority).renewVersions
        [db.bindingTouches binding.groupId [row]]
  | none =>
      db.updateBindings (fun id _ => id = binding.groupId) fun old =>
        { row with revision := old.revision + 1 }

def accountTouches (db : Authority) (account : AccountRow) (n p : Id) : Bool :=
  p = account.principalId && (db.managed.get? n).isSome

/-- `UPDATE directory_accounts SET … WHERE …`, with the trigger for each row. -/
def updateAccounts (db : Authority) (p : Id → AccountRow → Bool) (f : AccountRow → AccountRow) :
    Authority :=
  ({ db with accounts := db.accounts.updateWhere p fun _ => f } : Authority).renewVersions
    (((db.accounts.select p).filter fun entry => entry.2.enabled ≠ (f entry.2).enabled).map
      fun entry => db.accountTouches (f entry.2))

/-- `INSERT INTO directory_accounts … ON CONFLICT (directory_id) DO UPDATE`. -/
def upsertAccount (db : Authority) (sourceId : String) (identity : DirectoryIdentity) :
    Except StoreError Authority :=
  match db.accounts.insert? identity.directoryId
    ⟨identity.principalId, false, none, some sourceId⟩ with
  | some accounts => do
      ensure (!db.accounts.any fun _ row => row.principalId = identity.principalId)
        (.constraint "directory_accounts_principal_id_key")
      pure { db with accounts := accounts }
  | none =>
      .ok (db.updateAccounts (fun id _ => id = identity.directoryId) fun row =>
        { row with sourceId := some sourceId, enabled := false, lastVerifiedAt := none })

/-- `INSERT INTO directory_sources … ON CONFLICT DO UPDATE`. -/
def installMapping (db : Authority) (digest : DirectoryMapping → String) (now : Time)
    (mapping : DirectoryMapping) : Authority :=
  { db with
    sources := db.sources.upsert mapping.sourceId
      ⟨mapping.revision, digest mapping, mapping, now, none, none, none, 0⟩ fun row =>
      { row with
        revision := mapping.revision
        configurationDigest := digest mapping
        mapping := mapping
        configuredAt := now
        lastVerifiedAt := none } }

def withdrawNamespaces (db : Authority) (sourceId : String) (revision : Int) : Authority :=
  { db with
    managed := db.managed.updateWhere (fun _ row => row.sourceId = sourceId) fun _ row =>
      { row with lastVerifiedAt := none, configurationRevision := revision } }

def withdrawBindings (db : Authority) (sourceId : String) : Authority :=
  db.updateBindings (fun _ row => db.isManagedBy sourceId row.namespaceId)
    fun row => { row with enabled := false, revision := row.revision + 1 }

/-- `UPDATE directory_accounts SET enabled = false …` for the accounts of a source. -/
def withdrawAccounts (db : Authority) (sourceId : String) : Authority :=
  db.updateAccounts (fun _ row => row.sourceId = some sourceId) fun row =>
    { row with enabled := false, lastVerifiedAt := none }

def installIdentity (sourceId : String) (db : Authority) (identity : DirectoryIdentity) :
    Except StoreError Authority := do
  let db ← db.insertPrincipal identity.principalId identity.signIn identity.displayName
  db.upsertAccount sourceId identity

/-- `DELETE FROM principal_aliases` for the aliases of a source and of its accounts. -/
def removeAliases (db : Authority) (sourceId : String) : Authority :=
  { db with
    aliases := db.aliases.deleteWhere fun _ row =>
      row.sourceId = some sourceId ||
        (db.accounts.get? row.directoryId).any fun account => account.sourceId = some sourceId }

end Authority

def configureDirectory (digest : DirectoryMapping → String) (now : Time)
    (mapping : DirectoryMapping) : Tx StoreError Authority Unit := fun db => do
  validateMapping mapping
  db.planDirectory mapping
  let current := db.sources.get? mapping.sourceId
  ensure (current.all fun row => row.revision < mapping.revision ∨
      (row.revision = mapping.revision ∧ row.configurationDigest = digest mapping)) .conflict
  if current.any fun row => row.revision = mapping.revision then pure ((), db)
  else
    ensure (∀ id ∈ mapping.namespaces,
        (db.managed.get? id).isSome ∨ id ∈ mapping.approvedTransitions)
      (.invalid "new managed namespace requires explicit transition approval")
    let db := db.installMapping digest now mapping
    let db := mapping.namespaces.foldl
      (fun db id => db.manageNamespace mapping.sourceId mapping.revision id) db
    let db := db.withdrawNamespaces mapping.sourceId mapping.revision
    let db := db.withdrawBindings mapping.sourceId
    let db := db.withdrawAccounts mapping.sourceId
    let db := mapping.bindings.foldl Authority.upsertBinding db
    let db ← mapping.identities.foldlM (Authority.installIdentity mapping.sourceId) db
    pure ((), db.removeAliases mapping.sourceId)

def validateGroups (mapping : DirectoryMapping) (seen : List Id) :
    List GroupObservation → Except StoreError Unit
  | [] => .ok ()
  | group :: rest => do
      ensure (group.groupId ∈ mapping.bindings.map (·.groupId) ∧ group.groupId ∉ seen ∧
          (group.present ∨ group.directoryIds = []))
        (.invalid "directory group snapshot is invalid")
      ensure ((∀ id ∈ group.directoryIds, id ∈ mapping.identities.map (·.directoryId)) ∧
          group.directoryIds.Nodup)
        (.invalid "directory group contains an unresolved or duplicate identity")
      validateGroups mapping (group.groupId :: seen) rest

def validateDirectorySnapshot (mapping : DirectoryMapping) (snapshot : DirectorySnapshot) :
    Except StoreError Unit := do
  ensure (snapshot.accounts.length = mapping.identities.length ∧
      snapshot.groups.length = mapping.bindings.length ∧
      0 ≤ snapshot.ignoredDirectMembers ∧ snapshot.ignoredDirectMembers ≤ 100000)
    (.invalid "directory snapshot is incomplete")
  ensure ((∀ account ∈ snapshot.accounts,
      account.directoryId ∈ mapping.identities.map (·.directoryId) ∧
        (account.present ∨ ¬account.enabled)) ∧
      (snapshot.accounts.map (·.directoryId)).Nodup)
    (.invalid "directory account snapshot is invalid")
  validateGroups mapping [] snapshot.groups
  ensure (snapshot.groups.foldl (fun total group => total + group.directoryIds.length) 0 ≤ 100000)
    (.invalid "directory snapshot exceeds membership bound")

/-- `account.Exists && account.Enabled` for the observation of an account. -/
def DirectorySnapshot.eligible (snapshot : DirectorySnapshot) (directoryId : Id) : Bool :=
  (snapshot.accounts.find? fun account => account.directoryId = directoryId).any fun account =>
    account.present && account.enabled

def DirectorySnapshot.observes (snapshot : DirectorySnapshot) (directoryId : Id) : Bool :=
  (snapshot.accounts.find? fun account => account.directoryId = directoryId).any (·.present)

structure DesiredGrant where
  namespaceId : Id
  principalId : Id
  role : Role
  groupId : Id
  deriving DecidableEq, Repr

/-- The rows of `desired_directory_grants`. Every lookup in the mapping succeeds for a
snapshot that passed its validation. -/
def desiredGrants (mapping : DirectoryMapping) (snapshot : DirectorySnapshot) :
    List DesiredGrant :=
  snapshot.groups.flatMap fun group =>
    (mapping.bindings.find? fun binding => binding.groupId = group.groupId).toList.flatMap
      fun binding =>
        (group.directoryIds.filter snapshot.eligible).filterMap fun directoryId =>
          (mapping.identities.find? fun identity => identity.directoryId = directoryId).map
            fun identity =>
              ⟨binding.namespaceId, identity.principalId, binding.role, binding.groupId⟩

namespace Authority

/-- `INSERT INTO principal_aliases … ON CONFLICT DO NOTHING`, with its trigger. -/
def insertAlias (sourceId : String) (identity : DirectoryIdentity) (db : Authority)
    (signIn : SignIn) : Except StoreError Authority := do
  ensure (!db.principals.any fun id row => row.signIn = signIn && id ≠ identity.principalId)
    (.constraint "directory alias conflicts with a principal")
  match db.aliases.insert? signIn ⟨identity.directoryId, identity.principalId, some sourceId⟩ with
  | some aliases => pure { db with aliases := aliases }
  | none => pure db

def verifyIdentity (sourceId : String) (snapshot : DirectorySnapshot) (db : Authority)
    (identity : DirectoryIdentity) : Except StoreError Authority := do
  let _ ← need (db.accounts.get? identity.directoryId) (.invalid "directory account is missing")
  let db := db.updateAccounts
    (fun id row => id = identity.directoryId && row.sourceId = some sourceId)
    fun row =>
      { row with
        enabled := snapshot.eligible identity.directoryId
        lastVerifiedAt := some snapshot.verifiedAt }
  if snapshot.observes identity.directoryId then
    (identityAliases identity).foldlM (insertAlias sourceId identity) db
  else pure db

/-- The revocation statement: directory grants of the source's namespaces that are not desired. -/
def revokeUndesired (db : Authority) (now : Time) (sourceId : String)
    (desired : List DesiredGrant) : Authority :=
  db.updateGrants
    (fun _ grant =>
      match grant.contribution with
      | .directory groupId =>
          grant.revokedAt = none && db.isManagedBy sourceId grant.namespaceId &&
            !desired.contains ⟨grant.namespaceId, grant.principalId, grant.role, groupId⟩
      | .legacy | .manual _ => false)
    fun grant => { grant with revokedAt := some now, updatedAt := now }

/-- The grant statement for one desired row; a grant that already is as desired is left alone. -/
def grantDesired (now : Time) (grantId : DesiredGrant → Id) (db : Authority)
    (desired : DesiredGrant) : Except StoreError Authority :=
  db.upsertGrant (grantId desired)
    ⟨desired.namespaceId, desired.principalId, desired.role, .directory desired.groupId, now, now,
      none⟩
    fun grant =>
      if grant.revokedAt ≠ none ∨ grant.role ≠ desired.role then
        { grant with role := desired.role, revokedAt := none, updatedAt := now }
      else grant

def recordVerification (db : Authority) (now : Time) (sourceId : String)
    (snapshot : DirectorySnapshot) : Authority :=
  { db with
    managed := db.managed.updateWhere (fun _ row => row.sourceId = sourceId) fun _ row =>
      { row with
        lastVerifiedAt := some snapshot.verifiedAt
        lastAttemptAt := some now
        lastErrorCode := none }
    sources := db.sources.modify sourceId fun row =>
      { row with
        lastVerifiedAt := some snapshot.verifiedAt
        lastAttemptAt := some now
        lastErrorCode := none
        ignoredDirectMembers := snapshot.ignoredDirectMembers } }

end Authority

def applyDirectorySnapshot (now : Time) (grantId : DesiredGrant → Id)
    (snapshot : DirectorySnapshot) : Tx StoreError Authority Unit := fun db => do
  let source ← need (db.sources.get? snapshot.sourceId) (.invalid "directory source is missing")
  let mapping := source.mapping
  ensure (source.revision = snapshot.revision ∧ source.configurationDigest = snapshot.digest ∧
      db.epoch.restoreEpoch = snapshot.recoveryEpoch ∧
      snapshot.verifiedAt ≤ now + 5 * second ∧ now < snapshot.verifiedAt + 30 * second)
    .conflict
  ensure (source.lastVerifiedAt.all fun previous => previous < snapshot.verifiedAt) .conflict
  validateDirectorySnapshot mapping snapshot
  let db ← mapping.identities.foldlM (Authority.verifyIdentity mapping.sourceId snapshot) db
  let desired := desiredGrants mapping snapshot
  ensure (desired.map fun d => (d.namespaceId, d.principalId, d.groupId)).Nodup
    (.constraint "desired_directory_grants_pkey")
  let db := db.revokeUndesired now mapping.sourceId desired
  let db ← desired.foldlM (Authority.grantDesired now grantId) db
  pure ((), db.recordVerification now mapping.sourceId snapshot)

def recordDirectoryFailure (now : Time) (sourceId : String) (revision : Int) (db : Authority) :
    Authority :=
  if (db.sources.get? sourceId).any fun row => row.revision = revision then
    { db with
      sources := db.sources.modify sourceId fun row =>
        { row with lastAttemptAt := some now, lastErrorCode := some "verification_failed" }
      managed := db.managed.updateWhere (fun _ row => row.sourceId = sourceId) fun _ row =>
        { row with lastAttemptAt := some now, lastErrorCode := some "verification_failed" } }
  else db

/-- `UPDATE service_recovery_state SET restore_epoch = restore_epoch + 1`, with its trigger. -/
def advanceEpoch (now : Time) (db : Authority) : Authority :=
  { db with
    epoch := ⟨db.epoch.restoreEpoch + 1, now + 5 * second⟩
    accounts := db.accounts.updateWhere (fun _ _ => true) fun _ row =>
      { row with lastVerifiedAt := none }
    managed := db.managed.updateWhere (fun _ _ => true) fun _ row =>
      { row with
        lastVerifiedAt := none
        lastErrorCode := some "restore_reverification_required" } }

end JobmanControl
