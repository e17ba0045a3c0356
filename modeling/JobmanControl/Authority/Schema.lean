import JobmanControl.Store.Statement

/-!
The tables authority is decided from: principals with their directory accounts
and aliases, role grants, the directory configuration and what was last verified
against it, the versions that fence cached decisions, and the registered
delegation services with the ledger of assertions they have used. A grant's
provenance and source key are one `Contribution`, so a manual grant is always
keyed by itself and a directory grant by its group.
-/

namespace JobmanControl

open Relational (Table)

inductive Role
  | namespaceAdmin | operator | submitter | viewer
  deriving DecidableEq, Repr

/-- The operations a role can confer, and the one only a service can hold. -/
inductive Capability
  | artifactsRead | auditRead | diagnosisRequest | enrollmentCreateAny | enrollmentCreateOwn
  | eventsRead | evidenceRead | groupsRead | jobsCancelAny | jobsCancelOwn | jobsRead | jobsSubmit
  | logsRead | membershipsManage | namespaceRead | policyManage | policyRead | reportsRead
  | targetsManage | targetsOperate | targetsRead
  deriving DecidableEq, Repr

/-- An issuer and a subject there, as a caller signs in with them. -/
structure SignIn where
  issuer : String
  subject : String
  deriving DecidableEq, Repr

structure PrincipalRow where
  signIn : SignIn
  displayName : String
  deriving DecidableEq, Repr

/-- The `provenance` and `source_key` columns of a grant. -/
inductive Contribution
  | legacy
  | manual (grantId : Id)
  | directory (groupId : Id)
  deriving DecidableEq, Repr

structure GrantRow where
  namespaceId : Id
  principalId : Id
  role : Role
  contribution : Contribution
  createdAt : Time
  updatedAt : Time
  revokedAt : Option Time
  deriving DecidableEq, Repr

structure MembershipRow where
  role : Role
  createdAt : Time
  updatedAt : Time
  deriving DecidableEq, Repr

structure DirectoryBinding where
  groupId : Id
  namespaceId : Id
  role : Role
  deriving DecidableEq, Repr

structure DirectoryIdentity where
  directoryId : Id
  principalId : Id
  signIn : SignIn
  displayName : String
  aliases : List SignIn
  deriving DecidableEq, Repr

structure DirectoryMapping where
  sourceId : String
  revision : Int
  namespaces : List Id
  approvedTransitions : List Id
  bindings : List DirectoryBinding
  identities : List DirectoryIdentity
  deriving DecidableEq, Repr

structure AccountObservation where
  directoryId : Id
  present : Bool
  enabled : Bool
  deriving DecidableEq, Repr

structure GroupObservation where
  groupId : Id
  present : Bool
  directoryIds : List Id
  deriving DecidableEq, Repr

structure DirectorySnapshot where
  sourceId : String
  revision : Int
  digest : String
  recoveryEpoch : Nat
  verifiedAt : Time
  accounts : List AccountObservation
  groups : List GroupObservation
  ignoredDirectMembers : Int
  deriving DecidableEq, Repr

structure SourceRow where
  revision : Int
  configurationDigest : String
  mapping : DirectoryMapping
  configuredAt : Time
  lastVerifiedAt : Option Time
  lastAttemptAt : Option Time
  lastErrorCode : Option String
  ignoredDirectMembers : Int
  deriving DecidableEq, Repr

/-- The row that makes a namespace a managed one. -/
structure ManagedRow where
  sourceId : String
  configurationRevision : Int
  lastVerifiedAt : Option Time
  lastAttemptAt : Option Time
  lastErrorCode : Option String
  deriving DecidableEq, Repr

structure AccountRow where
  principalId : Id
  enabled : Bool
  lastVerifiedAt : Option Time
  sourceId : Option String
  deriving DecidableEq, Repr

structure AliasRow where
  directoryId : Id
  principalId : Id
  sourceId : Option String
  deriving DecidableEq, Repr

structure BindingRow where
  namespaceId : Id
  role : Role
  enabled : Bool
  revision : Nat
  deriving DecidableEq, Repr

structure DelegationKey where
  audience : String
  publicKey : String
  certificateThumbprints : List String
  namespaceIds : List Id
  operations : List Capability
  enabled : Bool
  deriving DecidableEq, Repr

inductive DelegationMode
  | interactive | worker
  deriving DecidableEq, Repr

/-- One consumed assertion, under its service and assertion ID. -/
structure AssertionRow where
  keyId : String
  principalId : Option Id
  operation : Capability
  issuedAt : Int
  expiresAt : Int
  acceptedAt : Time
  deriving DecidableEq, Repr

/-- The recovery row, as far as authority reads it. -/
structure EpochRow where
  restoreEpoch : Nat
  delegationIssuedAfter : Time
  deriving DecidableEq, Repr

/-- The committed contents of the authority tables. -/
structure Authority where
  namespaces : Table Id String
  principals : Table Id PrincipalRow
  memberships : Table (Id × Id) MembershipRow
  grants : Table Id GrantRow
  versions : Table (Id × Id) Nat
  sources : Table String SourceRow
  managed : Table Id ManagedRow
  accounts : Table Id AccountRow
  aliases : Table SignIn AliasRow
  bindings : Table Id BindingRow
  serviceKeys : Table (String × String) DelegationKey
  assertions : Table (String × String) AssertionRow
  epoch : EpochRow

end JobmanControl
