import JobmanControl.Library.System
import JobmanControl.Authority.Assertion

/-!
The authority tables as a transition system. A call commits all its writes or
none; a restore brings back any state that was committed before and then enters a
new recovery epoch. Beside the tables a state keeps what happened so far: the
committed states, the snapshots that were applied and the assertions that were
accepted, the newest first.
-/

namespace JobmanControl

open Relational

inductive AuthorityOperation
  | ensureBootstrapIdentity (signIn : SignIn) (displayName name : String)
      (principalId namespaceId : Id)
  | putMembership (actor : Principal) (name : String)
      (reservation : Except StoreError (Option Id)) (candidateId : Id) (grant : MembershipGrant)
  | putMembershipGrant (actor : Principal) (name : String) (grantId candidateId : Id)
      (grant : MembershipGrant)
  | revokeMembershipGrant (actor : Principal) (name : String) (grantId : Id)
  | configureDirectory (mapping : DirectoryMapping)
  | applyDirectorySnapshot (grantId : DesiredGrant → Id) (snapshot : DirectorySnapshot)
  | recordDirectoryFailure (sourceId : String) (revision : Int)
  | registerDelegationKeys (keys : List KeyRegistration)
  | presentAssertion (validatedAt : Time) (registered : Option DelegationKey)
      (peer : PeerCertificate) (assertion : Assertion) (operation : Capability)
  | pruneDelegationAudits (limit retention : Nat)

structure AuthorityCall where
  now : Time
  operation : AuthorityOperation

/-- `EnsureBootstrapIdentity`: the configured principal administers the configured namespace. -/
def ensureBootstrapIdentity (primitives : Primitives) (now : Time) (signIn : SignIn)
    (displayName name : String) (principalId namespaceId : Id) : Tx StoreError Authority Unit :=
  fun db => do
    let (principalId, db) ← db.upsertPrincipal principalId signIn displayName
    match db.namespaceNamed name with
    | some existing =>
        let db ← db.upsertMembership now primitives.legacyGrantId existing principalId
          .namespaceAdmin
        pure ((), db)
    | none =>
        let namespaces ← need (db.namespaces.insert? namespaceId name)
          (.constraint "namespaces_pkey")
        let db ← ({ db with namespaces := namespaces } : Authority).upsertMembership now
          primitives.legacyGrantId namespaceId principalId .namespaceAdmin
        pure ((), db)

def AuthorityCall.run (primitives : Primitives) (call : AuthorityCall) (db : Authority) :
    Except StoreError Authority :=
  match call.operation with
  | .ensureBootstrapIdentity signIn displayName name principalId namespaceId =>
      (ensureBootstrapIdentity primitives call.now signIn displayName name principalId namespaceId
        db).map Prod.snd
  | .putMembership actor name reservation candidateId grant =>
      (putMembership call.now primitives.legacyGrantId actor name reservation candidateId grant
        db).map Prod.snd
  | .putMembershipGrant actor name grantId candidateId grant =>
      (putMembershipGrant call.now actor name grantId candidateId grant db).map Prod.snd
  | .revokeMembershipGrant actor name grantId =>
      (revokeMembershipGrant call.now actor name grantId db).map Prod.snd
  | .configureDirectory mapping =>
      (configureDirectory primitives.digest call.now mapping db).map Prod.snd
  | .applyDirectorySnapshot grantId snapshot =>
      (applyDirectorySnapshot call.now grantId snapshot db).map Prod.snd
  | .recordDirectoryFailure sourceId revision =>
      .ok (recordDirectoryFailure call.now sourceId revision db)
  | .registerDelegationKeys keys => (registerDelegationKeys keys db).map Prod.snd
  | .presentAssertion validatedAt registered peer assertion operation =>
      (presentAssertion primitives call.now validatedAt registered peer assertion operation
        db).map Prod.snd
  | .pruneDelegationAudits limit retention =>
      (pruneDelegationAudits call.now limit retention db).map Prod.snd

/-- The tables after a call: what it commits, or the tables it found. -/
def AuthorityCall.apply (primitives : Primitives) (call : AuthorityCall) (db : Authority) :
    Authority :=
  match call.run primitives db with
  | .ok db' => db'
  | .error _ => db

structure AcceptedAssertion where
  serviceId : String
  assertionId : String
  issuedAt : Int
  expiresAt : Int
  time : Time
  deriving DecidableEq, Repr

/-- The tables with what has happened to them. -/
structure AuthorityHistory where
  db : Authority
  past : List Authority
  applied : List DirectorySnapshot
  accepted : List AcceptedAssertion
  restores : List Time
  clock : Time

inductive AuthorityEvent
  | call (call : AuthorityCall)
  | restore (now : Time) (old : Authority)

def AuthorityEvent.now : AuthorityEvent → Time
  | .call c => c.now
  | .restore now _ => now

def AuthorityCall.acceptance (primitives : Primitives) (call : AuthorityCall) (db : Authority) :
    Option AcceptedAssertion :=
  match call.operation with
  | .presentAssertion validatedAt registered peer assertion operation =>
      match presentAssertion primitives call.now validatedAt registered peer assertion operation
        db with
      | .ok (actor, _) =>
          some ⟨actor.serviceId, actor.assertionId, actor.issuedAt, actor.expiresAt, call.now⟩
      | .error _ => none
  | _ => none

def AuthorityCall.snapshot (primitives : Primitives) (call : AuthorityCall) (db : Authority) :
    Option DirectorySnapshot :=
  match call.operation, call.run primitives db with
  | .applyDirectorySnapshot _ snapshot, .ok _ => some snapshot
  | _, _ => none

namespace AuthorityHistory

def next (primitives : Primitives) (w : AuthorityHistory) : AuthorityEvent → AuthorityHistory
  | .call call =>
      { db := call.apply primitives w.db
        past := call.apply primitives w.db :: w.past
        applied := (call.snapshot primitives w.db).toList ++ w.applied
        accepted := (call.acceptance primitives w.db).toList ++ w.accepted
        restores := w.restores
        clock := call.now }
  | .restore now old =>
      { w with
          db := advanceEpoch now old
          past := advanceEpoch now old :: w.past
          restores := now :: w.restores
          clock := now }

/-- The step relation: only what was committed before can be restored. -/
def Step (primitives : Primitives) (w : AuthorityHistory) (event : AuthorityEvent)
    (w' : AuthorityHistory) : Prop :=
  w' = w.next primitives event ∧ ∀ now old, event = .restore now old → old ∈ w.past

end AuthorityHistory

/-- The authority tables after their migrations. -/
def Authority.empty : Authority where
  namespaces := .empty
  principals := .empty
  memberships := .empty
  grants := .empty
  versions := .empty
  sources := .empty
  managed := .empty
  accounts := .empty
  aliases := .empty
  bindings := .empty
  serviceKeys := .empty
  assertions := .empty
  epoch := ⟨1, 0⟩

def AuthorityHistory.initial : AuthorityHistory where
  db := .empty
  past := [.empty]
  applied := []
  accepted := []
  restores := []
  clock := 0

/-- Every history that calls and restores lead to. -/
abbrev AuthorityHistory.Arises (primitives : Primitives) (w : AuthorityHistory) : Prop :=
  Transition.Reachable (AuthorityHistory.Step primitives) .initial w

variable {primitives : Primitives}

/-- What the empty tables satisfy and both calls and restores keep holds of every state. -/
theorem AuthorityHistory.Arises.holds {P : Authority → Prop} {w : AuthorityHistory}
    (h : AuthorityHistory.Arises primitives w) (hempty : P .empty)
    (hcall : ∀ call db db', P db → AuthorityCall.run primitives call db = .ok db' → P db')
    (hrestore : ∀ now db, P db → P (advanceEpoch now db)) : P w.db := by
  have happly : ∀ call db, P db → P (AuthorityCall.apply primitives call db) := by
    intro call db hdb
    unfold AuthorityCall.apply
    cases hrun : call.run primitives db with
    | ok db' => exact hcall call db db' hdb hrun
    | error e => exact hdb
  have hall : P w.db ∧ ∀ db ∈ w.past, P db := by
    refine h.invariant (P := fun w => P w.db ∧ ∀ db ∈ w.past, P db) ⟨hempty, ?_⟩ ?_
    · intro db hdb
      cases List.mem_singleton.mp hdb
      exact hempty
    · rintro w event w' ⟨hnow, hpast⟩ - ⟨rfl, hold⟩
      cases event with
      | call c => exact ⟨happly c _ hnow, List.forall_mem_cons.mpr ⟨happly c _ hnow, hpast⟩⟩
      | restore now old =>
          have hrestored := hrestore now old (hpast old (hold now old rfl))
          exact ⟨hrestored, List.forall_mem_cons.mpr ⟨hrestored, hpast⟩⟩
  exact hall.1

/-- The clock does not go back. -/
def clockForward (w : AuthorityHistory) (event : AuthorityEvent) : Bool := w.clock ≤ event.now

def AuthorityHistory.after (primitives : Primitives) (calls : List AuthorityCall) :
    Option AuthorityHistory :=
  Transition.exec
    (fun w call => if w.clock ≤ call.now then some (w.next primitives (.call call)) else none)
    .initial calls

theorem AuthorityHistory.reaches_after {calls : List AuthorityCall} {w : AuthorityHistory}
    (h : AuthorityHistory.after primitives calls = some w) :
    Transition.Reaches (AuthorityHistory.Step primitives)
      (fun w event => clockForward w event = true) .initial w := by
  refine (Transition.reachable_of_exec h).invariant .refl ?_
  intro w call w' hw _ hnext
  rw [Option.ite_none_right_eq_some] at hnext
  obtain ⟨hclock, heq⟩ := hnext
  cases heq
  refine .tail (.call call) hw (decide_eq_true hclock) ⟨rfl, ?_⟩
  intro now old hrestore
  cases hrestore

theorem AuthorityHistory.arises_after {calls : List AuthorityCall} {w : AuthorityHistory}
    (h : AuthorityHistory.after primitives calls = some w) :
    AuthorityHistory.Arises primitives w :=
  (AuthorityHistory.reaches_after h).mono fun _ _ _ => trivial

namespace Sample

/-- The token library's checks, with stand-ins for the digests. -/
def tokenLibrary : Primitives where
  digest mapping := mapping.sourceId
  legacyGrantId namespaceId principalId := 1000 * namespaceId + principalId
  validateWithLeeway _ _ notBefore expiry issuedAt now :=
    notBefore ≤ now + 5 * second && (now : Int) ≤ expiry + 5 * second &&
      issuedAt ≤ now + 5 * second

end Sample

end JobmanControl
