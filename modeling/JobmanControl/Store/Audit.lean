import JobmanControl.Authority.Decision

/-!
The export of audit events. An operator or administrator reads the events of a
namespace page by page in the order of their identities, which the database draws
when a row is inserted.
-/

namespace JobmanControl

open Relational

/-- A row of `audit_events` as the export reads it, under its identity; every
transaction of the service writes such rows, so actions and types are text here. -/
structure AuditEntryRow where
  namespaceId : Id
  actor : Actor
  action : String
  resourceType : String
  resourceId : Id
  requestDigest : Option String
  idempotencyKey : Option String
  details : String
  occurredAt : Time
  deriving DecidableEq, Repr

structure AuditEvent where
  id : Nat
  namespaceName : String
  actor : Actor
  action : String
  resourceType : String
  resourceId : Id
  requestDigest : String
  idempotencyKey : String
  details : String
  occurredAt : Time
  deriving DecidableEq, Repr

def AuditEntryRow.event (row : AuditEntryRow) (name : String) (id : Nat) : AuditEvent where
  id := id
  namespaceName := name
  actor := row.actor
  action := row.action
  resourceType := row.resourceType
  resourceId := row.resourceId
  requestDigest := row.requestDigest.getD ""
  idempotencyKey := row.idempotencyKey.getD ""
  details := row.details
  occurredAt := row.occurredAt

/-- `nextAfterId` is zero when no page follows. -/
structure AuditPage where
  items : List AuditEvent
  nextAfterId : Nat
  deriving DecidableEq, Repr

/-- `membership.roles && ARRAY['operator', 'namespace_admin']`. -/
def exportsAudit (roles : List Role) : Bool :=
  roles.any fun role => role = .operator || role = .namespaceAdmin

/-- The page query: the membership is joined to every event of the namespace. -/
def auditRows (authority : Authority) (events : Table Nat AuditEntryRow) (signIn : SignIn)
    (namespaceId : Id) (afterId : Int) (limit : Nat) : List (Nat × AuditEntryRow) :=
  let visible := (authority.principalOf signIn).any fun row =>
    exportsAudit (authority.authorizedRoles namespaceId row.1)
  (orderBy (fun a b => a.1 ≤ b.1) (events.select fun id row =>
    row.namespaceId = namespaceId && afterId < (id : Int) && visible)).take limit

def exportAudit (authority : Authority) (events : Table Nat AuditEntryRow) (now : Time)
    (principal : Principal) (name : String) (afterId limit : Int) :
    Except StoreError AuditPage := do
  let authorization ← authority.authorizeNamespace now principal name [.auditRead]
  let canonical := authorization.canonical
  ensure (0 ≤ afterId ∧ 1 ≤ limit ∧ limit ≤ 1000)
    (.invalid "audit export cursor or limit is invalid")
  let row ← need (authority.principalOf canonical.signIn) .forbidden
  let namespaceId ← need (authority.namespaceNamed name) .forbidden
  let roles := authority.authorizedRoles namespaceId row.1
  ensure (roles ≠ []) .forbidden
  ensure (.auditRead ∈ effectiveCapabilities roles) .forbidden
  let items := (auditRows authority events canonical.signIn namespaceId afterId
    (limit.toNat + 1)).map fun row => row.2.event name row.1
  if limit.toNat < items.length then
    let page := items.take limit.toNat
    pure ⟨page, (page.getLast?.map (·.id)).getD 0⟩
  else
    pure ⟨items, 0⟩

theorem exportsAudit_of_auditRead {roles : List Role}
    (h : .auditRead ∈ effectiveCapabilities roles) : exportsAudit roles = true := by
  rw [effectiveCapabilities, List.mem_eraseDups, List.mem_flatMap] at h
  obtain ⟨role, hrole, hcapability⟩ := h
  refine List.any_eq_true.mpr ⟨role, hrole, ?_⟩
  cases role <;> simp_all [Role.capabilities]

theorem exportAudit_items {authority : Authority} {events : Table Nat AuditEntryRow} {now : Time}
    {principal : Principal} {name : String} {afterId limit : Int} {page : AuditPage} {n : Id}
    (hname : authority.namespaceNamed name = some n)
    (h : exportAudit authority events now principal name afterId limit = .ok page) :
    1 ≤ limit ∧ page.items = ((orderBy (fun a b => a.1 ≤ b.1) (events.select fun id row =>
      row.namespaceId = n && afterId < (id : Int))).take limit.toNat).map
        fun row => row.2.event name row.1 := by
  simp only [exportAudit, bind_ok_iff, need_ok_iff, ensure_ok_iff] at h
  obtain ⟨authorization, -, -, hbounds, row, hrow, n', hname', -, -, -, hcapability, h⟩ := h
  cases hname.symm.trans hname'
  have hvisible : ((authority.principalOf authorization.canonical.signIn).any fun row =>
      exportsAudit (authority.authorizedRoles n row.1)) = true := by
    rw [hrow, Option.any_some]
    exact exportsAudit_of_auditRead hcapability
  refine ⟨hbounds.2.1, ?_⟩
  simp only [auditRows, hvisible, Bool.and_true] at h
  split at h <;> rename_i hlength <;> rw [pure_ok_iff] at h <;> subst h
  · simp only [← List.map_take, List.take_take]
    rw [Nat.min_eq_left (Nat.le_succ _)]
  · simp only [List.length_map, List.length_take] at hlength
    rw [List.take_of_length_le (by omega), List.take_of_length_le (by omega)]

end JobmanControl
