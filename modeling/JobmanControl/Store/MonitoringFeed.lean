import JobmanControl.Authority.Assertion
import JobmanControl.Store.Maintenance

/-!
Reading the monitoring feed. A checkpoint says where the feed stands and hands out a
cursor; a page continues from a cursor in the namespaces of the service that asks.
Both are read from one snapshot. Cursors travel as signed tokens.
-/

namespace JobmanControl

open Relational

structure MonitoringCursor where
  controlInstance : Id
  epoch : Nat
  scope : String
  position : Nat
  deriving DecidableEq, Repr

/-- How a store signs cursors: the digest of a scope, and tokens of which it accepts
exactly those it would issue, with the 43 bytes of a digest as their scope. `keyed` says
that a token key of at least 32 bytes is configured; without one there are no tokens. -/
structure CursorCodec where
  controlInstance : Id
  keyed : Bool
  scopeDigest : String → List Id → String
  encode : MonitoringCursor → String
  decode : String → Option MonitoringCursor
  encode_injective : keyed = true → Function.Injective encode
  decode_eq_some_iff : ∀ value cursor, decode value = some cursor ↔ keyed = true ∧
    1 ≤ cursor.epoch ∧ cursor.scope.utf8ByteSize = 43 ∧ encode cursor = value

def monitoringScope (codec : CursorCodec) (actor : DelegatedActor) : String :=
  codec.scopeDigest actor.serviceId (orderBy (fun a b => a ≤ b) actor.namespaceIds)

structure MonitoringCheckpoint where
  controlInstanceId : Id
  recoveryEpoch : Nat
  asOf : Time
  headCursor : String
  oldestCursor : String
  retentionSeconds : Nat
  backlogCount : Nat
  oldestUnpublishedRecordedAt : Option Time
  deriving DecidableEq, Repr

/-- `readMonitoringCheckpoint`, with the head and the floor. `asOf` is the time its first
statement arrived, `now` the time its authorization reads. -/
def readMonitoringCheckpoint (codec : CursorCodec) (authority : Authority) (db : Db)
    (asOf now : Time) (principal : Principal) :
    Except StoreError (MonitoringCheckpoint × Nat × Nat) := do
  ensure codec.keyed .authorizationUnavailable
  let actor ← authority.authorizeMonitoringService now principal
  let head := db.feedState.headPosition
  let floor := db.feedState.retiredThrough
  let backlog := db.outbox.select fun id row =>
    (row.pending id).isSome && actor.namespaceIds.contains row.namespaceId
  let cursor (position : Nat) : MonitoringCursor :=
    ⟨codec.controlInstance, db.recovery.restoreEpoch, monitoringScope codec actor, position⟩
  pure
    ({ controlInstanceId := codec.controlInstance
       recoveryEpoch := db.recovery.restoreEpoch
       asOf := asOf
       headCursor := codec.encode (cursor head)
       oldestCursor := codec.encode (cursor floor)
       retentionSeconds := db.feedState.retentionSeconds
       backlogCount := backlog.length
       oldestUnpublishedRecordedAt := (backlog.map (·.2.createdAt)).min? }, head, floor)

structure MonitoringEvent where
  position : Nat
  eventId : Id
  namespaceId : Id
  payload : TerminalTransition
  deriving DecidableEq, Repr

def FeedRow.event (row : FeedRow) (position : Nat) : MonitoringEvent :=
  ⟨position, row.eventId, row.namespaceId, row.payload⟩

structure MonitoringEventPage where
  checkpoint : MonitoringCheckpoint
  items : List MonitoringEvent
  hasMore : Bool
  nextCursor : String
  deriving DecidableEq, Repr

def namespacePositions (db : Db) (after head namespaceId : Nat) : List Nat :=
  (orderBy (fun a b => a.1 ≤ b.1) (db.feed.select fun position row =>
    row.namespaceId = namespaceId && after < position && position ≤ head)).map Prod.fst

/-- `selected_positions`: each namespace is limited, and so are all of them together. -/
def selectedPositions (db : Db) (namespaceIds : List Id) (after head limit : Nat) : List Nat :=
  (orderBy (fun a b => a ≤ b) ((namespaceIds.map (namespacePositions db after head)).flatMap
    fun positions => positions.take limit)).take limit

def selectedEvents (db : Db) (namespaceIds : List Id) (after head limit : Nat) :
    List MonitoringEvent :=
  (selectedPositions db namespaceIds after head limit).filterMap fun position =>
    (db.feed.get? position).map (·.event position)

def readMonitoringEvents (codec : CursorCodec) (authority : Authority) (db : Db) (asOf now : Time)
    (principal : Principal) (value : String) (limit : Int) :
    Except StoreError MonitoringEventPage := do
  ensure (1 ≤ limit ∧ limit ≤ 200) .eventCursorInvalid
  let cursor ← need (codec.decode value) .eventCursorInvalid
  let (checkpoint, head, floor) ← readMonitoringCheckpoint codec authority db asOf now principal
  let actor ← need principal.delegation .forbidden
  ensure (cursor.controlInstance = checkpoint.controlInstanceId ∧
      cursor.epoch = checkpoint.recoveryEpoch)
    .eventRecoveryChanged
  ensure (cursor.scope = monitoringScope codec actor) .eventScopeChanged
  ensure (floor ≤ cursor.position) .eventCursorExpired
  ensure (cursor.position ≤ head) .eventCursorInvalid
  let events := selectedEvents db actor.namespaceIds cursor.position head (limit.toNat + 1)
  let items := events.take limit.toNat
  let hasMore : Bool := limit.toNat < events.length
  let position := if hasMore then (items.getLast?.map (·.position)).getD head else head
  pure ⟨checkpoint, items, hasMore, codec.encode { cursor with position := position }⟩

end JobmanControl
