import JobmanControl.Authority.Replay
import JobmanControl.Monitoring.Feed
import JobmanControl.Monitoring.Reading

/-!
A consumer of the feed. It takes the head cursor of a checkpoint and then reads page
after page, always from the cursor the last page returned, while jobs finish, events
are published and old events are retired. It receives every event of its namespaces
between the two cursors once, and a page that could not keep this is refused.
-/

namespace JobmanControl

open Relational

variable {authority : Authority} {primitives : Primitives} {last start : MonitoringCursor}

/-- The cursor the consumer started from, the one it holds, and what it received. -/
structure MonitoringConsumer where
  started : String
  token : String
  received : List MonitoringEvent

def MonitoringConsumer.receive (consumer : MonitoringConsumer) (page : MonitoringEventPage) :
    MonitoringConsumer :=
  { consumer with token := page.nextCursor, received := consumer.received ++ page.items }

structure ConsumedFeed where
  monitoring : Monitoring
  authority : Authority
  consumer : Option MonitoringConsumer

inductive ConsumerStep
  | monitoring (step : MonitoringStep)
  | authority (call : AuthorityCall)
  | checkpoint (asOf now : Time) (principal : Principal)
  | read (asOf now : Time) (principal : Principal) (limit : Int)

structure MonitoringScope where
  serviceId : String
  namespaceIds : List Id

/-- The assertion speaks for the service and for its namespaces, in any order. -/
def MonitoringScope.covers (scope : MonitoringScope) (principal : Principal) : Bool :=
  principal.delegation.any fun actor =>
    actor.serviceId = scope.serviceId && actor.namespaceIds.isPerm scope.namespaceIds

namespace ConsumedFeed

def initial (authority : Authority) : ConsumedFeed := ⟨.initial, authority, none⟩

section Step

variable (codec : Codec) (cursors : CursorCodec) (primitives : Primitives)

/-- A refused request leaves the consumer where it was. -/
def next (w : ConsumedFeed) : ConsumerStep → Option ConsumedFeed
  | .monitoring step => (w.monitoring.next codec step).map fun m => { w with monitoring := m }
  | .authority call => some { w with authority := call.apply primitives w.authority }
  | .checkpoint asOf now principal =>
      match readMonitoringCheckpoint cursors w.authority w.monitoring.db asOf now principal with
      | .ok (checkpoint, _) =>
          some { w with consumer := some ⟨checkpoint.headCursor, checkpoint.headCursor, []⟩ }
      | .error _ => some w
  | .read asOf now principal limit => w.consumer.map fun consumer =>
      match readMonitoringEvents cursors w.authority w.monitoring.db asOf now principal
          consumer.token limit with
      | .ok page => { w with consumer := some (consumer.receive page) }
      | .error _ => w

/-- The consumer acts for one service and one set of namespaces. -/
def allowed (scope : MonitoringScope) (w : ConsumedFeed) : ConsumerStep → Bool
  | .monitoring step => w.monitoring.fresh codec step
  | .authority _ => true
  | .checkpoint _ _ principal | .read _ _ principal _ => scope.covers principal

end Step

end ConsumedFeed

variable {codec : Codec} {cursors : CursorCodec} {scope : MonitoringScope} {w w' : ConsumedFeed}

variable {principal : Principal} {actor : DelegatedActor}

theorem MonitoringScope.covers_iff (h : principal.delegation = some actor) :
    scope.covers principal = true ↔
      actor.serviceId = scope.serviceId ∧ actor.namespaceIds.Perm scope.namespaceIds := by
  rw [covers, h, Option.any_some, Bool.and_eq_true, decide_eq_true_eq, List.isPerm_iff]

theorem MonitoringScope.digest_eq (hservice : actor.serviceId = scope.serviceId)
    (hperm : actor.namespaceIds.Perm scope.namespaceIds) : monitoringScope cursors actor =
      cursors.scopeDigest scope.serviceId (orderBy (fun a b => a ≤ b) scope.namespaceIds) := by
  rw [monitoringScope, hservice, orderBy_eq_of_perm hperm]

/-- What the consumer has received, and where it stands. -/
structure Followed (cursors : CursorCodec) (scope : MonitoringScope) (monitoring : Monitoring)
    (consumer : MonitoringConsumer) (start last : MonitoringCursor) : Prop where
  started : cursors.encode start = consumer.started
  token : cursors.encode last = consumer.token
  digest : last.scope =
    cursors.scopeDigest scope.serviceId (orderBy (fun a b => a ≤ b) scope.namespaceIds)
  origin : last.controlInstance = cursors.controlInstance
  forward : start.position ≤ last.position
  behind : last.position ≤ monitoring.db.feedState.headPosition
  increasing : consumer.received.Pairwise fun a b => a.position < b.position
  exact : ∀ event, event ∈ consumer.received ↔ ∃ row, (event.position, row) ∈ monitoring.published ∧
    row.namespaceId ∈ scope.namespaceIds ∧ start.position < event.position ∧
    event.position ≤ last.position ∧ event = row.event event.position

namespace Followed

variable {monitoring monitoring' : Monitoring} {consumer : MonitoringConsumer}

theorem step (h : Followed cursors scope monitoring consumer start last) (hfed : Fed monitoring)
    (hfed' : Fed monitoring') {s : MonitoringStep}
    (hnext : monitoring.next codec s = some monitoring') :
    Followed cursors scope monitoring' consumer start last := by
  obtain ⟨added, hpublished, hadded⟩ := hfed.published_next hnext
  refine { h with behind := h.behind.trans (hfed.head_le hfed' hnext), exact := fun event => ?_ }
  rw [h.exact]
  refine exists_congr fun row => and_congr_left ?_
  rintro ⟨-, -, hle, -⟩
  rw [hpublished, List.mem_append]
  refine ⟨Or.inl, fun hor => hor.resolve_right fun hin => ?_⟩
  exact absurd ((hadded _ hin).1.trans_le (hle.trans h.behind)) (Nat.lt_irrefl _)

theorem receive (h : Followed cursors scope monitoring consumer start last) (hfed : Fed monitoring)
    {asOf now : Time} {limit : Int} {page : MonitoringEventPage}
    (hcovers : scope.covers principal = true)
    (hpage : readMonitoringEvents cursors authority monitoring.db asOf now principal consumer.token
      limit = .ok page) :
    ∃ last', Followed cursors scope monitoring (consumer.receive page) start last' := by
  obtain ⟨cursor, actor, next, hcursor, hactor, hnext, hfloor, hfrom, hhead, hsorted, hitems⟩ :=
    readMonitoringEvents_ok hpage
  rw [← h.token] at hcursor
  cases CursorCodec.decode_encode hcursor
  obtain ⟨-, hperm⟩ := (MonitoringScope.covers_iff hactor).mp hcovers
  -- Nothing after the cursor is retired, so the feed still has what was published.
  have hitem : ∀ event, event ∈ page.items ↔ ∃ row, (event.position, row) ∈ monitoring.published ∧
      row.namespaceId ∈ scope.namespaceIds ∧ last.position < event.position ∧
      event.position ≤ next ∧ event = row.event event.position := by
    intro event
    rw [hitems]
    refine exists_congr fun row => ?_
    rw [hfed.retained, hperm.mem_iff, and_assoc]
    refine and_congr_right fun _ => ⟨And.right, fun hrest => ⟨?_, hrest⟩⟩
    exact hfloor.trans_lt hrest.2.1
  refine ⟨{ last with position := next }, h.started, hnext.symm, h.digest, h.origin,
    h.forward.trans hfrom, hhead, ?_, ?_⟩
  · refine List.pairwise_append.mpr ⟨h.increasing, hsorted, ?_⟩
    intro a ha b hb
    obtain ⟨_, -, -, -, hle, -⟩ := (h.exact a).mp ha
    obtain ⟨_, -, -, hlt, -⟩ := (hitem b).mp hb
    exact hle.trans_lt hlt
  · intro event
    show event ∈ consumer.received ++ page.items ↔ _
    rw [List.mem_append, h.exact, hitem]
    constructor
    · rintro (⟨row, hrow, hn, hafter, hle, hevent⟩ | ⟨row, hrow, hn, hafter, hle, hevent⟩)
      · exact ⟨row, hrow, hn, hafter, hle.trans hfrom, hevent⟩
      · exact ⟨row, hrow, hn, h.forward.trans_lt hafter, hle, hevent⟩
    · rintro ⟨row, hrow, hn, hafter, hle, hevent⟩
      rcases Nat.lt_or_ge last.position event.position with hlt | hge
      · exact Or.inr ⟨row, hrow, hn, hlt, hle, hevent⟩
      · exact Or.inl ⟨row, hrow, hn, hafter, hge, hevent⟩

/-- Whether a request is answered depends on the recovery epoch and on what is retired,
and on nothing else. -/
theorem answer (h : Followed cursors scope monitoring consumer start last)
    (hlast : cursors.decode consumer.token = some last) {asOf now : Time} {limit : Int}
    (hcovers : scope.covers principal = true)
    (hauthorized : authority.authorizeMonitoringService now principal = .ok actor)
    (hlimit : 1 ≤ limit ∧ limit ≤ 200) :
    (last.epoch ≠ monitoring.db.recovery.restoreEpoch →
      readMonitoringEvents cursors authority monitoring.db asOf now principal consumer.token limit =
        .error .eventRecoveryChanged) ∧
    (last.epoch = monitoring.db.recovery.restoreEpoch →
      (monitoring.db.feedState.retiredThrough ≤ last.position →
        ∃ page, readMonitoringEvents cursors authority monitoring.db asOf now principal
          consumer.token limit = .ok page) ∧
      (last.position < monitoring.db.feedState.retiredThrough →
        readMonitoringEvents cursors authority monitoring.db asOf now principal consumer.token
          limit = .error .eventCursorExpired)) := by
  obtain ⟨hkeyed, -, -⟩ := (cursors.decode_eq_some_iff _ _).mp hlast
  obtain ⟨hactor, -⟩ := authorizeMonitoringService_ok hauthorized
  obtain ⟨hservice, hperm⟩ := (MonitoringScope.covers_iff hactor).mp hcovers
  have hscope : last.scope = monitoringScope cursors actor := by
    rw [h.digest, MonitoringScope.digest_eq hservice hperm]
  obtain ⟨checkpoint, hcheckpoint, hinstance, hrecovery⟩ :=
    exists_readMonitoringCheckpoint monitoring.db asOf hkeyed hauthorized
  -- up to the comparison of the sources the request is the same in every case
  rw [readMonitoringEvents, ensure_of_true hlimit, ok_bind, need_of_eq_some hlast, ok_bind,
    hcheckpoint, ok_bind]
  dsimp only
  rw [need_of_eq_some hactor, ok_bind, hrecovery]
  constructor
  · intro hepoch
    rw [ensure_of_false fun hsource => hepoch hsource.2, error_bind]
  · intro hepoch
    have hsource : last.controlInstance = checkpoint.controlInstanceId ∧
        last.epoch = monitoring.db.recovery.restoreEpoch :=
      ⟨h.origin.trans hinstance.symm, hepoch⟩
    rw [ensure_of_true hsource, ok_bind, ensure_of_true hscope, ok_bind]
    constructor
    · intro hfloor
      rw [ensure_of_true hfloor, ok_bind, ensure_of_true h.behind, ok_bind]
      exact ⟨_, rfl⟩
    · intro hexpired
      rw [ensure_of_false (Nat.not_le.mpr hexpired), error_bind]

end Followed

/-- What holds in every state: the feed is in order, and the consumer has followed it. -/
structure ConsumedFeed.Sound (cursors : CursorCodec) (scope : MonitoringScope)
    (w : ConsumedFeed) : Prop where
  fed : Fed w.monitoring
  followed : ∀ consumer, w.consumer = some consumer →
    ∃ start last, Followed cursors scope w.monitoring consumer start last

theorem ConsumedFeed.Sound.step (h : w.Sound cursors scope) {s : ConsumerStep}
    (hnext : w.next codec cursors primitives s = some w')
    (hallowed : w.allowed codec scope s = true) : w'.Sound cursors scope := by
  cases s with
  | monitoring step =>
      obtain ⟨monitoring, hstep, rfl⟩ := Option.map_eq_some_iff.mp hnext
      have hfed := h.fed.step hstep hallowed
      refine ⟨hfed, fun consumer hconsumer => ?_⟩
      obtain ⟨start, last, hfollowed⟩ := h.followed consumer hconsumer
      exact ⟨start, last, hfollowed.step h.fed hfed hstep⟩
  | authority call =>
      cases hnext
      exact ⟨h.fed, h.followed⟩
  | checkpoint asOf now principal =>
      simp only [next] at hnext
      split at hnext <;> cases hnext
      · rename_i checkpoint rest hcheckpoint
        refine ⟨h.fed, fun consumer hconsumer => ?_⟩
        cases hconsumer
        obtain ⟨actor, hauthorized, -, -, -, -, -, hhead⟩ := readMonitoringCheckpoint_ok hcheckpoint
        obtain ⟨hactor, -⟩ := authorizeMonitoringService_ok hauthorized
        obtain ⟨hservice, hperm⟩ := (MonitoringScope.covers_iff hactor).mp hallowed
        refine ⟨_, _, hhead.symm, hhead.symm, MonitoringScope.digest_eq hservice hperm, rfl,
          Nat.le_refl _, Nat.le_refl _, List.Pairwise.nil, ?_⟩
        intro event
        refine ⟨fun hmem => absurd hmem List.not_mem_nil, ?_⟩
        rintro ⟨row, -, -, hafter, hle, -⟩
        exact absurd (hafter.trans_le hle) (Nat.lt_irrefl _)
      · exact h
  | read asOf now principal limit =>
      obtain ⟨consumer, hconsumer, rfl⟩ := Option.map_eq_some_iff.mp hnext
      obtain ⟨start, last, hfollowed⟩ := h.followed consumer hconsumer
      split
      · rename_i page hpage
        refine ⟨h.fed, fun consumer' hconsumer' => ?_⟩
        cases hconsumer'
        exact ⟨start, hfollowed.receive h.fed hallowed hpage⟩
      · exact h

/-- Whatever happens to the feed, a consumer has received the events of its namespaces
between its first cursor and its last one, in the order of their positions and each
of them once. Its next request is answered unless events after its cursor have been
retired or the database has been restored, and then it is told so. -/
theorem monitoring_consumer_receives_all {codec : Codec} {cursors : CursorCodec}
    {scope : MonitoringScope} {w : ConsumedFeed} {consumer : MonitoringConsumer}
    (hrun : Transition.Reaches
      (fun w s w' => ConsumedFeed.next codec cursors primitives w s = some w')
      (fun w s => w.allowed codec scope s = true) (.initial authority) w)
    (hconsumer : w.consumer = some consumer) (hstart : cursors.decode consumer.started = some start)
    (hlast : cursors.decode consumer.token = some last) :
    (consumer.received.Pairwise fun a b => a.position < b.position) ∧
    (∀ event, event ∈ consumer.received ↔ ∃ row,
      (event.position, row) ∈ w.monitoring.published ∧ row.namespaceId ∈ scope.namespaceIds ∧
      start.position < event.position ∧ event.position ≤ last.position ∧
      event = row.event event.position) ∧
    ∀ asOf now principal actor limit, scope.covers principal = true →
      w.authority.authorizeMonitoringService now principal = .ok actor →
      1 ≤ limit ∧ limit ≤ 200 →
      (last.epoch ≠ w.monitoring.db.recovery.restoreEpoch →
        readMonitoringEvents cursors w.authority w.monitoring.db asOf now principal
          consumer.token limit = .error .eventRecoveryChanged) ∧
      (last.epoch = w.monitoring.db.recovery.restoreEpoch →
        (w.monitoring.db.feedState.retiredThrough ≤ last.position →
          ∃ page, readMonitoringEvents cursors w.authority w.monitoring.db asOf now principal
            consumer.token limit = .ok page) ∧
        (last.position < w.monitoring.db.feedState.retiredThrough →
          readMonitoringEvents cursors w.authority w.monitoring.db asOf now principal
            consumer.token limit = .error .eventCursorExpired)) := by
  have hsound : w.Sound cursors scope := hrun.invariant
    ⟨Fed.initial, fun _ hnone => by cases hnone⟩
    fun _ _ _ hw hallowed hnext => hw.step hnext hallowed
  obtain ⟨start', last', h⟩ := hsound.followed consumer hconsumer
  rw [← h.started] at hstart
  cases CursorCodec.decode_encode hstart
  have htoken : cursors.decode (cursors.encode last') = some last := by
    rw [h.token]
    exact hlast
  cases CursorCodec.decode_encode htoken
  exact ⟨h.increasing, h.exact, fun _ _ _ _ _ hcovers hauthorized hlimit =>
    h.answer hlast hcovers hauthorized hlimit⟩

namespace Sample

def scopeText : String := "47DEQpj8HBSa-_TImW-5JCeuQeRkm5NMpJWZG3hSuFU"

/-- A cursor in letters: each number as that many of one letter, then a scope other than
the usual one. -/
def cursorText (cursor : MonitoringCursor) : List Char :=
  List.replicate cursor.controlInstance 'i' ++ '.' :: (List.replicate cursor.epoch 'e' ++
    '.' :: (List.replicate cursor.position 'p' ++
      '.' :: if cursor.scope = scopeText then [] else 's' :: cursor.scope.toList))

def readCount (letter : Char) (text : List Char) : Nat × List Char :=
  ((text.takeWhile (· = letter)).length, (text.dropWhile (· = letter)).tail)

def readCursor (text : List Char) : MonitoringCursor :=
  let controlInstance := readCount 'i' text
  let epoch := readCount 'e' controlInstance.2
  let position := readCount 'p' epoch.2
  ⟨controlInstance.1, epoch.1,
    if position.2 = [] then scopeText else String.ofList position.2.tail, position.1⟩

theorem readCount_replicate {letter : Char} (h : letter ≠ '.') (n : Nat) (text : List Char) :
    readCount letter (List.replicate n letter ++ '.' :: text) = (n, text) := by
  induction n with
  | zero => simp [readCount, h.symm]
  | succ n ih =>
      simp only [readCount, Prod.mk.injEq] at ih
      simp only [readCount, List.replicate_succ, List.cons_append, List.takeWhile_cons,
        List.dropWhile_cons, decide_true, if_true, List.length_cons, ih]

theorem readCursor_cursorText (cursor : MonitoringCursor) :
    readCursor (cursorText cursor) = cursor := by
  by_cases h : cursor.scope = scopeText
  · simp [readCursor, cursorText, readCount_replicate, ← h]
  · simp [readCursor, cursorText, readCount_replicate, h]

def letterCursors : CursorCodec where
  controlInstance := 9
  keyed := true
  scopeDigest _ _ := scopeText
  encode cursor := String.ofList (cursorText cursor)
  decode value :=
    let cursor := readCursor value.toList
    if 1 ≤ cursor.epoch ∧ cursor.scope.utf8ByteSize = 43 ∧
      String.ofList (cursorText cursor) = value then some cursor else none
  encode_injective _ a b h := by
    have htext := String.ofList_injective h
    rw [← readCursor_cursorText a, htext, readCursor_cursorText]
  decode_eq_some_iff value cursor := by
    dsimp only
    constructor
    · intro h
      obtain ⟨hvalid, heq⟩ := Option.ite_none_right_eq_some.mp h
      cases heq
      exact ⟨rfl, hvalid⟩
    · rintro ⟨-, hepoch, hscope, rfl⟩
      rw [String.toList_ofList, readCursor_cursorText, if_pos ⟨hepoch, hscope, rfl⟩]

def monitoringAuthority : Authority :=
  [⟨0, .ensureBootstrapIdentity ⟨"issuer", "admin"⟩ "Admin" "research" 7 1⟩,
    ⟨0, .registerDelegationKeys [⟨"monitor", "key", monitorKey⟩]⟩].foldl
    (fun authority call => AuthorityCall.apply tokenLibrary call authority) .empty

def monitor : Principal where
  signIn := ⟨"", ""⟩
  delegation := some
    { serviceOnly := true, audience := "control", serviceId := "monitor", keyId := "key"
      certificateThumbprint := thumbprint, directoryId := none, operation := .eventsRead
      namespaceIds := [1], mode := .worker, assertionId := "AAAAAAAAAAAAAAAAAAAAAA"
      issuedAt := 1, expiresAt := 60 * second }

/-- A checkpoint before the graph runs, and two pages of one event after both nodes ended. -/
def consumedGraph : List ConsumerStep :=
  [.monitoring (.commit ⟨env 0, .configure configuration⟩), .checkpoint 1 1 monitor,
    .monitoring (.commit ⟨env 1, .submitGraph authorization "submit-graph-1" graphIds graph⟩)] ++
  (firstNode .failure).map (fun call => .monitoring (.commit call)) ++
  [.monitoring (.claim 10), .monitoring (.publish 5), .read 6 6 monitor 1, .read 7 7 monitor 1]

end Sample

theorem monitoring_consumer_receives_all_graph :
    ∃ w : ConsumedFeed, ∃ consumer, w.consumer = some consumer ∧
      consumer.received.map (·.position) = [1, 2] ∧
      consumer.received.Pairwise fun a b => a.position < b.position := by
  have hrun : ((Transition.exec (fun (w : ConsumedFeed) s =>
      if w.allowed Sample.codec ⟨"monitor", [1]⟩ s then
        w.next Sample.codec Sample.letterCursors Sample.tokenLibrary s
      else none) (.initial Sample.monitoringAuthority) Sample.consumedGraph).bind fun w =>
        w.consumer.map fun consumer => (consumer.received.map (·.position),
          Sample.letterCursors.decode consumer.started,
          Sample.letterCursors.decode consumer.token)) =
      some ([1, 2], some ⟨9, 1, Sample.scopeText, 0⟩, some ⟨9, 1, Sample.scopeText, 2⟩) := by
    decide
  obtain ⟨w, hw, hmap⟩ := Option.bind_eq_some_iff.mp hrun
  obtain ⟨consumer, hconsumer, heq⟩ := Option.map_eq_some_iff.mp hmap
  simp only [Prod.mk.injEq] at heq
  obtain ⟨hpositions, hstart, hlast⟩ := heq
  exact ⟨w, consumer, hconsumer, hpositions, (monitoring_consumer_receives_all
    (Transition.reaches_of_exec hw) hconsumer hstart hlast).1⟩

end JobmanControl
