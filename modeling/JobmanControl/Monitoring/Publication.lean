import JobmanControl.Store.Footprint
import JobmanControl.Store.Maintenance

/-!
What the job transactions and the publisher write. A job transaction only adds rows
to the outbox, none of them published, and leaves the feed alone. The publisher
appends the rows it has claimed under the positions after the head, in their order,
and acknowledges each of them.
-/

namespace JobmanControl

open Relational

variable {id : Id} {publishedAt now : Time} {head : Nat} {pending : List PendingEvent}
  {order : ScanOrder} {env : Env} {db db' db'' : Db}

/-- What a job transaction does to the outbox and the feed. -/
structure Emits (env : Env) (db db' : Db) : Prop where
  kept : ∀ n row, db.outbox.get? n = some row → db'.outbox.get? n = some row
  added : ∀ n row, db.outbox.get? n = none → db'.outbox.get? n = some row →
    row.publishedAt = none ∧
      ∀ transition, row.terminal = some transition → ∃ j, transition.recordedAt = env.recordedAt j
  feed : db'.feed = db.feed
  state : db'.feedState = db.feedState

namespace Emits

theorem same (houtbox : db'.outbox = db.outbox) (hfeed : db'.feed = db.feed)
    (hstate : db'.feedState = db.feedState) : Emits env db db' := by
  refine ⟨?_, ?_, hfeed, hstate⟩
  · intro n row hrow
    rw [houtbox]
    exact hrow
  · intro n row hnone hrow
    rw [houtbox, hnone] at hrow
    cases hrow

theorem trans (h : Emits env db db') (h' : Emits env db' db'') : Emits env db db'' := by
  refine ⟨fun n row hrow => h'.kept n row (h.kept n row hrow), ?_, h'.feed.trans h.feed,
    h'.state.trans h.state⟩
  intro n row hnone hrow
  cases hmid : db'.outbox.get? n with
  | none => exact h'.added n row hmid hrow
  | some row' =>
      cases (h'.kept n row' hmid).symm.trans hrow
      exact h.added n row hnone hmid

theorem insert {row : OutboxRow} {outbox : Table Id OutboxRow}
    (hinsert : db.outbox.insert? id row = some outbox) (hunpublished : row.publishedAt = none)
    (hrecorded : ∀ transition, row.terminal = some transition →
      ∃ j, transition.recordedAt = env.recordedAt j) (houtbox : db'.outbox = outbox)
    (hfeed : db'.feed = db.feed) (hstate : db'.feedState = db.feedState) : Emits env db db' := by
  subst houtbox
  have hget := Table.get?_insert hinsert
  obtain ⟨hfree, -⟩ := (Table.insert?_eq_some_iff _ _ _ _).mp hinsert
  refine ⟨?_, ?_, hfeed, hstate⟩
  · intro n row' hrow'
    have hn : n ≠ id := by
      rintro rfl
      cases hfree.symm.trans hrow'
    rw [hget, if_neg hn]
    exact hrow'
  · intro n row' hnone hrow'
    rw [hget] at hrow'
    split at hrow'
    · cases hrow'
      exact ⟨hunpublished, hrecorded⟩
    · cases hnone.symm.trans hrow'

theorem updateJob {codec : Codec} {f : JobRow → Except StoreError JobRow}
    (h : db.updateJob codec env id f = .ok db') : Emits env db db' := by
  unfold Db.updateJob at h
  split at h
  · cases h
    exact same rfl rfl rfl
  obtain ⟨changed, -, h⟩ := (bind_ok_iff _ _ _).mp h
  unfold Db.enqueueMonitoringTerminalTransition at h
  dsimp only at h
  split at h
  · split at h
    · rename_i outbox hinsert
      cases h
      refine insert hinsert rfl ?_ rfl rfl rfl
      rintro transition htransition
      cases htransition
      exact ⟨id, rfl⟩
    · cases h
  · cases h
    exact same rfl rfl rfl

theorem insertOutbox {namespaceId : Id} {message : OutboxMessage}
    (h : db.insertOutbox env id namespaceId message = .ok db')
    (hmessage : ∀ transition, message ≠ .jobTerminal transition) : Emits env db db' := by
  simp only [Db.insertOutbox, bind_ok_iff, need_ok_iff, pure_ok_iff] at h
  obtain ⟨outbox, hinsert, rfl⟩ := h
  refine insert hinsert rfl ?_ rfl rfl rfl
  intro transition htransition
  cases message with
  | jobTerminal t => exact absurd rfl (hmessage t)
  | _ => cases htransition

theorem callFootprint (codec : Codec) (env : Env) (asked : JobSubmission → Grouping → Prop) :
    CallFootprint codec env asked (Emits env) where
  refl _ := same rfl rfl rfl
  trans := trans
  updateJob _ := updateJob
  updateRun _ h := by
    obtain ⟨runs, rfl⟩ := Db.updateRun_eq h
    exact same rfl rfl rfl
  insertOutbox := insertOutbox
  insertWorkload _ := same rfl rfl rfl
  insertCollection _ := same rfl rfl rfl
  insertGraph _ := same rfl rfl rfl
  touchCollection _ _ := same rfl rfl rfl
  touchGraph _ _ := same rfl rfl rfl
  insertJob _ _ _ := same rfl rfl rfl
  insertItem _ _ := same rfl rfl rfl
  insertNode _ _ _ := same rfl rfl rfl
  insertRun _ _ := same rfl rfl rfl
  insertExecution _ _ := same rfl rfl rfl
  insertAssignment _ _ := same rfl rfl rfl
  touchPolicy _ _ := same rfl rfl rfl
  updateExecutions _ := same rfl rfl rfl
  updateAssignments _ := same rfl rfl rfl
  elsewhere h := same (congrArg WatchedTables.outbox h) (congrArg WatchedTables.feed h)
    (congrArg WatchedTables.feedState h)
  writeKeys := same rfl rfl rfl

theorem reportFootprint (codec : Codec) (env : Env) : ReportFootprint codec env (Emits env) where
  toWorkFootprint := (callFootprint codec env fun _ _ => False).toWorkFootprint
  writeEvents := same rfl rfl rfl
  writeArtifacts := same rfl rfl rfl
  reportExecution _ := same rfl rfl rfl

end Emits

theorem Call.emits (codec : Codec) (call : Call) (db : Db) :
    Emits call.env db (call.apply codec db) :=
  Call.apply_footprint call (Emits.callFootprint codec call.env _) db
    (fun _ _ => Emits.same rfl rfl rfl)
    fun _ _ _ _ => (Emits.reportFootprint codec call.env).recordExecutionEvent

/-! The claim and the publication loop. -/

theorem OutboxRow.pending_eq_some_iff {row : OutboxRow} {event : PendingEvent} :
    row.pending id = some event ↔ row.publishedAt = none ∧ event.id = id ∧
      event.namespaceId = row.namespaceId ∧ row.terminal = some event.payload := by
  obtain ⟨eventId, namespaceId, payload⟩ := event
  unfold OutboxRow.pending
  by_cases hpublished : row.publishedAt = none
  · simp only [hpublished, if_true, Option.map_eq_some_iff, PendingEvent.mk.injEq, true_and]
    grind
  · simp [hpublished]

theorem map_id_filterMap_pending (l : List (Id × OutboxRow)) :
    List.Sublist ((l.filterMap fun entry => entry.2.pending entry.1).map (·.id))
      (l.map Prod.fst) := by
  induction l with
  | nil => exact List.Sublist.refl _
  | cons entry rest ih =>
      rw [List.filterMap_cons, List.map_cons]
      split
      · exact ih.cons _
      · rename_i event hpending
        rw [List.map_cons, (OutboxRow.pending_eq_some_iff.mp hpending).2.1]
        exact ih.cons_cons _

/-- A claim holds waiting rows, each of them once. -/
theorem pendingEvents_spec (db : Db) (limit : Nat) :
    ((pendingEvents db limit).map (·.id)).Nodup ∧
      ∀ event ∈ pendingEvents db limit, ∃ row, db.outbox.get? event.id = some row ∧
        row.pending event.id = some event := by
  constructor
  · refine List.Nodup.sublist (map_id_filterMap_pending _) ?_
    refine List.Nodup.sublist ((List.take_sublist _ _).map _) ?_
    exact (nodup_map_orderBy _ _ _).mpr (db.outbox.nodup_map_fst_select _)
  · intro event hevent
    obtain ⟨⟨id, row⟩, hmem, hpending⟩ := List.mem_filterMap.mp hevent
    rw [(OutboxRow.pending_eq_some_iff.mp hpending).2.1]
    have hrow := (mem_orderBy _ _ _).mp (List.mem_of_mem_take hmem)
    exact ⟨row, ((db.outbox.mem_select _ _ _).mp hrow).1, hpending⟩

/-- The feed rows of a batch, under the positions after `head`. -/
def feedRows (publishedAt : Time) (head : Nat) (pending : List PendingEvent) :
    List (Nat × FeedRow) :=
  (pending.zipIdx (head + 1)).map fun entry =>
    (entry.2, ⟨entry.1.id, entry.1.namespaceId, entry.1.payload, publishedAt⟩)

theorem map_fst_feedRows (publishedAt : Time) (head : Nat) (pending : List PendingEvent) :
    (feedRows publishedAt head pending).map Prod.fst = List.range' (head + 1) pending.length := by
  rw [feedRows, List.map_map]
  exact List.zipIdx_map_snd _ _

theorem map_eventId_feedRows (publishedAt : Time) (head : Nat) (pending : List PendingEvent) :
    (feedRows publishedAt head pending).map (·.2.eventId) = pending.map (·.id) := by
  rw [feedRows, List.map_map]
  have hfst : pending.map (·.id) = ((pending.zipIdx (head + 1)).map Prod.fst).map (·.id) := by
    rw [List.zipIdx_map_fst]
  rw [hfst, List.map_map]
  rfl

theorem mem_feedRows {entry : Nat × FeedRow} (h : entry ∈ feedRows publishedAt head pending) :
    head < entry.1 ∧ ∃ event ∈ pending,
      entry.2 = ⟨event.id, event.namespaceId, event.payload, publishedAt⟩ := by
  constructor
  · have hposition : entry.1 ∈ (feedRows publishedAt head pending).map Prod.fst :=
      List.mem_map.mpr ⟨entry, h, rfl⟩
    rw [map_fst_feedRows, List.mem_range'_1] at hposition
    omega
  · obtain ⟨⟨event, position⟩, hmem, rfl⟩ := List.mem_map.mp h
    exact ⟨event, List.fst_mem_of_mem_zipIdx hmem, rfl⟩

theorem placeMonitoringEvent_new {head' : Nat} {event : PendingEvent}
    (h : placeMonitoringEvent publishedAt db head event = .ok (db', head'))
    (habsent : ∀ p row, db.feed.get? p = some row → row.eventId ≠ event.id) :
    head' = head + 1 ∧ ∃ feed, db' = { db with feed := feed } ∧
      db.feed.insert? (head + 1) ⟨event.id, event.namespaceId, event.payload, publishedAt⟩ =
        some feed := by
  have hnew : (db.feed.any fun _ row => row.eventId = event.id) = false := by
    rw [Table.any_eq_false_iff]
    intro p row hrow
    exact decide_eq_false (habsent p row hrow)
  rw [placeMonitoringEvent, hnew] at h
  simp only [Bool.false_eq_true, if_false, bind_ok_iff, need_ok_iff, pure_ok_iff,
    Prod.mk.injEq] at h
  obtain ⟨-, -, feed, hinsert, rfl, rfl⟩ := h
  exact ⟨rfl, feed, rfl, hinsert⟩

theorem appendLoop {head' : Nat}
    (h : pending.foldlM (appendMonitoringEvent publishedAt) (db, head) = .ok (db', head'))
    (hnodup : (pending.map (·.id)).Nodup)
    (habsent : ∀ event ∈ pending, ∀ p row, db.feed.get? p = some row → row.eventId ≠ event.id) :
    head' = head + pending.length ∧
      db'.feed.entries = db.feed.entries ++ feedRows publishedAt head pending ∧
      (∃ feed outbox, db' = { db with feed := feed, outbox := outbox }) ∧
      ∀ n, db'.outbox.get? n = (db.outbox.get? n).map fun row =>
        if n ∈ pending.map (·.id) then { row with publishedAt := some publishedAt } else row := by
  induction pending generalizing db head with
  | nil =>
      simp only [List.foldlM_nil, pure_ok_iff, Prod.mk.injEq] at h
      obtain ⟨rfl, rfl⟩ := h
      refine ⟨rfl, (List.append_nil _).symm, ⟨_, _, rfl⟩, ?_⟩
      intro n
      simp
  | cons event rest ih =>
      rw [List.map_cons, List.nodup_cons] at hnodup
      simp only [List.foldlM_cons, bind_ok_iff, Prod.exists, appendMonitoringEvent, pure_ok_iff,
        Prod.mk.injEq] at h
      obtain ⟨_, _, ⟨_, _, hplace, rfl, rfl⟩, hrest⟩ := h
      obtain ⟨rfl, feed, rfl, hinsert⟩ :=
        placeMonitoringEvent_new hplace (habsent event List.mem_cons_self)
      obtain ⟨-, hentries⟩ := (Table.insert?_eq_some_iff _ _ _ _).mp hinsert
      have habsent' : ∀ later ∈ rest, ∀ p row, feed.get? p = some row →
          row.eventId ≠ later.id := by
        intro later hlater p row hrow
        rw [Table.get?_insert hinsert] at hrow
        split at hrow
        · cases hrow
          exact fun heq => hnodup.1 (List.mem_map.mpr ⟨later, hlater, Eq.symm heq⟩)
        · exact habsent later (List.mem_cons_of_mem _ hlater) p row hrow
      obtain ⟨hhead, hfeed, ⟨feed', outbox', hdb⟩, houtbox⟩ := ih hrest hnodup.2 habsent'
      refine ⟨?_, ?_, ⟨feed', outbox', hdb⟩, ?_⟩
      · rw [hhead, List.length_cons]
        omega
      · rw [hfeed]
        dsimp only
        rw [hentries, List.append_assoc]
        rfl
      · intro n
        rw [houtbox n]
        dsimp only
        rw [Table.get?_modify]
        cases db.outbox.get? n with
        | none => simp
        | some row =>
            by_cases hn : n = event.id
            · subst hn
              simp [hnodup.1]
            · simp [hn, List.mem_cons]

/-- What a publication commits. -/
theorem appendMonitoringEvents_spec (h : appendMonitoringEvents now pending db = .ok db')
    (hnodup : (pending.map (·.id)).Nodup)
    (habsent : ∀ event ∈ pending, ∀ p row, db.feed.get? p = some row → row.eventId ≠ event.id) :
    ∃ feed outbox state, db' = { db with feed := feed, outbox := outbox, feedState := state } ∧
      feed.entries = db.feed.entries ++
        feedRows (max now db.feedState.lastPublishedAt) db.feedState.headPosition pending ∧
      (∀ n, outbox.get? n = (db.outbox.get? n).map fun row =>
        if n ∈ pending.map (·.id) then
          { row with publishedAt := some (max now db.feedState.lastPublishedAt) }
        else row) ∧
      state.headPosition = db.feedState.headPosition + pending.length ∧
      state.retiredThrough = db.feedState.retiredThrough ∧
      db.feedState.lastPublishedAt ≤ state.lastPublishedAt ∧
      (pending ≠ [] → state.lastPublishedAt = max now db.feedState.lastPublishedAt) := by
  simp only [appendMonitoringEvents, bind_ok_iff, pure_ok_iff, Prod.exists] at h
  obtain ⟨db₁, head, hloop, h⟩ := h
  obtain ⟨hhead, hfeed, ⟨feed, outbox, rfl⟩, houtbox⟩ := appendLoop hloop hnodup habsent
  split at h <;> rename_i hpending
  · subst h
    refine ⟨feed, outbox, db.feedState, rfl, hfeed, houtbox, ?_, rfl, Nat.le_refl _,
      fun hne => absurd hpending hne⟩
    rw [hpending]
    rfl
  · subst h
    exact ⟨feed, outbox, _, rfl, hfeed, houtbox, hhead, rfl, Nat.le_max_right _ _, fun _ => rfl⟩

/-- What the retention of the feed commits: a prefix of the positions is gone. -/
theorem pruneMonitoringEvents_spec {limit : Int} {deleted : Nat}
    (h : pruneMonitoringEvents now limit db = .ok (deleted, db')) :
    db' = db ∨ ∃ through row, db.feed.get? through = some row ∧
      db' = { db with
        feed := db.feed.deleteWhere fun position _ => position ≤ through
        feedState := { db.feedState with
          retiredThrough := max db.feedState.retiredThrough through } } := by
  simp only [pruneMonitoringEvents, bind_ok_iff] at h
  obtain ⟨-, -, h⟩ := h
  split at h
  · cases h
    exact Or.inl rfl
  · rename_i through hthrough
    simp only [bind_ok_iff, pure_ok_iff, Prod.mk.injEq] at h
    obtain ⟨-, -, -, rfl⟩ := h
    have hmem := List.max?_mem hthrough
    obtain ⟨⟨position, row⟩, hrow, rfl⟩ := List.mem_map.mp hmem
    have hold := (mem_orderBy _ _ _).mp (List.mem_of_mem_take (List.mem_of_mem_filter hrow))
    exact Or.inr ⟨position, row, ((db.feed.mem_select _ _ _).mp hold).1, rfl⟩

theorem published_of_mem_expiredOutbox (h : id ∈ expiredOutbox db now order) :
    ∃ row, db.outbox.get? id = some row ∧ row.publishedAt ≠ none := by
  obtain ⟨⟨id', publishedAt⟩, hmem, rfl⟩ := List.mem_map.mp h
  obtain ⟨⟨key, row⟩, hentry, hrow⟩ := List.mem_filterMap.mp ((mem_orderBy _ _ _).mp hmem)
  simp only [Option.bind_eq_bind, Option.bind_eq_some_iff, Option.pure_def, Option.some.injEq,
    Prod.mk.injEq] at hrow
  obtain ⟨time, htime, _, -, -, -, rfl, -⟩ := hrow
  exact ⟨row, (db.outbox.get?_eq_some_iff _ _).mpr hentry, by simp [htime]⟩

/-- What pruning commits: records and published rows may be gone. -/
theorem pruneOperationalData_spec {limit : Int} {removed : Nat}
    (h : pruneOperationalData now order limit db = .ok (removed, db')) :
    ∃ idempotency, ∃ rows : List Id, db' = { db with
        idempotency := idempotency
        outbox := db.outbox.deleteWhere fun id _ => rows.contains id } ∧
      ∀ id ∈ rows, ∃ row, db.outbox.get? id = some row ∧ row.publishedAt ≠ none := by
  simp only [pruneOperationalData, bind_ok_iff] at h
  obtain ⟨-, -, h⟩ := h
  split at h <;> simp only [pure_ok_iff, Prod.mk.injEq] at h <;> obtain ⟨-, rfl⟩ := h
  · have hsame : (db.outbox.deleteWhere fun id _ => ([] : List Id).contains id) = db.outbox :=
      Table.ext_entries (List.filter_eq_self.mpr fun _ _ => rfl)
    exact ⟨_, [], by rw [hsame], fun id hid => absurd hid List.not_mem_nil⟩
  · refine ⟨_, _, rfl, ?_⟩
    intro id hid
    exact published_of_mem_expiredOutbox (List.mem_of_mem_take hid)

end JobmanControl
