import JobmanControl.Monitoring.Consumer

/-!
The two halves of a checkpoint, the source clock and the head of the feed, while jobs
finish and events are published. The clock is that of the statement's arrival, and the
head is that of the snapshot, which is taken later. An event that is both recorded and
published in between lies before the head although it is recorded after the clock.
-/

namespace JobmanControl

open Relational

/-- `arrived` has the readers whose first statement has arrived and has no snapshot yet,
with the clock of its arrival; `returned` has the checkpoints that were answered. -/
structure CheckpointedFeed where
  monitoring : Monitoring
  authority : Authority
  clock : Time
  arrived : Table Nat Time
  returned : List MonitoringCheckpoint

inductive CheckpointStep
  | tick (elapsed : Time)
  | monitoring (step : MonitoringStep)
  | authority (call : AuthorityCall)
  | arrive (reader : Nat)
  | snapshot (reader : Nat) (now : Time) (principal : Principal)

namespace CheckpointedFeed

def initial (authority : Authority) : CheckpointedFeed := ⟨.initial, authority, 0, .empty, []⟩

section Step

variable (codec : Codec) (cursors : CursorCodec) (primitives : Primitives)

/-- The trigger of a job transaction reads the clock before the transaction commits. -/
def readings (w : CheckpointedFeed) : MonitoringStep → Bool
  | .commit call => (w.monitoring.db.newEvents (call.apply codec w.monitoring.db)).all fun event =>
      event.2.recordedAt ≤ w.clock
  | _ => true

def next (w : CheckpointedFeed) : CheckpointStep → Option CheckpointedFeed
  | .tick elapsed => some { w with clock := w.clock + elapsed }
  | .monitoring step =>
      if w.readings codec step then
        (w.monitoring.next codec step).map fun m => { w with monitoring := m }
      else none
  | .authority call => some { w with authority := call.apply primitives w.authority }
  | .arrive reader => (w.arrived.insert? reader w.clock).map fun arrived =>
      { w with arrived := arrived }
  | .snapshot reader now principal => (w.arrived.get? reader).map fun asOf =>
      let arrived := w.arrived.deleteWhere fun r _ => r = reader
      match readMonitoringCheckpoint cursors w.authority w.monitoring.db asOf now principal with
      | .ok (checkpoint, _, _) =>
          { w with arrived := arrived, returned := w.returned ++ [checkpoint] }
      | .error _ => { w with arrived := arrived }

def fresh (w : CheckpointedFeed) : CheckpointStep → Bool
  | .monitoring step => w.monitoring.fresh codec step
  | _ => true

/-- No publication of an event that was recorded after the arrival of a statement which
has no snapshot yet. -/
def unraced (w : CheckpointedFeed) : CheckpointStep → Bool
  | .monitoring (.publish _) => (w.monitoring.claimed.getD []).all fun event =>
      !w.arrived.any fun _ arrival => arrival < event.payload.recordedAt
  | _ => true

end Step

end CheckpointedFeed

variable {codec : Codec} {cursors : CursorCodec} {primitives : Primitives}
  {w w' : CheckpointedFeed}

theorem Monitoring.issued_next {m m' : Monitoring} {s : MonitoringStep}
    (h : m.next codec s = some m') : m'.issued = m.issued ∨
      ∃ call, s = .commit call ∧
        m'.issued = m.issued ++ m.db.newEvents (call.apply codec m.db) := by
  cases s with
  | commit call =>
      cases h
      exact Or.inr ⟨call, rfl, rfl⟩
  | abandon | pruneOperational =>
      cases h
      exact Or.inl rfl
  | claim | prune | configureRetention =>
      obtain ⟨-, heq⟩ := Option.ite_none_right_eq_some.mp h
      cases heq
      exact Or.inl rfl
  | publish now =>
      obtain ⟨pending, -, rfl⟩ := Option.map_eq_some_iff.mp h
      split <;> exact Or.inl rfl

/-- Nothing at or before the head was recorded after the clock: of a statement that waits
for its snapshot, and of a checkpoint that was returned. -/
structure Bounded (cursors : CursorCodec) (w : CheckpointedFeed) : Prop where
  fed : Fed w.monitoring
  past : ∀ event ∈ w.monitoring.issued, event.2.recordedAt ≤ w.clock
  waiting : ∀ reader arrival, w.arrived.get? reader = some arrival →
    ∀ entry ∈ w.monitoring.published, entry.2.payload.recordedAt ≤ arrival
  returned : ∀ checkpoint ∈ w.returned, ∃ cursor, cursors.encode cursor = checkpoint.headCursor ∧
    cursor.position ≤ w.monitoring.db.feedState.headPosition ∧
    ∀ entry ∈ w.monitoring.published, entry.1 ≤ cursor.position →
      entry.2.payload.recordedAt ≤ checkpoint.asOf

namespace Bounded

theorem initial (authority : Authority) : Bounded cursors (.initial authority) where
  fed := Fed.initial
  past _ h := absurd h List.not_mem_nil
  waiting _ _ h := by cases h
  returned _ h := absurd h List.not_mem_nil

theorem published_past (h : Bounded cursors w) {entry : Nat × FeedRow}
    (hentry : entry ∈ w.monitoring.published) : entry.2.payload.recordedAt ≤ w.clock :=
  h.past _ (h.fed.faithful entry hentry)

theorem monitoring (h : Bounded cursors w) {s : MonitoringStep} {m : Monitoring}
    (hreadings : w.readings codec s = true) (hnext : w.monitoring.next codec s = some m)
    (hfresh : w.monitoring.fresh codec s = true) (hunraced : w.unraced (.monitoring s) = true) :
    Bounded cursors { w with monitoring := m } := by
  have hfed := h.fed.step hnext hfresh
  obtain ⟨added, hpublished, hadded⟩ := h.fed.published_next hnext
  refine ⟨hfed, ?_, ?_, ?_⟩
  · obtain hsame | ⟨call, rfl, hissued⟩ := Monitoring.issued_next hnext
    · exact fun event hevent => h.past event (hsame ▸ hevent)
    · intro event hevent
      obtain hold | hnew := List.mem_append.mp (hissued ▸ hevent)
      · exact h.past event hold
      · exact of_decide_eq_true (List.all_eq_true.mp hreadings event hnew)
  · intro reader arrival harrival entry hentry
    obtain hold | hnew := List.mem_append.mp (hpublished ▸ hentry)
    · exact h.waiting reader arrival harrival entry hold
    · obtain ⟨-, ⟨now, rfl⟩, pending, hclaimed, event, hevent, heq⟩ := hadded entry hnew
      rw [CheckpointedFeed.unraced, hclaimed, Option.getD_some, List.all_eq_true] at hunraced
      have hnone := hunraced event hevent
      rw [Bool.not_eq_true', Table.any_eq_false_iff] at hnone
      rw [heq]
      exact Nat.not_lt.mp (of_decide_eq_false (hnone reader arrival harrival))
  · intro checkpoint hcheckpoint
    obtain ⟨cursor, hcursor, hle, hbefore⟩ := h.returned checkpoint hcheckpoint
    refine ⟨cursor, hcursor, hle.trans (h.fed.head_le hfed hnext), fun entry hentry hposition => ?_⟩
    obtain hold | hnew := List.mem_append.mp (hpublished ▸ hentry)
    · exact hbefore entry hold hposition
    · -- a position given later lies beyond the head the checkpoint has seen
      exact absurd ((hadded entry hnew).1.trans_le (hposition.trans hle)) (Nat.lt_irrefl _)

theorem snapshot (h : Bounded cursors w) {reader : Nat} {asOf now : Time} {principal : Principal}
    (harrived : w.arrived.get? reader = some asOf) {checkpoint : MonitoringCheckpoint}
    {head floor : Nat}
    (hok : readMonitoringCheckpoint cursors w.authority w.monitoring.db asOf now principal =
      .ok (checkpoint, head, floor)) :
    Bounded cursors { w with returned := w.returned ++ [checkpoint] } := by
  refine { h with returned := fun checkpoint' hcheckpoint' => ?_ }
  obtain hold | hnew := List.mem_append.mp hcheckpoint'
  · exact h.returned checkpoint' hold
  · cases List.mem_singleton.mp hnew
    obtain ⟨actor, -, -, -, hasOf, -, -, hcursor⟩ := readMonitoringCheckpoint_ok hok
    refine ⟨_, hcursor.symm, Nat.le_refl _, fun entry hentry _ => ?_⟩
    rw [hasOf]
    exact h.waiting reader asOf harrived entry hentry

theorem answered (h : Bounded cursors w) (reader : Nat) :
    Bounded cursors { w with arrived := w.arrived.deleteWhere fun r _ => r = reader } := by
  refine { h with waiting := fun r arrival harrival => ?_ }
  rw [Table.get?_deleteWhere, Option.filter_eq_some_iff] at harrival
  exact h.waiting r arrival harrival.1

theorem step (h : Bounded cursors w) {s : CheckpointStep}
    (hnext : w.next codec cursors primitives s = some w') (hfresh : w.fresh codec s = true)
    (hunraced : w.unraced s = true) : Bounded cursors w' := by
  cases s with
  | tick elapsed =>
      cases hnext
      exact { h with
        past := fun event hevent => (h.past event hevent).trans (Nat.le_add_right _ _) }
  | monitoring step =>
      obtain ⟨hreadings, hmap⟩ := Option.ite_none_right_eq_some.mp hnext
      obtain ⟨m, hm, rfl⟩ := Option.map_eq_some_iff.mp hmap
      exact h.monitoring hreadings hm hfresh hunraced
  | authority call =>
      cases hnext
      exact { h with }
  | arrive reader =>
      obtain ⟨arrived, hinsert, rfl⟩ := Option.map_eq_some_iff.mp hnext
      refine { h with waiting := fun r arrival harrival => ?_ }
      rw [Table.get?_insert hinsert] at harrival
      split at harrival
      · cases harrival
        exact fun entry hentry => h.published_past hentry
      · exact h.waiting r arrival harrival
  | snapshot reader now principal =>
      obtain ⟨asOf, harrived, rfl⟩ := Option.map_eq_some_iff.mp hnext
      dsimp only
      split
      · rename_i hok
        exact (h.snapshot harrived hok).answered reader
      · exact h.answered reader

end Bounded

/-- When no publication commits an event that was recorded after the arrival of a
checkpoint statement which still waits for its snapshot, every event recorded after the
clock of a checkpoint lies beyond its head. -/
theorem checkpoint_precedes_later_events {codec : Codec} {cursors : CursorCodec}
    {primitives : Primitives} {authority : Authority} {w : CheckpointedFeed}
    (hrun : Transition.Reaches
      (fun w s w' => CheckpointedFeed.next codec cursors primitives w s = some w')
      (fun w s => (w.fresh codec s && w.unraced s) = true) (.initial authority) w)
    {checkpoint : MonitoringCheckpoint} (hcheckpoint : checkpoint ∈ w.returned)
    {cursor : MonitoringCursor} (hcursor : cursors.decode checkpoint.headCursor = some cursor)
    {position : Nat} {row : FeedRow} (hrow : (position, row) ∈ w.monitoring.published)
    (hlater : checkpoint.asOf < row.payload.recordedAt) : cursor.position < position := by
  have hbounded : Bounded cursors w := hrun.invariant (Bounded.initial authority) ?_
  · obtain ⟨cursor', hencode, -, hbefore⟩ := hbounded.returned checkpoint hcheckpoint
    rw [← hencode] at hcursor
    cases CursorCodec.decode_encode hcursor
    refine Nat.lt_of_not_le fun hle => ?_
    exact Nat.lt_irrefl _ (hlater.trans_le (hbefore _ hrow hle))
  · intro w s w' h hallowed hnext
    obtain ⟨hfresh, hunraced⟩ := Bool.and_eq_true_iff.mp hallowed
    exact h.step hnext hfresh hunraced

namespace Sample

def finishedGraph : List CheckpointStep :=
  [.monitoring (.commit ⟨env 0, .configure configuration⟩),
    .monitoring (.commit ⟨env 1, .submitGraph authorization "submit-graph-1" graphIds graph⟩)] ++
  (firstNode .failure).map (fun call => .monitoring (.commit call)) ++
  [.monitoring (.claim 10), .monitoring (.publish 9)]

/-- A checkpoint on each side of the publication. -/
def checkpointedGraph : List CheckpointStep :=
  [.arrive 0, .snapshot 0 1 monitor, .tick 9] ++ finishedGraph ++
  [.arrive 1, .snapshot 1 9 monitor]

/-- A checkpoint statement that arrives before the graph starts, and takes its snapshot
after both events are published. -/
def racedCheckpoint : List CheckpointStep :=
  [.arrive 0, .tick 9] ++ finishedGraph ++ [.snapshot 0 9 monitor]

def firstCheckpoint (w : CheckpointedFeed) : Option (Option MonitoringCursor × Time × Nat × Time) :=
  w.returned.head?.bind fun checkpoint => w.monitoring.published.head?.map fun entry =>
    (letterCursors.decode checkpoint.headCursor, checkpoint.asOf, entry.1,
      entry.2.payload.recordedAt)

theorem of_firstCheckpoint {w : CheckpointedFeed} {cursor : Option MonitoringCursor}
    {asOf recordedAt : Time} {position : Nat}
    (h : firstCheckpoint w = some (cursor, asOf, position, recordedAt)) :
    ∃ checkpoint ∈ w.returned, letterCursors.decode checkpoint.headCursor = cursor ∧
      checkpoint.asOf = asOf ∧
      ∃ row, (position, row) ∈ w.monitoring.published ∧ row.payload.recordedAt = recordedAt := by
  obtain ⟨checkpoint, hcheckpoint, hmap⟩ := Option.bind_eq_some_iff.mp h
  obtain ⟨⟨p, row⟩, hentry, heq⟩ := Option.map_eq_some_iff.mp hmap
  cases heq
  exact ⟨checkpoint, List.mem_of_mem_head? hcheckpoint, rfl, rfl, row,
    List.mem_of_mem_head? hentry, rfl⟩

end Sample

theorem checkpoint_precedes_later_events_graph :
    ∃ w : CheckpointedFeed, ∃ checkpoint ∈ w.returned, ∃ cursor,
      Sample.letterCursors.decode checkpoint.headCursor = some cursor ∧
      ∃ row, (1, row) ∈ w.monitoring.published ∧ checkpoint.asOf < row.payload.recordedAt ∧
        cursor.position < 1 := by
  have hrun : ((Transition.exec (fun (w : CheckpointedFeed) s =>
      if w.fresh Sample.codec s && w.unraced s then
        w.next Sample.codec Sample.letterCursors Sample.tokenLibrary s
      else none) (.initial Sample.monitoringAuthority) Sample.checkpointedGraph).bind
        Sample.firstCheckpoint) = some (some ⟨9, 1, Sample.scopeText, 0⟩, 0, 1, 4) := by
    decide
  obtain ⟨w, hw, hfirst⟩ := Option.bind_eq_some_iff.mp hrun
  obtain ⟨checkpoint, hmem, hcursor, hasOf, row, hrow, hrecorded⟩ :=
    Sample.of_firstCheckpoint hfirst
  have hlater : checkpoint.asOf < row.payload.recordedAt := by
    rw [hasOf, hrecorded]
    decide
  exact ⟨w, checkpoint, hmem, _, hcursor, row, hrow, hlater, checkpoint_precedes_later_events
    (Transition.reaches_of_exec hw) hmem hcursor hrow hlater⟩

/-- The statement arrives, an event is recorded and published, and then the snapshot is
taken: the event lies before the head although it is recorded after the clock. -/
theorem checkpoint_passes_recorded_event :
    ∃ w : CheckpointedFeed, Transition.Reaches
        (fun w s w' =>
          CheckpointedFeed.next Sample.codec Sample.letterCursors Sample.tokenLibrary w s = some w')
        (fun w s => w.fresh Sample.codec s = true) (.initial Sample.monitoringAuthority) w ∧
      ∃ checkpoint ∈ w.returned, ∃ cursor,
        Sample.letterCursors.decode checkpoint.headCursor = some cursor ∧
        ∃ row, (1, row) ∈ w.monitoring.published ∧ checkpoint.asOf < row.payload.recordedAt ∧
          ¬cursor.position < 1 := by
  have hrun : ((Transition.exec (fun (w : CheckpointedFeed) s =>
      if w.fresh Sample.codec s then
        w.next Sample.codec Sample.letterCursors Sample.tokenLibrary s
      else none) (.initial Sample.monitoringAuthority) Sample.racedCheckpoint).bind
        Sample.firstCheckpoint) = some (some ⟨9, 1, Sample.scopeText, 2⟩, 0, 1, 4) := by
    decide
  obtain ⟨w, hw, hfirst⟩ := Option.bind_eq_some_iff.mp hrun
  obtain ⟨checkpoint, hmem, hcursor, hasOf, row, hrow, hrecorded⟩ :=
    Sample.of_firstCheckpoint hfirst
  refine ⟨w, Transition.reaches_of_exec hw, checkpoint, hmem, _, hcursor, row, hrow, ?_, by decide⟩
  rw [hasOf, hrecorded]
  decide

end JobmanControl
