import JobmanControl.Monitoring.Events

/-!
The positions of the feed. Every event gets at most one position over a whole run,
the positions that were ever given are those from one to the head, and the feed
holds exactly those that are not retired.
-/

namespace JobmanControl

open Relational Lifecycle

def Monitoring.publishedIds (w : Monitoring) : List Id := w.published.map (·.2.eventId)

/-- How the feed, its state row and the outbox fit together. -/
structure Fed (w : Monitoring) : Prop where
  issued : Issued w.db w.issued
  positions : w.published.map Prod.fst = List.range' 1 w.db.feedState.headPosition
  retained : ∀ p row, w.db.feed.get? p = some row ↔
    (p, row) ∈ w.published ∧ w.db.feedState.retiredThrough < p
  retired : w.db.feedState.retiredThrough ≤ w.db.feedState.headPosition
  ordered : (w.published.map (·.2.publishedAt)).Pairwise (· ≤ ·)
  stamped : ∀ entry ∈ w.published, entry.2.publishedAt ≤ w.db.feedState.lastPublishedAt
  distinct : w.publishedIds.Nodup
  faithful : ∀ entry ∈ w.published, (entry.2.eventId, entry.2.payload) ∈ w.issued
  acknowledged : ∀ n row, w.db.outbox.get? n = some row → row.terminal ≠ none →
    (row.publishedAt ≠ none ↔ n ∈ w.publishedIds)
  carried : ∀ event ∈ w.issued, event.1 ∈ w.publishedIds ∨
    ∃ row, w.db.outbox.get? event.1 = some row ∧ row.terminal = some event.2
  claimed : ∀ pending, w.claimed = some pending → (pending.map (·.id)).Nodup ∧
    ∀ event ∈ pending, ∃ row, w.db.outbox.get? event.id = some row ∧
      row.pending event.id = some event

variable {pending : List PendingEvent} {s : MonitoringStep}

namespace Fed

variable {codec : Codec} {w w' : Monitoring}

theorem initial : Fed Monitoring.initial where
  issued := ⟨sound_empty.coupled, sound_empty.wired, fun _ _ _ h => (by cases h), List.nodup_nil,
    fun _ h => absurd h List.not_mem_nil, fun _ _ _ h => (by cases h),
    fun _ h => absurd h List.not_mem_nil⟩
  positions := rfl
  retained _ _ := ⟨fun h => (by cases h), fun h => absurd h.1 List.not_mem_nil⟩
  retired := Nat.le_refl _
  ordered := List.Pairwise.nil
  stamped _ h := absurd h List.not_mem_nil
  distinct := List.nodup_nil
  faithful _ h := absurd h List.not_mem_nil
  acknowledged _ _ h := by cases h
  carried _ h := absurd h List.not_mem_nil
  claimed _ h := by cases h

theorem release (h : Fed w) : Fed { w with claimed := none } :=
  { h with claimed := fun _ hclaimed => by cases hclaimed }

theorem claim (h : Fed w) (limit : Int) :
    Fed { w with claimed := (claimMonitoringEvents limit w.db).toOption } := by
  refine { h with claimed := ?_ }
  intro pending hclaimed
  unfold claimMonitoringEvents ensure at hclaimed
  split at hclaimed
  · cases hclaimed
    exact pendingEvents_spec w.db limit.toNat
  · cases hclaimed

theorem commit (h : Fed w) (call : Call)
    (hfresh : Monitoring.fresh codec w (.commit call) = true) :
    Fed { w with
      db := call.apply codec w.db
      issued := w.issued ++ w.db.newEvents (call.apply codec w.db) } := by
  have hemits := call.emits codec w.db
  have hmoves := (effect_apply codec call h.issued.coupled h.issued.wired).moves
  have hfresh' : ∀ event ∈ w.issued, w.db.outbox.get? event.1 ≠ none ∨
      (call.apply codec w.db).outbox.get? event.1 = none := by
    intro event hevent
    have hone := List.all_eq_true.mp hfresh event hevent
    rw [Bool.or_eq_true, Option.isSome_iff_ne_none, Option.isNone_iff_eq_none] at hone
    exact hone
  have hissued := h.issued.commit hmoves hemits hfresh'
  generalize call.apply codec w.db = db at hemits hmoves hfresh' hissued
  refine ⟨hissued, ?_, ?_, ?_, h.ordered, ?_, h.distinct, ?_, ?_, ?_, ?_⟩
  · rw [hemits.state]
    exact h.positions
  · intro p row
    rw [hemits.feed, hemits.state]
    exact h.retained p row
  · rw [hemits.state]
    exact h.retired
  · rw [hemits.state]
    exact h.stamped
  · exact fun entry hentry => List.mem_append_left _ (h.faithful entry hentry)
  · intro n row hrow hterminal
    cases hold : w.db.outbox.get? n with
    | some row' =>
        cases (hemits.kept n row' hold).symm.trans hrow
        exact h.acknowledged n row hold hterminal
    | none =>
        obtain ⟨hunpublished, -⟩ := hemits.added n row hold hrow
        refine ⟨fun hne => absurd hunpublished hne, fun hmem => ?_⟩
        -- A published event that is not in the outbox has left it, so its identity is not drawn.
        obtain ⟨entry, hentry, rfl⟩ := List.mem_map.mp hmem
        obtain hkept | hgone := hfresh' _ (h.faithful entry hentry)
        · exact absurd hold hkept
        · cases hgone.symm.trans hrow
  · intro event hevent
    obtain hold | hnew := List.mem_append.mp hevent
    · refine (h.carried event hold).imp id ?_
      rintro ⟨row, hrow, hterminal⟩
      exact ⟨row, hemits.kept _ row hrow, hterminal⟩
    · exact Or.inr (mem_newEvents.mp hnew).2
  · intro pending hpending
    obtain ⟨hnodup, hrows⟩ := h.claimed pending hpending
    refine ⟨hnodup, fun event hevent => ?_⟩
    obtain ⟨row, hrow, hwaits⟩ := hrows event hevent
    exact ⟨row, hemits.kept _ row hrow, hwaits⟩

/-- Rows that leave the outbox by age were published. -/
theorem pruneOperational (h : Fed w) (now : Time) (order : ScanOrder) (limit : Int) :
    Fed { w with db := atomically (pruneOperationalData now order limit) w.db } := by
  obtain ⟨removed, hok⟩ | hsame := atomically_cases (pruneOperationalData now order limit) w.db
  swap
  · rw [hsame]
    exact h
  obtain ⟨_, rows, hdb, hpublished⟩ := pruneOperationalData_spec hok
  rw [hdb]
  have hget : ∀ n row, (w.db.outbox.deleteWhere fun id _ => rows.contains id).get? n = some row →
      w.db.outbox.get? n = some row := by
    intro n row hrow
    rw [Table.get?_deleteWhere, Option.filter_eq_some_iff] at hrow
    exact hrow.1
  have hkeeps : ∀ n row, w.db.outbox.get? n = some row → row.publishedAt = none →
      (w.db.outbox.deleteWhere fun id _ => rows.contains id).get? n = some row := by
    intro n row hrow hunpublished
    rw [Table.get?_deleteWhere, Option.filter_eq_some_iff]
    refine ⟨hrow, ?_⟩
    rw [Bool.not_eq_true', ← Bool.not_eq_true, List.contains_iff_mem]
    intro hmem
    obtain ⟨row', hrow', hne⟩ := hpublished n hmem
    cases hrow.symm.trans hrow'
    exact hne hunpublished
  refine ⟨h.issued.upkeep fun n row hrow => ⟨row, hget n row hrow, rfl⟩, h.positions, h.retained,
    h.retired, h.ordered, h.stamped, h.distinct, h.faithful,
    fun n row hrow => h.acknowledged n row (hget n row hrow), ?_, ?_⟩
  · intro event hevent
    obtain hid | ⟨row, hrow, hterminal⟩ := h.carried event hevent
    · exact Or.inl hid
    by_cases hunpublished : row.publishedAt = none
    · exact Or.inr ⟨row, hkeeps _ row hrow hunpublished, hterminal⟩
    · exact Or.inl ((h.acknowledged _ row hrow (by simp [hterminal])).mp hunpublished)
  · intro pending hpending
    obtain ⟨hnodup, hrows⟩ := h.claimed pending hpending
    refine ⟨hnodup, fun event hevent => ?_⟩
    obtain ⟨row, hrow, hwaits⟩ := hrows event hevent
    exact ⟨row, hkeeps _ row hrow (OutboxRow.pending_eq_some_iff.mp hwaits).1, hwaits⟩

theorem prune (h : Fed w) (now : Time) (limit : Int) :
    Fed { w with db := atomically (pruneMonitoringEvents now limit) w.db } := by
  obtain ⟨deleted, hok⟩ | hsame := atomically_cases (pruneMonitoringEvents now limit) w.db
  swap
  · rw [hsame]
    exact h
  obtain hsame | ⟨through, row, hrow, hdb⟩ := pruneMonitoringEvents_spec hok
  · rw [hsame]
    exact h
  rw [hdb]
  obtain ⟨hmem, -⟩ := (h.retained through row).mp hrow
  have hthrough : through ≤ w.db.feedState.headPosition := by
    have hin : through ∈ w.published.map Prod.fst := List.mem_map.mpr ⟨_, hmem, rfl⟩
    rw [h.positions, List.mem_range'_1] at hin
    omega
  refine ⟨h.issued.upkeep fun n row hrow => ⟨row, hrow, rfl⟩, h.positions, ?_,
    Nat.max_le.mpr ⟨h.retired, hthrough⟩, h.ordered, h.stamped, h.distinct, h.faithful,
    h.acknowledged, h.carried, h.claimed⟩
  intro p row
  rw [Table.get?_deleteWhere, Option.filter_eq_some_iff, h.retained, Bool.not_eq_true',
    decide_eq_false_iff_not, Nat.not_le, Nat.max_lt, and_assoc]

theorem configureRetention (h : Fed w) (retention : Int) :
    Fed { w with db := atomically (configureMonitoringRetention retention) w.db } := by
  obtain ⟨u, hok⟩ | hsame := atomically_cases (configureMonitoringRetention retention) w.db
  swap
  · rw [hsame]
    exact h
  simp only [configureMonitoringRetention, bind_ok_iff, pure_ok_iff, Prod.mk.injEq] at hok
  obtain ⟨-, -, -, hdb⟩ := hok
  rw [← hdb]
  exact ⟨h.issued.upkeep fun n row hrow => ⟨row, hrow, rfl⟩, h.positions, h.retained, h.retired,
    h.ordered, h.stamped, h.distinct, h.faithful, h.acknowledged, h.carried, h.claimed⟩

theorem unpublished_of_claimed (h : Fed w) (hclaimed : w.claimed = some pending)
    {event : PendingEvent} (hevent : event ∈ pending) : event.id ∉ w.publishedIds := by
  obtain ⟨row, hrow, hwaits⟩ := (h.claimed pending hclaimed).2 event hevent
  obtain ⟨hunpublished, -, -, hterminal⟩ := OutboxRow.pending_eq_some_iff.mp hwaits
  intro hmem
  exact (h.acknowledged _ row hrow (by simp [hterminal])).mpr hmem hunpublished

theorem absent_of_claimed (h : Fed w) (hclaimed : w.claimed = some pending) :
    ∀ event ∈ pending, ∀ p row, w.db.feed.get? p = some row → row.eventId ≠ event.id := by
  intro event hevent p row hrow heq
  have hmem := ((h.retained p row).mp hrow).1
  exact h.unpublished_of_claimed hclaimed hevent (heq ▸ List.mem_map.mpr ⟨_, hmem, rfl⟩)

theorem position_le (h : Fed w) {entry : Nat × FeedRow} (hentry : entry ∈ w.published) :
    entry.1 ≤ w.db.feedState.headPosition := by
  have hin : entry.1 ∈ w.published.map Prod.fst := List.mem_map.mpr ⟨entry, hentry, rfl⟩
  rw [h.positions, List.mem_range'_1] at hin
  omega

theorem newPositions_eq (h : Fed w) (hclaimed : w.claimed = some pending) {now : Time} {db : Db}
    (hok : appendMonitoringEvents now pending w.db = .ok db) : w.db.newPositions db =
      feedRows (max now w.db.feedState.lastPublishedAt) w.db.feedState.headPosition pending := by
  obtain ⟨feed, outbox, state, rfl, hfeed, -⟩ := appendMonitoringEvents_spec hok
    (h.claimed pending hclaimed).1 (h.absent_of_claimed hclaimed)
  show feed.entries.filter _ = _
  rw [hfeed, List.filter_append, List.filter_eq_nil_iff.mpr, List.filter_eq_self.mpr,
    List.nil_append]
  · exact fun entry hentry => decide_eq_true (mem_feedRows hentry).1
  · rintro ⟨p, row⟩ hentry
    rw [decide_eq_true_eq, Nat.not_lt]
    exact h.position_le ((h.retained p row).mp ((Table.get?_eq_some_iff _ _ _).mpr hentry)).1

theorem publish (h : Fed w) (hclaimed : w.claimed = some pending) {now : Time} {db : Db}
    (hok : appendMonitoringEvents now pending w.db = .ok db) :
    Fed { w with
      db := db, claimed := none, published := w.published ++ w.db.newPositions db } := by
  obtain ⟨hnodup, hrows⟩ := h.claimed pending hclaimed
  rw [h.newPositions_eq hclaimed hok]
  obtain ⟨feed, outbox, state, rfl, hfeed, houtbox, hhead, hretired, hlast, hstamp⟩ :=
    appendMonitoringEvents_spec hok hnodup (h.absent_of_claimed hclaimed)
  generalize hbatch : feedRows (max now w.db.feedState.lastPublishedAt)
    w.db.feedState.headPosition pending = batch at hfeed
  have hmem : ∀ entry ∈ batch, w.db.feedState.headPosition < entry.1 ∧ ∃ event ∈ pending,
      entry.2 = ⟨event.id, event.namespaceId, event.payload,
        max now w.db.feedState.lastPublishedAt⟩ := fun entry hentry =>
    mem_feedRows (hbatch ▸ hentry)
  have hstamped : ∀ t ∈ batch.map (·.2.publishedAt),
      t = max now w.db.feedState.lastPublishedAt := by
    intro t ht
    obtain ⟨entry, hentry, rfl⟩ := List.mem_map.mp ht
    obtain ⟨-, event, -, heq⟩ := hmem entry hentry
    rw [heq]
  have hids : batch.map (·.2.eventId) = pending.map (·.id) := by
    rw [← hbatch, map_eventId_feedRows]
  have hpublishedIds : (w.published ++ batch).map (·.2.eventId) =
      w.publishedIds ++ pending.map (·.id) := by
    rw [List.map_append, hids]
    rfl
  have hterminal : ∀ n row', outbox.get? n = some row' →
      ∃ row, w.db.outbox.get? n = some row ∧ row'.terminal = row.terminal ∧
        (row'.publishedAt ≠ none ↔ row.publishedAt ≠ none ∨ n ∈ pending.map (·.id)) := by
    intro n row' hrow'
    rw [houtbox] at hrow'
    obtain ⟨row, hrow, rfl⟩ := Option.map_eq_some_iff.mp hrow'
    refine ⟨row, hrow, ?_, ?_⟩
    · split <;> rfl
    · split <;> rename_i hin <;> simp [hin]
  refine ⟨h.issued.upkeep fun n row' hrow' => ?_, ?_, ?_, ?_, ?_, ?_, ?_, ?_, ?_, ?_,
    fun _ hnone => by cases hnone⟩
  · obtain ⟨row, hrow, hsame, -⟩ := hterminal n row' hrow'
    exact ⟨row, hrow, hsame⟩
  · rw [List.map_append, h.positions, ← hbatch, map_fst_feedRows, hhead, Nat.add_comm _ 1,
      List.range'_append_1]
  · intro p row
    rw [Table.get?_eq_some_iff, hfeed, List.mem_append, List.mem_append, hretired,
      ← Table.get?_eq_some_iff, h.retained, or_and_right]
    refine or_congr Iff.rfl ⟨fun hin => ⟨hin, ?_⟩, And.left⟩
    exact Nat.lt_of_le_of_lt h.retired (hmem _ hin).1
  · rw [hretired, hhead]
    exact h.retired.trans (Nat.le_add_right _ _)
  · rw [List.map_append, List.pairwise_append]
    refine ⟨h.ordered, ?_, ?_⟩
    · refine List.pairwise_of_forall_mem_list ?_
      intro a ha b hb
      rw [hstamped a ha, hstamped b hb]
    · intro a ha b hb
      obtain ⟨entry, hentry, rfl⟩ := List.mem_map.mp ha
      rw [hstamped b hb]
      exact (h.stamped entry hentry).trans (Nat.le_max_right _ _)
  · intro entry hentry
    obtain hin | hin := List.mem_append.mp hentry
    · exact (h.stamped entry hin).trans hlast
    · obtain ⟨-, event, hevent, heq⟩ := hmem entry hin
      rw [heq, hstamp (List.ne_nil_of_mem hevent)]
  · show ((w.published ++ batch).map (·.2.eventId)).Nodup
    rw [hpublishedIds, List.nodup_append]
    refine ⟨h.distinct, hnodup, ?_⟩
    rintro n hn n' hn' rfl
    obtain ⟨event, hevent, rfl⟩ := List.mem_map.mp hn'
    exact h.unpublished_of_claimed hclaimed hevent hn
  · intro entry hentry
    obtain hin | hin := List.mem_append.mp hentry
    · exact h.faithful entry hin
    · obtain ⟨-, event, hevent, heq⟩ := hmem entry hin
      obtain ⟨row, hrow, hwaits⟩ := hrows event hevent
      rw [heq]
      exact h.issued.stored _ row _ hrow (OutboxRow.pending_eq_some_iff.mp hwaits).2.2.2
  · intro n row' hrow' hne
    obtain ⟨row, hrow, hsame, hpublished⟩ := hterminal n row' hrow'
    show _ ↔ n ∈ (w.published ++ batch).map (·.2.eventId)
    rw [hpublished, hpublishedIds, List.mem_append, h.acknowledged n row hrow (hsame ▸ hne)]
  · intro event hevent
    show event.1 ∈ (w.published ++ batch).map (·.2.eventId) ∨ _
    rw [hpublishedIds, List.mem_append]
    obtain hin | ⟨row, hrow, hrowterminal⟩ := h.carried event hevent
    · exact Or.inl (Or.inl hin)
    · refine Or.inr ⟨_, (houtbox event.1).trans (by rw [hrow]; rfl), ?_⟩
      rw [← hrowterminal]
      split <;> rfl

theorem step (h : Fed w) (hnext : w.next codec s = some w') (hfresh : w.fresh codec s = true) :
    Fed w' := by
  cases s with
  | commit call =>
      cases hnext
      exact h.commit call hfresh
  | claim limit =>
      obtain ⟨-, heq⟩ := Option.ite_none_right_eq_some.mp hnext
      cases heq
      exact h.claim limit
  | publish now =>
      obtain ⟨pending, hclaimed, rfl⟩ := Option.map_eq_some_iff.mp hnext
      split
      · rename_i db hok
        exact h.publish hclaimed hok
      · exact h.release
  | abandon =>
      cases hnext
      exact h.release
  | prune now limit =>
      obtain ⟨-, heq⟩ := Option.ite_none_right_eq_some.mp hnext
      cases heq
      exact h.prune now limit
  | pruneOperational now order limit =>
      cases hnext
      exact h.pruneOperational now order limit
  | configureRetention retention =>
      obtain ⟨-, heq⟩ := Option.ite_none_right_eq_some.mp hnext
      cases heq
      exact h.configureRetention retention

theorem reached (h : Transition.Reaches (fun w s w' => Monitoring.next codec w s = some w')
    (fun w s => w.fresh codec s = true) .initial w) : Fed w :=
  h.invariant initial fun _ _ _ hw hfresh hnext => hw.step hnext hfresh

theorem position_iff (h : Fed w) (p : Nat) : (∃ row, w.db.feed.get? p = some row) ↔
    w.db.feedState.retiredThrough < p ∧ p ≤ w.db.feedState.headPosition := by
  have hin : (∃ row, (p, row) ∈ w.published) ↔ 1 ≤ p ∧ p < 1 + w.db.feedState.headPosition := by
    rw [← List.mem_range'_1, ← h.positions, List.mem_map]
    simp only [Prod.exists, exists_and_right, exists_eq_right]
  simp only [h.retained, exists_and_right, hin]
  omega

theorem publishedAt_le (h : Fed w) {p q : Nat} {row row' : FeedRow}
    (hp : (p, row) ∈ w.published) (hq : (q, row') ∈ w.published) (hle : p ≤ q) :
    row.publishedAt ≤ row'.publishedAt := by
  have hincreasing : w.published.Pairwise fun a b => a.1 < b.1 :=
    List.pairwise_map.mp (h.positions ▸ List.pairwise_lt_range')
  exact le_of_pairwise (hincreasing.and (List.pairwise_map.mp h.ordered)) hp hq hle

/-- A step of the feed only adds positions beyond the head, and only by publishing
what was claimed. -/
theorem published_next (h : Fed w) (hnext : w.next codec s = some w') :
    ∃ added, w'.published = w.published ++ added ∧
      ∀ entry ∈ added, w.db.feedState.headPosition < entry.1 ∧ (∃ now, s = .publish now) ∧
        ∃ pending, w.claimed = some pending ∧
          ∃ event ∈ pending, entry.2.payload = event.payload := by
  have hnone : ∀ P : Nat × FeedRow → Prop,
      ∃ added, w.published = w.published ++ added ∧ ∀ entry ∈ added, P entry := fun _ =>
    ⟨[], (List.append_nil _).symm, fun _ hentry => absurd hentry List.not_mem_nil⟩
  cases s with
  | commit | abandon | pruneOperational =>
      cases hnext
      exact hnone _
  | claim | prune | configureRetention =>
      obtain ⟨-, heq⟩ := Option.ite_none_right_eq_some.mp hnext
      cases heq
      exact hnone _
  | publish now =>
      obtain ⟨pending, hclaimed, rfl⟩ := Option.map_eq_some_iff.mp hnext
      split
      · rename_i db hok
        refine ⟨w.db.newPositions db, rfl, fun entry hentry => ?_⟩
        rw [h.newPositions_eq hclaimed hok] at hentry
        obtain ⟨hbeyond, event, hevent, heq⟩ := mem_feedRows hentry
        exact ⟨hbeyond, ⟨now, rfl⟩, pending, hclaimed, event, hevent, by rw [heq]⟩
      · exact hnone _

theorem head_le (h : Fed w) (h' : Fed w') (hnext : w.next codec s = some w') :
    w.db.feedState.headPosition ≤ w'.db.feedState.headPosition := by
  obtain ⟨added, hpublished, -⟩ := h.published_next hnext
  have hlength : w.published.length = w.db.feedState.headPosition := by
    rw [← List.length_map, h.positions, List.length_range']
  have hlength' : w'.published.length = w'.db.feedState.headPosition := by
    rw [← List.length_map, h'.positions, List.length_range']
  rw [← hlength, ← hlength', hpublished, List.length_append]
  exact Nat.le_add_right _ _

end Fed

/-- In every state: the feed has the positions from the retired ones to the head, in
the order of their publication; no event was ever given two positions; and each
terminal job has one event, with its outcome and the revision it became terminal
with, while no other job has any. -/
theorem monitoring_feed_exact {codec : Codec} {w : Monitoring}
    (hrun : Transition.Reaches (fun w s w' => Monitoring.next codec w s = some w')
      (fun w s => w.fresh codec s = true) .initial w) :
    (∀ p, (∃ row, w.db.feed.get? p = some row) ↔
      w.db.feedState.retiredThrough < p ∧ p ≤ w.db.feedState.headPosition) ∧
    (∀ p q row row', w.db.feed.get? p = some row → w.db.feed.get? q = some row' → p ≤ q →
      row.publishedAt ≤ row'.publishedAt) ∧
    w.published.map Prod.fst = List.range' 1 w.db.feedState.headPosition ∧
    w.publishedIds.Nodup ∧
    (∀ p row, w.db.feed.get? p = some row → (p, row) ∈ w.published) ∧
    (∀ entry ∈ w.published, (entry.2.eventId, entry.2.payload) ∈ w.issued) ∧
    (∀ event ∈ w.issued, event.1 ∈ w.publishedIds ∨
      ∃ row, w.db.outbox.get? event.1 = some row ∧ row.terminal = some event.2) ∧
    (∀ j job o, w.db.jobs.get? j = some job → job.progress = .terminal o →
      ∃ n transition, (w.issued.filter fun event => event.2.jobId = j) = [(n, transition)] ∧
        transition.outcome = o ∧ transition.jobRevision = job.revision) ∧
    ∀ j, (∀ job o, w.db.jobs.get? j = some job → job.progress ≠ .terminal o) →
      (w.issued.filter fun event => event.2.jobId = j) = [] := by
  have h := Fed.reached hrun
  refine ⟨h.position_iff, ?_, h.positions, h.distinct,
    fun p row hrow => ((h.retained p row).mp hrow).1, h.faithful, h.carried, ?_, ?_⟩
  · intro p q row row' hrow hrow'
    exact h.publishedAt_le ((h.retained p row).mp hrow).1 ((h.retained q row').mp hrow').1
  · intro j job o hjob ho
    exact h.issued.filter_eq_singleton (Db.board_job hjob) ho
  · intro j hlive
    refine h.issued.filter_eq_nil ?_
    intro J o hJ ho
    obtain ⟨job, hjob, rfl⟩ := Db.board_job_eq_some.mp hJ
    exact hlive job o hjob ho

namespace Sample

/-- The first node of the graph fails, the second is skipped, and both are published; the
outbox rows are pruned long after. -/
def publishedGraph : List MonitoringStep :=
  [.commit ⟨env 0, .configure configuration⟩,
    .commit ⟨env 1, .submitGraph authorization "submit-graph-1" graphIds graph⟩] ++
  (firstNode .failure).map .commit ++
  [.claim 10, .publish 5, .pruneOperational 100 ⟨fun _ => 0, id⟩ 10]

end Sample

theorem monitoring_feed_exact_graph :
    ∃ w : Monitoring, w.db.outbox.get? 1010 = none ∧
      (∃ row, w.db.feed.get? 1 = some row) ∧ (∃ row, w.db.feed.get? 2 = some row) ∧
      ∃ n transition, (w.issued.filter fun event => event.2.jobId = 10) = [(n, transition)] ∧
        transition.outcome = .failure := by
  have hrun : ((Transition.exec (fun w s => if w.fresh Sample.codec s then
      Monitoring.next Sample.codec w s else none) .initial Sample.publishedGraph).map fun w =>
        (w.db.outbox.get? 1010, w.db.feedState.headPosition, w.db.feedState.retiredThrough,
          (w.db.jobs.get? 10).map (·.progress))) =
      some (none, 2, 0, some (.terminal .failure)) := by
    decide
  obtain ⟨w, hw, heq⟩ := Option.map_eq_some_iff.mp hrun
  simp only [Prod.mk.injEq, Option.map_eq_some_iff] at heq
  obtain ⟨hpruned, hhead, hretired, job, hjob, ho⟩ := heq
  obtain ⟨hposition, -, -, -, -, -, -, hone, -⟩ :=
    monitoring_feed_exact (Transition.reaches_of_exec hw)
  obtain ⟨n, transition, hfilter, houtcome, -⟩ := hone 10 job .failure hjob ho
  refine ⟨w, hpruned, (hposition 1).mpr ?_, (hposition 2).mpr ?_, n, transition, hfilter, houtcome⟩
  · rw [hhead, hretired]
    decide
  · rw [hhead, hretired]
    decide

end JobmanControl
