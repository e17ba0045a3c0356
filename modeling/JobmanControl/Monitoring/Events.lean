import JobmanControl.Lifecycle.Announcement
import JobmanControl.Monitoring.Publication

/-!
The monitoring feed over whole runs. Job transactions commit, publishers claim and
publish, the feed is pruned by age, the outbox is pruned by age, and the retention
changes, in any order. Beside the tables a state keeps what happened: every event
that was recorded for a job, and every row that was ever given a position.
-/

namespace JobmanControl

open Relational Lifecycle

/-- `claimed` is what the publisher that holds the lock of the feed has read. -/
structure Monitoring where
  db : Db
  claimed : Option (List PendingEvent)
  published : List (Nat × FeedRow)
  issued : List (Id × TerminalTransition)

inductive MonitoringStep
  | commit (call : Call)
  | claim (limit : Int)
  | publish (now : Time)
  | abandon
  | prune (now : Time) (limit : Int)
  | pruneOperational (now : Time) (order : ScanOrder) (limit : Int)
  | configureRetention (retention : Int)

def Db.newEvents (db db' : Db) : List (Id × TerminalTransition) :=
  (db'.outbox.select fun n _ => (db.outbox.get? n).isNone).filterMap fun entry =>
    entry.2.terminal.map fun transition => (entry.1, transition)

def Db.newPositions (db db' : Db) : List (Nat × FeedRow) :=
  db'.feed.select fun position _ => db.feedState.headPosition < position

namespace Monitoring

def initial : Monitoring := ⟨.empty, none, [], []⟩

/-- A publisher holds the lock from its claim to its end; pruning the feed and
changing its retention wait for that lock, everything else does not. -/
def next (codec : Codec) (w : Monitoring) : MonitoringStep → Option Monitoring
  | .commit call =>
      let db := call.apply codec w.db
      some { w with db := db, issued := w.issued ++ w.db.newEvents db }
  | .claim limit =>
      if w.claimed = none then
        some { w with claimed := (claimMonitoringEvents limit w.db).toOption }
      else none
  | .publish now => w.claimed.map fun pending =>
      match appendMonitoringEvents now pending w.db with
      | .ok db =>
          { w with db := db, claimed := none, published := w.published ++ w.db.newPositions db }
      | .error _ => { w with claimed := none }
  | .abandon => some { w with claimed := none }
  | .prune now limit =>
      if w.claimed = none then
        some { w with db := atomically (pruneMonitoringEvents now limit) w.db }
      else none
  | .pruneOperational now order limit =>
      some { w with db := atomically (pruneOperationalData now order limit) w.db }
  | .configureRetention retention =>
      if w.claimed = none then
        some { w with db := atomically (configureMonitoringRetention retention) w.db }
      else none

/-- `gen_random_uuid()` does not return the identity of an event that has left the outbox. -/
def fresh (codec : Codec) (w : Monitoring) : MonitoringStep → Bool
  | .commit call => w.issued.all fun event =>
      (w.db.outbox.get? event.1).isSome || ((call.apply codec w.db).outbox.get? event.1).isNone
  | _ => true

end Monitoring

theorem mem_newEvents {db db' : Db} {n : Id} {transition : TerminalTransition} :
    (n, transition) ∈ db.newEvents db' ↔ db.outbox.get? n = none ∧
      ∃ row, db'.outbox.get? n = some row ∧ row.terminal = some transition := by
  simp only [Db.newEvents, List.mem_filterMap, Prod.exists, Table.mem_select,
    Option.map_eq_some_iff, Option.isNone_iff_eq_none, Prod.mk.injEq]
  constructor
  · rintro ⟨_, row, ⟨hrow, hnone⟩, _, hterminal, rfl, rfl⟩
    exact ⟨hnone, row, hrow, hterminal⟩
  · rintro ⟨hnone, row, hrow, hterminal⟩
    exact ⟨n, row, ⟨hrow, hnone⟩, transition, hterminal, rfl, rfl⟩

theorem nodup_newEvents (db db' : Db) : ((db.newEvents db').map Prod.fst).Nodup := by
  refine List.Nodup.sublist ?_
    (db'.outbox.nodup_map_fst_select fun n _ => (db.outbox.get? n).isNone)
  rw [Db.newEvents]
  generalize db'.outbox.select _ = rows
  induction rows with
  | nil => exact List.Sublist.refl _
  | cons entry rest ih =>
      rw [List.filterMap_cons, List.map_cons]
      cases entry.2.terminal with
      | none => exact ih.cons _
      | some transition => exact ih.cons_cons _

theorem OutboxRow.notice_eq (row : OutboxRow) : row.notice = row.terminal.map fun transition =>
    ⟨transition.jobId, transition.outcome, transition.jobRevision⟩ := by
  unfold OutboxRow.notice OutboxRow.terminal
  cases row.message <;> rfl

/-! The events that are recorded for jobs. -/

/-- Every terminal job has its one event, and every event is that of a terminal job. -/
structure Issued (db : Db) (issued : List (Id × TerminalTransition)) : Prop where
  coupled : Coupled db.board
  wired : Wired db.board
  stored : ∀ n row transition, db.outbox.get? n = some row → row.terminal = some transition →
    (n, transition) ∈ issued
  distinct : (issued.map Prod.fst).Nodup
  sound : ∀ event ∈ issued, ∃ J, db.board.job event.2.jobId = some J ∧
    J.progress = .terminal event.2.outcome ∧ J.revision = event.2.jobRevision
  complete : ∀ j J o, db.board.job j = some J → J.progress = .terminal o →
    ∃ event ∈ issued, event.2.jobId = j
  single : ∀ event ∈ issued, ∀ event' ∈ issued, event.2.jobId = event'.2.jobId → event = event'

namespace Issued

variable {db db' : Db} {issued : List (Id × TerminalTransition)}

theorem upkeep (h : Issued db issued) {idempotency : Table IdempotencyKey IdempotencyRow}
    {outbox : Table Id OutboxRow} {feed : Table Nat FeedRow} {state : FeedState}
    (houtbox : ∀ n row', outbox.get? n = some row' →
      ∃ row, db.outbox.get? n = some row ∧ row'.terminal = row.terminal) :
    Issued { db with idempotency, outbox, feed, feedState := state } issued := by
  refine ⟨h.coupled.congr rfl rfl rfl rfl rfl, ?_, ?_, h.distinct, h.sound, h.complete, h.single⟩
  · exact ⟨h.wired.enrolled, h.wired.published, h.wired.housed, h.wired.upstream,
      h.wired.downstream⟩
  · intro n row' transition hrow' hterminal
    obtain ⟨row, hrow, hsame⟩ := houtbox n row' hrow'
    exact h.stored n row transition hrow (hsame ▸ hterminal)

theorem notice_of_terminal {n : Id} {row : OutboxRow} {transition : TerminalTransition}
    (hrow : db.outbox.get? n = some row) (hterminal : row.terminal = some transition) :
    db.board.notice n =
      some ⟨transition.jobId, transition.outcome, transition.jobRevision⟩ := by
  show (db.outbox.get? n).bind OutboxRow.notice = _
  rw [hrow, Option.bind_some, OutboxRow.notice_eq, hterminal]
  rfl

theorem terminal_of_notice {n : Id} {N : Notice} (h : db.board.notice n = some N) :
    ∃ row transition, db.outbox.get? n = some row ∧ row.terminal = some transition ∧
      N = ⟨transition.jobId, transition.outcome, transition.jobRevision⟩ := by
  obtain ⟨row, hrow, hnotice⟩ := Option.bind_eq_some_iff.mp h
  rw [OutboxRow.notice_eq] at hnotice
  obtain ⟨transition, hterminal, rfl⟩ := Option.map_eq_some_iff.mp hnotice
  exact ⟨row, transition, hrow, hterminal, rfl⟩

theorem commit (h : Issued db issued) {env : Env} {M : Licence}
    (hmoves : Moves M db.board db'.board) (hemits : Emits env db db')
    (hfresh : ∀ event ∈ issued, db.outbox.get? event.1 ≠ none ∨ db'.outbox.get? event.1 = none) :
    Issued db' (issued ++ db.newEvents db') := by
  have hann := hmoves.announces h.coupled
  have hnew : ∀ event ∈ db.newEvents db', db.board.notice event.1 = none ∧
      db'.board.notice event.1 =
        some ⟨event.2.jobId, event.2.outcome, event.2.jobRevision⟩ := by
    rintro ⟨n, transition⟩ hevent
    obtain ⟨hnone, row, hrow, hterminal⟩ := mem_newEvents.mp hevent
    refine ⟨?_, notice_of_terminal hrow hterminal⟩
    show (db.outbox.get? n).bind OutboxRow.notice = none
    rw [hnone]
    rfl
  -- The job of an event that was there before is terminal already.
  have hapart : ∀ event ∈ issued, ∀ event' ∈ db.newEvents db', event.2.jobId ≠ event'.2.jobId := by
    intro event hevent event' hevent' hjob
    obtain ⟨J, hJ, ho, -⟩ := h.sound event hevent
    obtain ⟨hnone, hsome⟩ := hnew event' hevent'
    exact (hann.sound _ _ hnone hsome).2 J _ (hjob ▸ hJ) ho
  refine ⟨hmoves.coupled h.coupled, hmoves.wired h.coupled h.wired, ?_, ?_, ?_, ?_, ?_⟩
  · intro n row transition hrow hterminal
    rw [List.mem_append]
    cases hold : db.outbox.get? n with
    | none => exact Or.inr (mem_newEvents.mpr ⟨hold, row, hrow, hterminal⟩)
    | some row' =>
        cases (hemits.kept n row' hold).symm.trans hrow
        exact Or.inl (h.stored n row transition hold hterminal)
  · rw [List.map_append, List.nodup_append]
    refine ⟨h.distinct, nodup_newEvents db db', ?_⟩
    rintro n hn n' hn' rfl
    obtain ⟨event, hevent, hid⟩ := List.mem_map.mp hn
    obtain ⟨event', hevent', hid'⟩ := List.mem_map.mp hn'
    obtain ⟨hnone, row, hrow, -⟩ := mem_newEvents.mp hevent'
    obtain hkept | hgone := hfresh event hevent
    · exact hkept (by rw [hid, ← hid']; exact hnone)
    · rw [hid, ← hid'] at hgone
      cases hgone.symm.trans hrow
  · intro event hevent
    obtain hold | hadded := List.mem_append.mp hevent
    · obtain ⟨J, hJ, ho, hrevision⟩ := h.sound event hold
      exact ⟨J, hann.terminal _ J _ hJ ho, ho, hrevision⟩
    · obtain ⟨hnone, hsome⟩ := hnew event hadded
      exact (hann.sound _ _ hnone hsome).1
  · intro j J o hJ ho
    obtain hold | ⟨n, hfree, hannounced⟩ := hann.complete j J o hJ ho
    · obtain ⟨event, hevent, hj⟩ := h.complete j J o hold ho
      exact ⟨event, List.mem_append_left _ hevent, hj⟩
    · obtain ⟨row, transition, hrow, hterminal, hnotice⟩ := terminal_of_notice hannounced
      have hnone : db.outbox.get? n = none := by
        cases hold : db.outbox.get? n with
        | none => rfl
        | some row' =>
            cases (hemits.kept n row' hold).symm.trans hrow
            cases hfree.symm.trans (notice_of_terminal hold hterminal)
      refine ⟨(n, transition), List.mem_append_right _ (mem_newEvents.mpr
        ⟨hnone, row, hrow, hterminal⟩), ?_⟩
      exact (congrArg Notice.jobId hnotice).symm
  · intro event hevent event' hevent' hjob
    obtain hold | hadded := List.mem_append.mp hevent <;>
      obtain hold' | hadded' := List.mem_append.mp hevent'
    · exact h.single event hold event' hold' hjob
    · exact absurd hjob (hapart event hold event' hadded')
    · exact absurd hjob.symm (hapart event' hold' event hadded)
    · obtain ⟨hnone, hsome⟩ := hnew event hadded
      obtain ⟨hnone', hsome'⟩ := hnew event' hadded'
      have hid := hann.once _ _ _ _ hnone hnone' hsome hsome' hjob
      exact List.inj_on_of_nodup_map (nodup_newEvents db db') hadded hadded' hid

/-- The one event of a terminal job. -/
theorem filter_eq_singleton (h : Issued db issued) {j : Id} {J : JobFacts} {o : Outcome}
    (hJ : db.board.job j = some J) (ho : J.progress = .terminal o) :
    ∃ n transition, (issued.filter fun event => event.2.jobId = j) = [(n, transition)] ∧
      transition.outcome = o ∧ transition.jobRevision = J.revision := by
  obtain ⟨⟨n, transition⟩, hevent, rfl⟩ := h.complete j J o hJ ho
  obtain ⟨J', hJ', ho', hrevision⟩ := h.sound _ hevent
  cases hJ.symm.trans hJ'
  cases ho.symm.trans ho'
  refine ⟨n, transition, ?_, rfl, hrevision.symm⟩
  refine List.perm_singleton.mp ((List.perm_ext_iff_of_nodup ?_ (List.nodup_singleton _)).mpr ?_)
  · exact (List.Nodup.of_map _ h.distinct).filter _
  · intro event
    rw [List.mem_filter, List.mem_singleton, decide_eq_true_eq]
    constructor
    · rintro ⟨hmem, hj⟩
      exact h.single event hmem _ hevent hj
    · rintro rfl
      exact ⟨hevent, rfl⟩

theorem filter_eq_nil (h : Issued db issued) {j : Id}
    (hlive : ∀ J o, db.board.job j = some J → J.progress ≠ .terminal o) :
    (issued.filter fun event => event.2.jobId = j) = [] := by
  rw [List.filter_eq_nil_iff]
  intro event hevent
  rw [decide_eq_true_eq]
  rintro rfl
  obtain ⟨J, hJ, ho, -⟩ := h.sound event hevent
  exact hlive J _ hJ ho

end Issued

end JobmanControl
