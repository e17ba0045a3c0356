import Mathlib.Data.List.MinMax
import Mathlib.Order.Nat
import JobmanControl.Authority.Frame
import JobmanControl.Store.Audit

/-!
Exporting audit events while they are written. A transaction draws the identity of
an audit row when it inserts the row, and the row becomes visible when it commits;
a client resumes after the largest identity it has received. Whenever a page is
read while an open transaction holds a smaller identity of the namespace, the
client passes over a row that commits later. Without that it receives every event
once.
-/

namespace JobmanControl

open Relational

variable {writer : Nat} {now : Time} {limit : Int} {primitives : Primitives} {client : Principal}
  {name : String} {n : Id} {page : AuditPage}

/-- The audit table, the transactions that have rows in it but have not committed,
and what the client has received. -/
structure AuditWorld where
  authority : Authority
  drawn : Nat
  committed : Table Nat AuditEntryRow
  writers : Table Nat (List (Nat × AuditEntryRow))
  received : List AuditEvent

inductive AuditStep
  | authority (call : AuthorityCall)
  | start (writer : Nat)
  | write (writer : Nat) (row : AuditEntryRow)
  | commit (writer : Nat)
  | rollback (writer : Nat)
  | page (now : Time) (limit : Int)

namespace AuditWorld

def initial (authority : Authority) : AuditWorld := ⟨authority, 0, .empty, .empty, []⟩

def lastId (w : AuditWorld) : Nat := (w.received.map (·.id)).foldr max 0

variable (primitives : Primitives) (client : Principal) (name : String)

/-- A failed export leaves the client where it was. -/
def next (w : AuditWorld) : AuditStep → Option AuditWorld
  | .authority call => some { w with authority := call.apply primitives w.authority }
  | .start writer => (w.writers.insert? writer []).map fun t => { w with writers := t }
  | .write writer row => (w.writers.get? writer).map fun _ =>
      { w with
        drawn := w.drawn + 1
        writers := w.writers.modify writer fun rows => rows ++ [(w.drawn + 1, row)] }
  | .commit writer => do
      let rows ← w.writers.get? writer
      let committed ← w.committed.insertAll rows
      pure { w with
        committed := committed
        writers := w.writers.deleteWhere fun i _ => i = writer }
  | .rollback writer => some
      { w with writers := w.writers.deleteWhere fun i _ => i = writer }
  | .page now limit =>
      match exportAudit w.authority w.committed now client name w.lastId limit with
      | .ok page => some { w with received := w.received ++ page.items }
      | .error _ => some w

/-- No open transaction holds an identity of the namespace below one that the page
returns. -/
def settled (n : Id) (w : AuditWorld) : AuditStep → Bool
  | .page now limit =>
      match exportAudit w.authority w.committed now client name w.lastId limit with
      | .ok page => w.writers.entries.all fun writer => writer.2.all fun pending =>
          pending.2.namespaceId ≠ n || page.items.all fun event => event.id < pending.1
      | .error _ => true
  | _ => true

end AuditWorld

namespace AuditWorld

variable {w w' : AuditWorld}

theorem id_le_lastId {event : AuditEvent} (h : event ∈ w.received) : event.id ≤ w.lastId :=
  List.le_max_of_le (List.mem_map.mpr ⟨event, h, rfl⟩) (Nat.le_refl _)

theorem lastId_cases (w : AuditWorld) :
    w.lastId = 0 ∨ ∃ event ∈ w.received, event.id = w.lastId := by
  by_cases hnil : w.received.map (·.id) = []
  · exact Or.inl (by rw [lastId, hnil]; rfl)
  · exact Or.inr (List.mem_map.mp (List.maximum_mem (List.foldr_max_of_ne_nil hnil).symm))

/-- The client has received exactly the committed events up to its cursor, and
everything that is still to be committed comes after it. -/
structure Exported (name : String) (n : Id) (w : AuditWorld) : Prop where
  named : w.authority.namespaceNamed name = some n
  committedDrawn : ∀ id row, w.committed.get? id = some row → id ≤ w.drawn
  pendingDrawn : ∀ i rows, w.writers.get? i = some rows → ∀ pending ∈ rows, pending.1 ≤ w.drawn
  sound : ∀ event ∈ w.received, ∃ row, w.committed.get? event.id = some row ∧
    row.namespaceId = n ∧ event = row.event name event.id
  exact : ∀ id row, w.committed.get? id = some row → row.namespaceId = n → id ≤ w.lastId →
    row.event name id ∈ w.received
  once : (w.received.map (·.id)).Nodup
  ahead : ∀ i rows, w.writers.get? i = some rows → ∀ pending ∈ rows,
    pending.2.namespaceId = n → w.lastId < pending.1

namespace Exported

theorem lastId_le_drawn (h : Exported name n w) : w.lastId ≤ w.drawn := by
  obtain hzero | ⟨event, hevent, hlast⟩ := w.lastId_cases
  · rw [hzero]
    exact Nat.zero_le _
  · obtain ⟨row, hrow, -⟩ := h.sound event hevent
    rw [← hlast]
    exact h.committedDrawn event.id row hrow

theorem start (h : Exported name n w) {t : Table Nat (List (Nat × AuditEntryRow))}
    (hinsert : w.writers.insert? writer [] = some t) : Exported name n { w with writers := t } := by
  have hget := Table.get?_insert hinsert
  have hnone : ∀ i rows, t.get? i = some rows → ∀ pending ∈ rows,
      ∃ rows', w.writers.get? i = some rows' ∧ pending ∈ rows' := by
    intro i rows hrows pending hpending
    rw [hget] at hrows
    split at hrows
    · cases hrows
      exact absurd hpending List.not_mem_nil
    · exact ⟨rows, hrows, hpending⟩
  refine ⟨h.named, h.committedDrawn, ?_, h.sound, h.exact, h.once, ?_⟩
  · intro i rows hrows pending hpending
    obtain ⟨rows', hrows', hmem⟩ := hnone i rows hrows pending hpending
    exact h.pendingDrawn i rows' hrows' pending hmem
  · intro i rows hrows pending hpending
    obtain ⟨rows', hrows', hmem⟩ := hnone i rows hrows pending hpending
    exact h.ahead i rows' hrows' pending hmem

theorem write (h : Exported name n w) (writer : Nat) (row : AuditEntryRow) :
    Exported name n { w with
      drawn := w.drawn + 1
      writers := w.writers.modify writer fun rows => rows ++ [(w.drawn + 1, row)] } := by
  have hold : ∀ i rows, (w.writers.modify writer fun rows => rows ++ [(w.drawn + 1, row)]).get? i =
      some rows → ∀ pending ∈ rows, pending = (w.drawn + 1, row) ∨
        ∃ rows', w.writers.get? i = some rows' ∧ pending ∈ rows' := by
    intro i rows hrows pending hpending
    rw [Table.get?_modify] at hrows
    split at hrows
    · obtain ⟨rows', hrows', rfl⟩ := Option.map_eq_some_iff.mp hrows
      rw [List.mem_append, List.mem_singleton] at hpending
      exact hpending.symm.imp id fun hmem => ⟨rows', hrows', hmem⟩
    · exact Or.inr ⟨rows, hrows, hpending⟩
  refine ⟨h.named, ?_, ?_, h.sound, h.exact, h.once, ?_⟩
  · intro id row hrow
    exact (h.committedDrawn id row hrow).trans (Nat.le_succ _)
  · intro i rows hrows pending hpending
    obtain rfl | ⟨rows', hrows', hmem⟩ := hold i rows hrows pending hpending
    · exact Nat.le_refl _
    · exact (h.pendingDrawn i rows' hrows' pending hmem).trans (Nat.le_succ _)
  · intro i rows hrows pending hpending hn
    obtain rfl | ⟨rows', hrows', hmem⟩ := hold i rows hrows pending hpending
    · exact Nat.lt_succ_of_le h.lastId_le_drawn
    · exact h.ahead i rows' hrows' pending hmem hn

theorem get?_remaining {i : Nat} {rows : List (Nat × AuditEntryRow)}
    (h : (w.writers.deleteWhere fun i _ => i = writer).get? i = some rows) :
    w.writers.get? i = some rows := by
  rw [Table.get?_deleteWhere, Option.filter_eq_some_iff] at h
  exact h.1

theorem rollback (h : Exported name n w) (writer : Nat) :
    Exported name n { w with writers := w.writers.deleteWhere fun i _ => i = writer } :=
  ⟨h.named, h.committedDrawn, fun i rows hrows => h.pendingDrawn i rows (get?_remaining hrows),
    h.sound, h.exact, h.once, fun i rows hrows => h.ahead i rows (get?_remaining hrows)⟩

theorem commit (h : Exported name n w) {rows : List (Nat × AuditEntryRow)}
    {t : Table Nat AuditEntryRow} (hrows : w.writers.get? writer = some rows)
    (hinsert : w.committed.insertAll rows = some t) :
    Exported name n { w with
      committed := t
      writers := w.writers.deleteWhere fun i _ => i = writer } := by
  have hget := Table.get?_insertAll hinsert
  refine ⟨h.named, ?_, fun i rows hrows => h.pendingDrawn i rows (get?_remaining hrows), ?_, ?_,
    h.once, fun i rows hrows => h.ahead i rows (get?_remaining hrows)⟩
  · intro id row hrow
    obtain hold | hnew := (hget id row).mp hrow
    · exact h.committedDrawn id row hold
    · exact h.pendingDrawn writer rows hrows (id, row) hnew
  · intro event hevent
    obtain ⟨row, hrow, hrest⟩ := h.sound event hevent
    exact ⟨row, (hget _ row).mpr (Or.inl hrow), hrest⟩
  · intro id row hrow hn hle
    obtain hold | hnew := (hget id row).mp hrow
    · exact h.exact id row hold hn hle
    · -- The rows that just became visible are beyond the cursor.
      have hlt := h.ahead writer rows hrows (id, row) hnew hn
      exact absurd (Nat.lt_of_lt_of_le hlt hle) (Nat.lt_irrefl _)

theorem page_items (h : Exported name n w)
    (hpage : exportAudit w.authority w.committed now client name w.lastId limit = .ok page) :
    (page.items.map (·.id)).Nodup ∧
      (∀ event ∈ page.items, w.lastId < event.id ∧ ∃ row, w.committed.get? event.id = some row ∧
        row.namespaceId = n ∧ event = row.event name event.id) ∧
      (∀ last ∈ page.items, ∀ id row, w.committed.get? id = some row → row.namespaceId = n →
        w.lastId < id → id ≤ last.id → row.event name id ∈ page.items) ∧
      (page.items = [] → ∀ id row, w.committed.get? id = some row → row.namespaceId = n →
        id ≤ w.lastId) := by
  obtain ⟨hlimit, hitems⟩ := exportAudit_items h.named hpage
  have hsorted := pairwise_orderBy Prod.fst (w.committed.nodup_map_fst_select fun id row =>
    row.namespaceId = n && (w.lastId : Int) < (id : Int))
  have hmem : ∀ id row, (id, row) ∈ orderBy (fun a b => a.1 ≤ b.1) (w.committed.select fun id row =>
      row.namespaceId = n && (w.lastId : Int) < (id : Int)) ↔
      w.committed.get? id = some row ∧ row.namespaceId = n ∧ w.lastId < id := by
    intro id row
    simp only [mem_orderBy, Table.mem_select, Bool.and_eq_true, decide_eq_true_eq, Int.ofNat_lt]
  generalize orderBy (fun a b : Nat × AuditEntryRow => decide (a.1 ≤ b.1)) _ = rows
    at hitems hsorted hmem
  rw [hitems]
  refine ⟨?_, ?_, ?_, ?_⟩
  · rw [List.map_map]
    exact List.pairwise_map.mpr ((hsorted.sublist (List.take_sublist _ _)).imp fun hlt => hlt.ne)
  · intro event hevent
    obtain ⟨⟨id, row⟩, hrow, rfl⟩ := List.mem_map.mp hevent
    obtain ⟨hget, hn, hlt⟩ := (hmem id row).mp (List.mem_of_mem_take hrow)
    exact ⟨hlt, row, hget, hn, rfl⟩
  · intro last hlast id row hget hn hlt hle
    obtain ⟨⟨id', row'⟩, hrow', rfl⟩ := List.mem_map.mp hlast
    have hin := mem_take_of_le hsorted hrow' ((hmem id row).mpr ⟨hget, hn, hlt⟩) hle
    exact List.mem_map.mpr ⟨(id, row), hin, rfl⟩
  · intro hempty id row hget hn
    by_contra hlt
    have hin := (hmem id row).mpr ⟨hget, hn, Nat.lt_of_not_le hlt⟩
    rcases List.take_eq_nil_iff.mp (List.map_eq_nil_iff.mp hempty) with hzero | hnil
    · omega
    · rw [hnil] at hin
      exact absurd hin List.not_mem_nil

theorem settled_page (h : settled client name n w (.page now limit) = true)
    (hpage : exportAudit w.authority w.committed now client name w.lastId limit = .ok page)
    {i : Nat} {pendings : List (Nat × AuditEntryRow)} (hi : w.writers.get? i = some pendings)
    {pending : Nat × AuditEntryRow} (hpending : pending ∈ pendings) (hn : pending.2.namespaceId = n)
    {event : AuditEvent} (hevent : event ∈ page.items) : event.id < pending.1 := by
  simp only [settled, hpage] at h
  have hwriter := List.all_eq_true.mp h (i, pendings) ((Table.get?_eq_some_iff _ _ _).mp hi)
  have hone := List.all_eq_true.mp hwriter pending hpending
  simp only [hn, ne_eq, not_true_eq_false, decide_false, Bool.false_or, List.all_eq_true,
    decide_eq_true_eq] at hone
  exact hone event hevent

theorem read (h : Exported name n w) (hsettled : settled client name n w (.page now limit) = true)
    (hpage : exportAudit w.authority w.committed now client name w.lastId limit = .ok page) :
    Exported name n { w with received := w.received ++ page.items } := by
  obtain ⟨hnodup, hsound, hcomplete, -⟩ := h.page_items hpage
  have hmem : ∀ event, event ∈ w.received ++ page.items ↔
      event ∈ w.received ∨ event ∈ page.items := fun event => List.mem_append
  -- The new cursor is the old one or the identity of an event of the page.
  have hlast : ({ w with received := w.received ++ page.items } : AuditWorld).lastId ≤ w.lastId ∨
      ∃ event ∈ page.items,
        event.id = ({ w with received := w.received ++ page.items } : AuditWorld).lastId := by
    obtain hzero | ⟨event, hevent, hid⟩ :=
      lastId_cases { w with received := w.received ++ page.items }
    · exact Or.inl (hzero ▸ Nat.zero_le _)
    · obtain hold | hnew := (hmem event).mp hevent
      · exact Or.inl (hid ▸ id_le_lastId hold)
      · exact Or.inr ⟨event, hnew, hid⟩
  refine ⟨h.named, h.committedDrawn, h.pendingDrawn, ?_, ?_, ?_, ?_⟩
  · intro event hevent
    obtain hold | hnew := (hmem event).mp hevent
    · exact h.sound event hold
    · exact (hsound event hnew).2
  · intro id row hrow hn hle
    rw [hmem]
    rcases Nat.lt_or_ge w.lastId id with hlt | hge
    · obtain hsame | ⟨last, hlast, hid⟩ := hlast
      · exact absurd (hlt.trans_le (hle.trans hsame)) (Nat.lt_irrefl _)
      · exact Or.inr (hcomplete last hlast id row hrow hn hlt (hid ▸ hle))
    · exact Or.inl (h.exact id row hrow hn hge)
  · rw [List.map_append, List.nodup_append]
    refine ⟨h.once, hnodup, ?_⟩
    rintro a ha b hb rfl
    obtain ⟨event, hevent, hid⟩ := List.mem_map.mp ha
    obtain ⟨event', hevent', hid'⟩ := List.mem_map.mp hb
    have hle := id_le_lastId hevent
    have hlt := (hsound event' hevent').1
    omega
  · intro i pendings hi pending hpending hn
    obtain hsame | ⟨last, hlast, hid⟩ := hlast
    · exact hsame.trans_lt (h.ahead i pendings hi pending hpending hn)
    · rw [← hid]
      exact settled_page hsettled hpage hi hpending hn hlast

theorem step (h : Exported name n w) {s : AuditStep}
    (hnext : w.next primitives client name s = some w')
    (hsettled : settled client name n w s = true) : Exported name n w' := by
  cases s with
  | authority call =>
      cases hnext
      refine { h with named := ?_ }
      show (call.apply primitives w.authority).namespaceNamed name = some n
      unfold AuthorityCall.apply
      split
      · rename_i db' hrun
        exact AuthorityCall.namespaceNamed_run hrun h.named
      · exact h.named
  | start writer =>
      obtain ⟨t, hinsert, rfl⟩ := Option.map_eq_some_iff.mp hnext
      exact h.start hinsert
  | write writer row =>
      obtain ⟨_, -, rfl⟩ := Option.map_eq_some_iff.mp hnext
      exact h.write writer row
  | commit writer =>
      simp only [next, Option.bind_eq_bind, Option.bind_eq_some_iff, Option.pure_def,
        Option.some.injEq] at hnext
      obtain ⟨rows, hrows, t, hinsert, rfl⟩ := hnext
      exact h.commit hrows hinsert
  | rollback writer =>
      cases hnext
      exact h.rollback writer
  | page now limit =>
      simp only [next] at hnext
      split at hnext <;> cases hnext
      · rename_i page hpage
        exact h.read hsettled hpage
      · exact h

theorem initial {authority : Authority} (h : authority.namespaceNamed name = some n) :
    Exported name n (AuditWorld.initial authority) where
  named := h
  committedDrawn _ _ hrow := by cases hrow
  pendingDrawn _ _ hrow := by cases hrow
  sound _ hevent := absurd hevent List.not_mem_nil
  exact _ _ hrow := by cases hrow
  once := List.nodup_nil
  ahead _ _ hrow := by cases hrow

theorem received_iff (h : Exported name n w)
    (hpage : exportAudit w.authority w.committed now client name w.lastId limit = .ok page)
    (hempty : page.items = []) (event : AuditEvent) :
    event ∈ w.received ↔ ∃ row, w.committed.get? event.id = some row ∧
      row.namespaceId = n ∧ event = row.event name event.id := by
  constructor
  · exact h.sound event
  · rintro ⟨row, hrow, hn, hevent⟩
    have hle := (h.page_items hpage).2.2.2 hempty event.id row hrow hn
    rw [hevent]
    exact h.exact event.id row hrow hn hle

end Exported

end AuditWorld

/-- As long as no page is read over a pending identity of the namespace, a client that
has reached an empty page has received every committed event once, whether or not
writers of later identities are still at work. -/
theorem audit_export_complete {authority : Authority} {w : AuditWorld}
    (hname : authority.namespaceNamed name = some n)
    (hrun : Transition.Reaches (fun w s w' => AuditWorld.next primitives client name w s = some w')
      (fun w s => AuditWorld.settled client name n w s = true) (.initial authority) w)
    (hpage : exportAudit w.authority w.committed now client name w.lastId limit = .ok page)
    (hempty : page.items = []) :
    (w.received.map (·.id)).Nodup ∧
      ∀ event, event ∈ w.received ↔ ∃ row, w.committed.get? event.id = some row ∧
        row.namespaceId = n ∧ event = row.event name event.id := by
  have hexported := hrun.invariant (AuditWorld.Exported.initial hname)
    fun _ _ _ hw hsettled hnext => hw.step hnext hsettled
  exact ⟨hexported.once, hexported.received_iff hpage hempty⟩

namespace Sample

def auditAdmin : Principal := ⟨⟨"issuer", "admin"⟩, none⟩

def acceptanceEntry (executionId : Id) : AuditEntryRow where
  namespaceId := 1
  actor := .agent 3
  action := "execution.accepted"
  resourceType := "execution"
  resourceId := executionId
  requestDigest := some "sha256"
  idempotencyKey := none
  details := "{}"
  occurredAt := second

/-- Administrator `auditAdmin` of namespace 1. -/
def bootstrapped : Authority :=
  AuthorityCall.apply tokenLibrary
    ⟨0, .ensureBootstrapIdentity ⟨"issuer", "admin"⟩ "Admin" "default" 7 1⟩ .empty

def orderedCommits : List AuditStep :=
  [.start 1, .start 2, .write 1 (acceptanceEntry 10), .write 2 (acceptanceEntry 20), .commit 1,
    .page (2 * second) 100, .commit 2, .page (3 * second) 100]

/-- Two acceptances of which the first to write commits after a page was read. -/
def crossedCommits : List AuditStep :=
  [.start 1, .start 2, .write 1 (acceptanceEntry 10), .write 2 (acceptanceEntry 20), .commit 2,
    .page (2 * second) 100, .commit 1, .page (3 * second) 100]

end Sample

theorem audit_export_complete_ordered :
    ∃ w : AuditWorld, w.committed.get? 1 = some (Sample.acceptanceEntry 10) ∧
      (Sample.acceptanceEntry 10).event "default" 1 ∈ w.received ∧
      (w.received.map (·.id)).Nodup := by
  have hrun : ((Transition.exec (fun w s =>
      if AuditWorld.settled Sample.auditAdmin "default" 1 w s then
        AuditWorld.next Sample.tokenLibrary Sample.auditAdmin "default" w s
      else none)
      (.initial Sample.bootstrapped) Sample.orderedCommits).map fun w =>
        ((exportAudit w.authority w.committed (4 * second) Sample.auditAdmin "default" w.lastId
          100).toOption.map (·.items), w.committed.get? 1)) =
      some (some [], some (Sample.acceptanceEntry 10)) := by
    decide
  obtain ⟨w, hw, heq⟩ := Option.map_eq_some_iff.mp hrun
  obtain ⟨hempty, hcommitted⟩ := Prod.mk.inj heq
  obtain ⟨page, hpage, hitems⟩ := Option.map_eq_some_iff.mp hempty
  cases hexport : exportAudit w.authority w.committed (4 * second) Sample.auditAdmin "default"
      w.lastId 100 with
  | error e =>
      rw [hexport] at hpage
      cases hpage
  | ok page' =>
      rw [hexport] at hpage
      cases hpage
      obtain ⟨honce, hreceived⟩ := audit_export_complete (n := 1) (by decide)
        (Transition.reaches_of_exec hw) hexport hitems
      exact ⟨w, hcommitted, (hreceived _).mpr ⟨_, hcommitted, rfl, rfl⟩, honce⟩

/-- The row that was written first is never received: the client has gone on to the
next page, every later page is empty, and no transaction is open. -/
theorem audit_event_passed_over :
    ((Transition.exec (AuditWorld.next Sample.tokenLibrary Sample.auditAdmin "default")
      (.initial Sample.bootstrapped) Sample.crossedCommits).map fun w =>
        ((exportAudit w.authority w.committed (4 * second) Sample.auditAdmin "default" w.lastId
          100).toOption.map (·.items), w.writers.entries.length, w.committed.get? 1,
          w.received.map (·.id))) =
      some (some [], 0, some (Sample.acceptanceEntry 10), [2]) := by
  decide

end JobmanControl
