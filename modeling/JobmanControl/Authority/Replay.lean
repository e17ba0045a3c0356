import JobmanControl.Authority.Frame

/-!
Replay protection. The ledger keeps the pair of service and assertion ID of every
accepted assertion, but not for ever: pruning removes a row long after its
assertion expired, and a restore may lose it. What keeps an accepted assertion
from being accepted again is then its expiry or the issuance floor a restore
raises. A service that signs a new assertion under an old ID is served again.
-/

namespace JobmanControl

open Relational

variable {db db' : Authority} {now : Time} {registered : Option DelegationKey}
  {peer : PeerCertificate} {operation : Capability}

variable {primitives : Primitives}

variable {actor : DelegatedActor} {principal : Principal} {restores : List Time} {clock : Time}
  {a : AcceptedAssertion}

namespace Authority

/-- What an accepted assertion had passed, and the row it left. -/
structure Consumed (db db' : Authority) (now : Time) (actor : DelegatedActor) : Prop where
  current : db.assertionCurrent now actor = true
  unused : db.assertions.get? (actor.serviceId, actor.assertionId) = none
  inserted : ∃ row : AssertionRow, row.acceptedAt = now ∧
    ∀ key, db'.assertions.get? key =
      if key = (actor.serviceId, actor.assertionId) then some row else db.assertions.get? key
  epoch : db'.epoch = db.epoch

theorem consumed_of_consumeAssertion {principalId : Option Id}
    (h : db.consumeAssertion now principalId actor = .ok db')
    (hcurrent : db.assertionCurrent now actor = true) : Consumed db db' now actor := by
  obtain ⟨t, hinsert, rfl⟩ := consumeAssertion_eq h
  refine ⟨hcurrent, Table.insert?_free hinsert, ?_, rfl⟩
  exact ⟨_, rfl, Table.get?_insert hinsert⟩

theorem resolveDelegatedPrincipal_current {identity : Id × Principal}
    (h : db.resolveDelegatedPrincipal now principal = .ok identity) :
    ∃ actor, principal.delegation = some actor ∧ db.assertionCurrent now actor = true := by
  simp only [resolveDelegatedPrincipal, bind_ok_iff, need_ok_iff, ensure_ok_iff] at h
  obtain ⟨actor, hactor, -, -, -, -, -, -, -, -, -, -, -, -, -, -, -, -, -, -, -, hcurrent, -⟩ := h
  exact ⟨actor, hactor, hcurrent⟩

theorem authorizeMonitoringService_current
    (h : db.authorizeMonitoringService now principal = .ok actor) :
    principal.delegation = some actor ∧ db.assertionCurrent now actor = true := by
  simp only [authorizeMonitoringService, bind_ok_iff, need_ok_iff, ensure_ok_iff, pure_ok_iff] at h
  obtain ⟨actor', hactor, -, -, -, -, -, -, -, hcurrent, -, -, rfl⟩ := h
  exact ⟨hactor, hcurrent.1⟩

theorem consumed_of_accept (h : acceptDelegationAssertion now principal db = .ok (actor, db')) :
    principal.delegation = some actor ∧ Consumed db db' now actor := by
  unfold acceptDelegationAssertion at h
  split at h
  · simp only [bind_ok_iff, pure_ok_iff, Prod.mk.injEq] at h
    obtain ⟨actor', hauthorized, db₁, hconsume, rfl, rfl⟩ := h
    obtain ⟨hactor, hcurrent⟩ := authorizeMonitoringService_current hauthorized
    exact ⟨hactor, consumed_of_consumeAssertion hconsume hcurrent⟩
  · simp only [bind_ok_iff, need_ok_iff, pure_ok_iff, Prod.mk.injEq] at h
    obtain ⟨identity, hresolve, actor', hactor, db₁, hconsume, rfl, rfl⟩ := h
    obtain ⟨actor'', hactor', hcurrent⟩ := resolveDelegatedPrincipal_current hresolve
    cases hactor.symm.trans hactor'
    exact ⟨hactor, consumed_of_consumeAssertion hconsume hcurrent⟩

end Authority

theorem authenticate_lifetime {validatedAt : Time} {assertion : Assertion}
    (h : authenticate primitives validatedAt registered peer assertion operation = .ok principal)
    (hactor : principal.delegation = some actor) :
    actor.expiresAt ≤ actor.issuedAt + 60 * second := by
  simp only [authenticate, bind_ok_iff, ensure_ok_iff, need_ok_iff, pure_ok_iff] at h
  obtain ⟨-, -, key, -, -, -, -, -, -, -, ⟨issued, expires⟩, hclaims, rfl⟩ := h
  cases hactor
  unfold validDelegationClaims at hclaims
  split at hclaims
  · rw [Option.ite_none_right_eq_some] at hclaims
    obtain ⟨⟨-, -, -, -, hlifetime, -⟩, heq⟩ := hclaims
    cases heq
    simp only [validLifetime, Bool.and_eq_true, decide_eq_true_eq] at hlifetime
    exact hlifetime.1.1.1.2
  · cases hclaims

theorem AuthorityCall.ledger_eq {call : AuthorityCall} (h : call.run primitives db = .ok db')
    (hkeeps : call.operation.keepsLedger = true) :
    db'.assertions = db.assertions ∧ db'.epoch = db.epoch := by
  cases call.writes h with
  | nothing | keys => exact ⟨rfl, rfl⟩
  | ledger hop => cases hkeeps.symm.trans hop
  | membership hprincipal _ hmember =>
      obtain ⟨_, rfl⟩ := Authority.upsertPrincipal_eq hprincipal
      obtain ⟨_, _, _, rfl⟩ := Authority.upsertMembership_eq hmember
      exact ⟨rfl, rfl⟩
  | grant hprincipal _ hinsert =>
      obtain ⟨_, rfl⟩ := Authority.upsertPrincipal_eq hprincipal
      obtain ⟨_, -, rfl⟩ := Authority.insertGrant_eq hinsert
      exact ⟨rfl, rfl⟩
  | revocation =>
      obtain ⟨_, hv⟩ := db.updateGrants_eq _ _
      rw [hv]
      exact ⟨rfl, rfl⟩
  | configuration _ h =>
      obtain ⟨_, _, _, _, _, _, _, rfl⟩ := configureDirectory_eq h
      exact ⟨rfl, rfl⟩
  | snapshot _ h =>
      obtain ⟨_, _, _, _, _, _, rfl⟩ := applyDirectorySnapshot_eq h
      exact ⟨rfl, rfl⟩
  | failure _ =>
      obtain ⟨_, _, hfailure⟩ := recordDirectoryFailure_eq call.now _ _ db
      rw [hfailure]
      exact ⟨rfl, rfl⟩

def ninetyDays : Time := 90 * 86400 * second

/-- Why an assertion accepted earlier cannot be presented again: its pair is in the
ledger, it was issued before the floor of a restore, or it expired long ago. -/
def Barred (db : Authority) (restores : List Time) (clock : Time)
    (accepted : AcceptedAssertion) : Prop :=
  (∃ row, db.assertions.get? (accepted.serviceId, accepted.assertionId) = some row ∧
      accepted.time ≤ row.acceptedAt) ∨
    (∃ restored ∈ restores, accepted.time ≤ restored ∧
      restored + 5 * second ≤ db.epoch.delegationIssuedAfter) ∨
    accepted.time + ninetyDays < clock

/-- A pair is used again only for an assertion issued after its earlier use, and only
ninety days later or after a restore. -/
def Reissued (restores : List Time) (later earlier : AcceptedAssertion) : Prop :=
  later.serviceId = earlier.serviceId → later.assertionId = earlier.assertionId →
    (earlier.time : Int) + 5 * second < later.issuedAt ∧
      (earlier.time + ninetyDays < later.time ∨
        ∃ restored ∈ restores, earlier.time ≤ restored ∧
          (restored : Int) + 5 * second < later.issuedAt)

structure Guarded (w : AuthorityHistory) : Prop where
  past : ∀ a ∈ w.accepted, a.time ≤ w.clock ∧ a.issuedAt ≤ a.time + 5 * second
  barred : ∀ a ∈ w.accepted, Barred w.db w.restores w.clock a
  reissued : w.accepted.Pairwise (Reissued w.restores)

theorem Reissued.mono {restores' : List Time} {later earlier : AcceptedAssertion}
    (h : Reissued restores later earlier) (hsub : restores ⊆ restores') :
    Reissued restores' later earlier := by
  intro hservice hid
  obtain ⟨hissued, hlong | ⟨restored, hmem, hafter⟩⟩ := h hservice hid
  · exact ⟨hissued, Or.inl hlong⟩
  · exact ⟨hissued, Or.inr ⟨restored, hsub hmem, hafter⟩⟩

theorem Barred.later {clock' : Time} (h : Barred db restores clock a)
    (hassertions : db'.assertions = db.assertions) (hepoch : db'.epoch = db.epoch)
    (hclock : clock ≤ clock') : Barred db' restores clock' a := by
  obtain ⟨row, hrow, htime⟩ | hfloor | hold := h
  · exact Or.inl ⟨row, hassertions ▸ hrow, htime⟩
  · exact Or.inr (Or.inl (hepoch ▸ hfloor))
  · exact Or.inr (Or.inr (Nat.lt_of_lt_of_le hold hclock))

theorem pruneDelegationAudits_removes {limit retention removed : Nat} {key : String × String}
    {row : AssertionRow} (h : pruneDelegationAudits now limit retention db = .ok (removed, db'))
    (hrow : db.assertions.get? key = some row) (hgone : db'.assertions.get? key = none) :
    row.acceptedAt + ninetyDays < now ∧ row.expiresAt + 5 * second < (now : Int) := by
  simp only [pruneDelegationAudits, bind_ok_iff, ensure_ok_iff, pure_ok_iff, Prod.mk.injEq] at h
  obtain ⟨-, hbounds, -, rfl⟩ := h
  simp only [Table.get?_deleteWhere, hrow, Option.filter_some, Bool.not_eq_true',
    ite_eq_right_iff, reduceCtorEq, imp_false, Bool.not_eq_false, List.contains_iff_mem,
    List.mem_map] at hgone
  obtain ⟨⟨key', row'⟩, hmem, rfl⟩ := hgone
  have hselected := (mem_orderBy _ _ _).mp (List.mem_of_mem_take hmem)
  rw [Table.mem_select, Bool.and_eq_true, decide_eq_true_eq, decide_eq_true_eq] at hselected
  obtain ⟨hget, hold, hexpired⟩ := hselected
  cases hrow.symm.trans hget
  refine ⟨?_, hexpired⟩
  have hretention : ninetyDays ≤ retention * second := by
    unfold ninetyDays
    exact Nat.mul_le_mul_right second hbounds.2.2.1
  exact Nat.lt_of_le_of_lt (Nat.add_le_add_left hretention _) hold

theorem pruneDelegationAudits_keeps {limit retention removed : Nat} {key : String × String}
    {row : AssertionRow} (h : pruneDelegationAudits now limit retention db = .ok (removed, db'))
    (hrow : db.assertions.get? key = some row) :
    db'.assertions.get? key = some row ∨ db'.assertions.get? key = none := by
  simp only [pruneDelegationAudits, bind_ok_iff, pure_ok_iff, Prod.mk.injEq] at h
  obtain ⟨-, -, -, rfl⟩ := h
  simp only [Table.get?_deleteWhere, hrow, Option.filter_some]
  split
  · exact Or.inl rfl
  · exact Or.inr rfl

theorem presentAssertion_ok {validatedAt : Time} {assertion : Assertion}
    (h : presentAssertion primitives now validatedAt registered peer assertion operation db =
      .ok (actor, db')) :
    Authority.Consumed db db' now actor ∧ actor.expiresAt ≤ actor.issuedAt + 60 * second := by
  simp only [presentAssertion, bind_ok_iff] at h
  obtain ⟨principal, hauthenticated, haccept⟩ := h
  obtain ⟨hactor, hconsumed⟩ := Authority.consumed_of_accept haccept
  exact ⟨hconsumed, authenticate_lifetime hauthenticated hactor⟩

theorem Barred.call (h : Barred db restores clock a) (htime : a.time ≤ clock) (call : AuthorityCall)
    (hclock : clock ≤ call.now) :
    Barred (call.apply primitives db) restores call.now a := by
  unfold AuthorityCall.apply
  cases hrun : call.run primitives db with
  | error e => exact h.later rfl rfl hclock
  | ok db' =>
      by_cases hkeeps : call.operation.keepsLedger = true
      · obtain ⟨hassertions, hepoch⟩ := AuthorityCall.ledger_eq hrun hkeeps
        exact h.later hassertions hepoch hclock
      · cases hop : call.operation <;>
          simp only [hop, AuthorityOperation.keepsLedger, not_true_eq_false] at hkeeps
        case presentAssertion validatedAt registered peer assertion operation =>
          simp only [AuthorityCall.run, hop, map_snd_ok_iff] at hrun
          obtain ⟨actor, hrun⟩ := hrun
          obtain ⟨⟨-, -, ⟨row, hrow, hget⟩, hepoch⟩, -⟩ := presentAssertion_ok hrun
          by_cases hkey : (a.serviceId, a.assertionId) = (actor.serviceId, actor.assertionId)
          · refine Or.inl ⟨row, ?_, ?_⟩
            · rw [hget, if_pos hkey]
            · lia
          · obtain ⟨old, hold, hle⟩ | hfloor | hlong := h
            · refine Or.inl ⟨old, ?_, hle⟩
              rw [hget, if_neg hkey]
              exact hold
            · exact Or.inr (Or.inl (hepoch ▸ hfloor))
            · exact Or.inr (Or.inr (by lia))
        case pruneDelegationAudits limit retention =>
          simp only [AuthorityCall.run, hop, map_snd_ok_iff] at hrun
          obtain ⟨removed, hrun⟩ := hrun
          obtain ⟨t, ht⟩ := pruneDelegationAudits_eq hrun
          obtain ⟨row, hrow, hle⟩ | hfloor | hlong := h
          · obtain hkept | hgone := pruneDelegationAudits_keeps hrun hrow
            · exact Or.inl ⟨row, hkept, hle⟩
            · have hold := (pruneDelegationAudits_removes hrun hrow hgone).1
              exact Or.inr (Or.inr (by lia))
          · exact Or.inr (Or.inl (by rw [ht]; exact hfloor))
          · exact Or.inr (Or.inr (by lia))

theorem AuthorityCall.acceptance_eq {call : AuthorityCall}
    (h : call.acceptance primitives db = some a) :
    ∃ actor, Authority.Consumed db (call.apply primitives db) call.now actor ∧
      actor.expiresAt ≤ actor.issuedAt + 60 * second ∧
      a = ⟨actor.serviceId, actor.assertionId, actor.issuedAt, actor.expiresAt, call.now⟩ := by
  cases hop : call.operation <;> simp only [acceptance, hop, reduceCtorEq] at h
  case presentAssertion validatedAt registered peer assertion operation =>
    split at h
    · rename_i actor db' hpresent
      cases h
      obtain ⟨hconsumed, hlifetime⟩ := presentAssertion_ok hpresent
      refine ⟨actor, ?_, hlifetime, rfl⟩
      simpa only [apply, run, hop, hpresent, Except.map] using hconsumed
    · cases h

theorem Barred.reissued (h : Barred db restores clock a) (hclock : clock ≤ now)
    (hconsumed : Authority.Consumed db db' now actor)
    (hlifetime : actor.expiresAt ≤ actor.issuedAt + 60 * second) :
    Reissued restores
      ⟨actor.serviceId, actor.assertionId, actor.issuedAt, actor.expiresAt, now⟩ a := by
  intro hservice hid
  have hcurrent := hconsumed.current
  simp only [Authority.assertionCurrent, Bool.and_eq_true, decide_eq_true_eq] at hcurrent
  obtain ⟨⟨-, hexpires⟩, hissued⟩ := hcurrent
  simp only at hservice hid ⊢
  obtain ⟨row, hrow, -⟩ | ⟨restored, hmem, hafter, hfloor⟩ | hlong := h
  · rw [← hservice, ← hid, hconsumed.unused] at hrow
    cases hrow
  · exact ⟨by lia, Or.inr ⟨restored, hmem, hafter, by lia⟩⟩
  · refine ⟨?_, Or.inl (by lia)⟩
    -- The later assertion is current and lives for a minute, so it is far younger.
    unfold ninetyDays second at hlong
    unfold second at *
    lia

theorem guarded_step {w w' : AuthorityHistory} {event : AuthorityEvent} (hw : Guarded w)
    (hclock : clockForward w event = true) (h : AuthorityHistory.Step primitives w event w') :
    Guarded w' := by
  obtain ⟨rfl, -⟩ := h
  rw [clockForward, decide_eq_true_eq] at hclock
  cases event with
  | restore now old =>
      refine ⟨?_, ?_, ?_⟩
      · intro a ha
        exact ⟨Nat.le_trans (hw.past a ha).1 hclock, (hw.past a ha).2⟩
      · intro a ha
        -- Every assertion accepted so far was issued before the new floor.
        exact Or.inr (Or.inl ⟨now, List.mem_cons_self,
          Nat.le_trans (hw.past a ha).1 hclock, Nat.le_refl _⟩)
      · exact hw.reissued.imp fun h => h.mono (List.subset_cons_self now _)
  | call c =>
      have hold : ∀ a ∈ w.accepted, Barred (c.apply primitives w.db) w.restores c.now a :=
        fun a ha => (hw.barred a ha).call (hw.past a ha).1 c hclock
      simp only [AuthorityHistory.next]
      cases haccept : c.acceptance primitives w.db with
      | none =>
          refine ⟨?_, hold, hw.reissued⟩
          intro a ha
          exact ⟨Nat.le_trans (hw.past a ha).1 hclock, (hw.past a ha).2⟩
      | some a =>
          obtain ⟨actor, hconsumed, hlifetime, rfl⟩ := AuthorityCall.acceptance_eq haccept
          obtain ⟨row, hrow, hget⟩ := hconsumed.inserted
          refine ⟨?_, ?_, ?_⟩
          · simp only [Option.toList_some, List.singleton_append, List.forall_mem_cons]
            refine ⟨⟨Nat.le_refl _, ?_⟩, ?_⟩
            · have hcurrent := hconsumed.current
              simp only [Authority.assertionCurrent, Bool.and_eq_true,
                decide_eq_true_eq] at hcurrent
              exact hcurrent.1.1
            · intro a ha
              exact ⟨Nat.le_trans (hw.past a ha).1 hclock, (hw.past a ha).2⟩
          · simp only [Option.toList_some, List.singleton_append, List.forall_mem_cons]
            refine ⟨Or.inl ⟨row, ?_, Nat.le_of_eq hrow.symm⟩, hold⟩
            rw [hget, if_pos rfl]
          · simp only [Option.toList_some, List.singleton_append, List.pairwise_cons]
            exact ⟨fun a ha => (hw.barred a ha).reissued hclock hconsumed hlifetime, hw.reissued⟩

theorem guarded_initial : Guarded .initial :=
  ⟨fun _ ha => absurd ha List.not_mem_nil, fun _ ha => absurd ha List.not_mem_nil, .nil⟩

/-- In every run with a clock that does not go back, an assertion is accepted at most
once: a pair of service and assertion ID that is accepted again belongs to another
assertion, which the service issued more than five seconds after the earlier
acceptance and, unless a restore came between, ninety days after it. Pruning removes
no row whose assertion could still pass the time checks. -/
theorem assertions_accepted_once {w : AuthorityHistory}
    (h : Transition.Reaches (AuthorityHistory.Step primitives)
      (fun w event => clockForward w event = true) .initial w) :
    w.accepted.Pairwise (Reissued w.restores) ∧
      (w.accepted.map fun a => (a.serviceId, a.assertionId, a.issuedAt)).Nodup ∧
      ∀ now limit retention removed db' key row,
        pruneDelegationAudits now limit retention w.db = .ok (removed, db') →
        w.db.assertions.get? key = some row → db'.assertions.get? key = none →
        ∀ (db : Authority) (t : Time) (actor : DelegatedActor), now ≤ t →
          actor.expiresAt = row.expiresAt → db.assertionCurrent t actor = false := by
  have hw : Guarded w := h.invariant guarded_initial fun _ _ _ hw hclock hstep =>
    guarded_step hw hclock hstep
  refine ⟨hw.reissued, ?_, ?_⟩
  · rw [List.Nodup, List.pairwise_map]
    refine (List.Pairwise.and_mem.mp hw.reissued).imp ?_
    rintro later earlier ⟨-, hearlier, hreissued⟩ heq
    simp only [Prod.mk.injEq] at heq
    have hafter := (hreissued heq.1 heq.2.1).1
    have hbefore := (hw.past earlier hearlier).2
    lia
  · intro now limit retention removed db' key row hprune hrow hgone db t actor ht hexpires
    have hexpired := (pruneDelegationAudits_removes hprune hrow hgone).2
    rw [← Bool.not_eq_true]
    simp only [Authority.assertionCurrent, Bool.and_eq_true, decide_eq_true_eq]
    lia

namespace Sample

def thumbprint : String := "AAAAAAAAAAAAAAAAAAAAAAAAAAAAAAAAAAAAAAAAAAA"

def monitorKey : DelegationKey where
  audience := "control"
  publicKey := "public"
  certificateThumbprints := [thumbprint]
  namespaceIds := [1]
  operations := [.eventsRead]
  enabled := true

def monitorAssertion (issued : Int) : Assertion where
  keyId := "key"
  signer := "public"
  claims :=
    { issuer := "monitor", subject := "monitor", audience := ["control"]
      id := "AAAAAAAAAAAAAAAAAAAAAA"
      issuedAt := some issued, notBefore := some issued, expiry := some (issued + 60 * second)
      thumbprint := some thumbprint, hasActorMember := false, actor := none
      operation := .eventsRead, namespaceIds := [1], mode := .worker }

def monitorCall (now : Time) : AuthorityCall :=
  ⟨now, .presentAssertion now (some monitorKey) ⟨thumbprint, 0, 400 * 86400 * second⟩
    (monitorAssertion now) .eventsRead⟩

/-- The monitor signs under the ID it used ninety-one days earlier, after pruning. -/
def reusedId : List AuthorityCall :=
  [⟨0, .ensureBootstrapIdentity ⟨"issuer", "admin"⟩ "Admin" "default" 7 1⟩,
    ⟨0, .registerDelegationKeys [⟨"monitor", "key", monitorKey⟩]⟩, monitorCall (10 * second),
    ⟨91 * 86400 * second, .pruneDelegationAudits 100 (90 * 86400)⟩,
    monitorCall (91 * 86400 * second + second)]

theorem reusedId_accepted :
    ∃ w, AuthorityHistory.after tokenLibrary reusedId = some w ∧
      (w.accepted.map fun a => (a.serviceId, a.assertionId)) =
        [("monitor", "AAAAAAAAAAAAAAAAAAAAAA"), ("monitor", "AAAAAAAAAAAAAAAAAAAAAA")] :=
  Option.map_eq_some_iff.mp (by decide)

end Sample

theorem assertions_accepted_once_reused :
    ∃ w : AuthorityHistory, w.accepted.length = 2 ∧ w.accepted.Pairwise (Reissued w.restores) := by
  obtain ⟨w, hw, haccepted⟩ := Sample.reusedId_accepted
  refine ⟨w, ?_, (assertions_accepted_once (AuthorityHistory.reaches_after hw)).1⟩
  have hlength := congrArg List.length haccepted
  rwa [List.length_map] at hlength

/-- The ledger is bounded, so an ID used long ago is accepted again. -/
theorem assertion_id_accepted_again :
    ∃ w, Transition.Reaches (AuthorityHistory.Step Sample.tokenLibrary)
        (fun w event => clockForward w event = true) .initial w ∧
      ¬ (w.accepted.map fun a => (a.serviceId, a.assertionId)).Nodup := by
  obtain ⟨w, hw, haccepted⟩ := Sample.reusedId_accepted
  refine ⟨w, AuthorityHistory.reaches_after hw, ?_⟩
  rw [haccepted]
  decide

end JobmanControl
