import JobmanControl.Authority.Operation

/-!
Which tables each statement and each operation can write. Every lemma rebuilds
the result from the tables it started with, so all the others are the same by
definition.
-/

namespace JobmanControl

open Relational

variable {id : Id} {row : GrantRow} {signIn : SignIn} {displayName sourceId name : String}
  {identity : DirectoryIdentity} {snapshot : DirectorySnapshot} {primitives : Primitives} {u : Unit}
  {db db' : Authority} {now : Time}

namespace Authority

theorem renewVersions_eq (db : Authority) (conditions : List (Id → Id → Bool)) :
    ∃ v, db.renewVersions conditions = { db with versions := v } := by
  unfold renewVersions
  induction conditions generalizing db with
  | nil => exact ⟨db.versions, rfl⟩
  | cons p ps ih =>
      obtain ⟨v, hv⟩ := ih (db.bumpVersionsWhere p)
      exact ⟨v, hv⟩

theorem foldl_bumpVersion_eq (db : Authority) (l : List (Id × GrantRow)) :
    ∃ v, l.foldl (fun db entry => db.bumpVersion entry.2.namespaceId entry.2.principalId) db =
      { db with versions := v } := by
  induction l generalizing db with
  | nil => exact ⟨db.versions, rfl⟩
  | cons entry rest ih =>
      obtain ⟨v, hv⟩ := ih (db.bumpVersion entry.2.namespaceId entry.2.principalId)
      exact ⟨v, hv⟩

theorem updateGrants_eq (db : Authority) (p : Id → GrantRow → Bool) (f : GrantRow → GrantRow) :
    ∃ v, db.updateGrants p f =
      { db with grants := db.grants.updateWhere p fun _ => f, versions := v } :=
  foldl_bumpVersion_eq { db with grants := db.grants.updateWhere p fun _ => f } _

theorem insertGrant_eq (h : db.insertGrant id row = .ok db') :
    ∃ grants, db.grants.insert? id row = some grants ∧
      db' = ({ db with grants := grants } : Authority).bumpVersion row.namespaceId
        row.principalId := by
  simp only [insertGrant, bind_ok_iff, need_ok_iff, pure_ok_iff] at h
  obtain ⟨-, -, grants, hinsert, rfl⟩ := h
  exact ⟨grants, hinsert, rfl⟩

theorem upsertGrant_eq {f : GrantRow → GrantRow} (h : db.upsertGrant id row f = .ok db') :
    ∃ g v, db' = { db with grants := g, versions := v } := by
  unfold upsertGrant at h
  split at h
  · obtain ⟨grants, -, rfl⟩ := insertGrant_eq h
    exact ⟨grants, _, rfl⟩
  · cases h
    obtain ⟨v, hv⟩ := db.updateGrants_eq _ f
    exact ⟨_, v, hv⟩

theorem insertPrincipal_eq (h : db.insertPrincipal id signIn displayName = .ok db') :
    ∃ t, db' = { db with principals := t } := by
  simp only [insertPrincipal, bind_ok_iff, ensure_ok_iff] at h
  obtain ⟨-, -, -, -, h⟩ := h
  split at h
  · rw [pure_ok_iff] at h
    exact ⟨db.principals, h.symm⟩
  · simp only [bind_ok_iff, ensure_ok_iff, pure_ok_iff] at h
    obtain ⟨-, -, rfl⟩ := h
    exact ⟨_, rfl⟩

theorem upsertPrincipal_eq {id' : Id}
    (h : db.upsertPrincipal id signIn displayName = .ok (id', db')) :
    ∃ t, db' = { db with principals := t } := by
  simp only [upsertPrincipal, bind_ok_iff, ensure_ok_iff] at h
  obtain ⟨-, -, h⟩ := h
  split at h
  · simp only [bind_ok_iff, ensure_ok_iff, pure_ok_iff, Prod.mk.injEq] at h
    obtain ⟨-, -, -, rfl⟩ := h
    exact ⟨_, rfl⟩
  · simp only [bind_ok_iff, need_ok_iff, pure_ok_iff, Prod.mk.injEq] at h
    obtain ⟨principals, -, -, rfl⟩ := h
    exact ⟨_, rfl⟩

theorem upsertMembership_eq {legacyId : Id → Id → Id} {n p : Id} {role : Role}
    (h : db.upsertMembership now legacyId n p role = .ok db') :
    ∃ m g v, db' = { db with memberships := m, grants := g, versions := v } := by
  obtain ⟨g, v, rfl⟩ := upsertGrant_eq h
  exact ⟨_, g, v, rfl⟩

theorem manageNamespace_eq (db : Authority) (sourceId : String) (revision : Int) (n : Id) :
    ∃ t v, db.manageNamespace sourceId revision n = { db with managed := t, versions := v } := by
  unfold manageNamespace
  split
  · exact ⟨_, _, rfl⟩
  · exact ⟨_, db.versions, rfl⟩

theorem updateBindings_eq (db : Authority) (p : Id → BindingRow → Bool)
    (f : BindingRow → BindingRow) :
    ∃ v, db.updateBindings p f =
      { db with bindings := db.bindings.updateWhere p fun _ => f, versions := v } :=
  renewVersions_eq { db with bindings := db.bindings.updateWhere p fun _ => f } _

theorem upsertBinding_eq (db : Authority) (binding : DirectoryBinding) :
    ∃ t v, db.upsertBinding binding = { db with bindings := t, versions := v } := by
  simp only [upsertBinding]
  split
  · exact ⟨_, renewVersions_eq _ _⟩
  · exact ⟨_, db.updateBindings_eq _ _⟩

theorem updateAccounts_eq (db : Authority) (p : Id → AccountRow → Bool)
    (f : AccountRow → AccountRow) :
    ∃ v, db.updateAccounts p f =
      { db with accounts := db.accounts.updateWhere p fun _ => f, versions := v } :=
  renewVersions_eq { db with accounts := db.accounts.updateWhere p fun _ => f } _

theorem withdrawBindings_eq (db : Authority) (sourceId : String) :
    ∃ b v, db.withdrawBindings sourceId = { db with bindings := b, versions := v } :=
  ⟨_, db.updateBindings_eq _ _⟩

theorem withdrawAccounts_eq (db : Authority) (sourceId : String) :
    ∃ a v, db.withdrawAccounts sourceId = { db with accounts := a, versions := v } :=
  ⟨_, db.updateAccounts_eq _ _⟩

theorem upsertAccount_eq (h : db.upsertAccount sourceId identity = .ok db') :
    ∃ t v, db' = { db with accounts := t, versions := v } := by
  unfold upsertAccount at h
  split at h
  · simp only [bind_ok_iff, ensure_ok_iff, pure_ok_iff] at h
    obtain ⟨-, -, rfl⟩ := h
    exact ⟨_, db.versions, rfl⟩
  · cases h
    exact ⟨_, db.updateAccounts_eq _ _⟩

theorem installIdentity_eq (h : installIdentity sourceId db identity = .ok db') :
    ∃ t u v, db' = { db with principals := t, accounts := u, versions := v } := by
  simp only [installIdentity, bind_ok_iff] at h
  obtain ⟨db₁, hprincipal, haccount⟩ := h
  obtain ⟨t, rfl⟩ := insertPrincipal_eq hprincipal
  obtain ⟨u, v, rfl⟩ := upsertAccount_eq haccount
  exact ⟨t, u, v, rfl⟩

theorem insertAlias_eq (h : insertAlias sourceId identity db signIn = .ok db') :
    ∃ t, db' = { db with aliases := t } := by
  simp only [insertAlias, bind_ok_iff, ensure_ok_iff] at h
  obtain ⟨-, -, h⟩ := h
  split at h
  · rw [pure_ok_iff] at h
    exact ⟨_, h.symm⟩
  · rw [pure_ok_iff] at h
    exact ⟨db.aliases, h.symm⟩

theorem verifyIdentity_eq (h : verifyIdentity sourceId snapshot db identity = .ok db') :
    ∃ t v, db' = { db.updateAccounts
      (fun id row => id = identity.directoryId && row.sourceId = some sourceId)
      (fun row =>
        { row with
          enabled := snapshot.eligible identity.directoryId
          lastVerifiedAt := some snapshot.verifiedAt }) with aliases := t, versions := v } := by
  simp only [verifyIdentity, bind_ok_iff, need_ok_iff] at h
  obtain ⟨-, -, h⟩ := h
  split at h
  · have hfold := foldlM_ok_induction
      (P := fun d => ∃ t v, d = { db.updateAccounts
        (fun id row => id = identity.directoryId && row.sourceId = some sourceId)
        (fun row =>
          { row with
            enabled := snapshot.eligible identity.directoryId
            lastVerifiedAt := some snapshot.verifiedAt }) with aliases := t, versions := v })
      (identityAliases identity) ?_ ⟨_, _, rfl⟩ h
    · exact hfold
    · rintro d x d' - ⟨t, v, rfl⟩ hx
      obtain ⟨t', rfl⟩ := insertAlias_eq hx
      exact ⟨t', v, rfl⟩
  · rw [pure_ok_iff] at h
    exact ⟨_, _, h.symm⟩

theorem consumeAssertion_eq {principalId : Option Id} {actor : DelegatedActor}
    (h : db.consumeAssertion now principalId actor = .ok db') :
    ∃ t, db.assertions.insert? (actor.serviceId, actor.assertionId)
        ⟨actor.keyId, principalId, actor.operation, actor.issuedAt, actor.expiresAt, now⟩ = some t ∧
      db' = { db with assertions := t } := by
  simp only [consumeAssertion, bind_ok_iff, ensure_ok_iff, need_ok_iff, pure_ok_iff] at h
  obtain ⟨-, -, t, hinsert, rfl⟩ := h
  exact ⟨t, hinsert, rfl⟩

theorem revokeUndesired_eq (db : Authority) (now : Time) (sourceId : String)
    (desired : List DesiredGrant) :
    ∃ g v, db.revokeUndesired now sourceId desired = { db with grants := g, versions := v } := by
  obtain ⟨v, hv⟩ := db.updateGrants_eq _ _
  exact ⟨_, v, hv⟩

theorem foldl_manageNamespace_eq (db : Authority) (sourceId : String) (revision : Int)
    (l : List Id) :
    ∃ t v, l.foldl (fun db id => db.manageNamespace sourceId revision id) db =
      { db with managed := t, versions := v } := by
  induction l generalizing db with
  | nil => exact ⟨db.managed, db.versions, rfl⟩
  | cons n rest ih =>
      obtain ⟨t, v, hn⟩ := db.manageNamespace_eq sourceId revision n
      obtain ⟨t', v', hrest⟩ := ih (db.manageNamespace sourceId revision n)
      rw [hn] at hrest
      rw [List.foldl_cons, hn]
      exact ⟨t', v', hrest⟩

theorem foldl_upsertBinding_eq (db : Authority) (l : List DirectoryBinding) :
    ∃ t v, l.foldl upsertBinding db = { db with bindings := t, versions := v } := by
  induction l generalizing db with
  | nil => exact ⟨db.bindings, db.versions, rfl⟩
  | cons binding rest ih =>
      obtain ⟨t, v, hn⟩ := db.upsertBinding_eq binding
      obtain ⟨t', v', hrest⟩ := ih (db.upsertBinding binding)
      rw [hn] at hrest
      rw [List.foldl_cons, hn]
      exact ⟨t', v', hrest⟩

theorem foldlM_installIdentity_eq {l : List DirectoryIdentity}
    (h : l.foldlM (installIdentity sourceId) db = .ok db') :
    ∃ t u v, db' = { db with principals := t, accounts := u, versions := v } := by
  refine foldlM_ok_induction
    (P := fun d => ∃ t u v, d = { db with principals := t, accounts := u, versions := v })
    l ?_ ⟨_, _, _, rfl⟩ h
  rintro d x d' - ⟨t, u, v, rfl⟩ hx
  obtain ⟨t', u', v', rfl⟩ := installIdentity_eq hx
  exact ⟨t', u', v', rfl⟩

theorem foldlM_verifyIdentity_eq {l : List DirectoryIdentity}
    (h : l.foldlM (verifyIdentity sourceId snapshot) db = .ok db') :
    ∃ t u v, db' = { db with accounts := t, aliases := u, versions := v } := by
  refine foldlM_ok_induction
    (P := fun d => ∃ t u v, d = { db with accounts := t, aliases := u, versions := v })
    l ?_ ⟨_, _, _, rfl⟩ h
  rintro d x d' - ⟨t, u, v, rfl⟩ hx
  obtain ⟨u', v', rfl⟩ := verifyIdentity_eq hx
  obtain ⟨v₁, hv₁⟩ := updateAccounts_eq ({ db with accounts := t, aliases := u, versions := v })
    (fun id row => id = x.directoryId && row.sourceId = some sourceId)
    (fun row =>
      { row with
        enabled := snapshot.eligible x.directoryId
        lastVerifiedAt := some snapshot.verifiedAt })
  rw [hv₁]
  exact ⟨_, u', v', rfl⟩

theorem foldlM_grantDesired_eq {grantId : DesiredGrant → Id} {l : List DesiredGrant}
    (h : l.foldlM (grantDesired now grantId) db = .ok db') :
    ∃ g v, db' = { db with grants := g, versions := v } := by
  refine foldlM_ok_induction (P := fun d => ∃ g v, d = { db with grants := g, versions := v })
    l ?_ ⟨_, _, rfl⟩ h
  rintro d x d' - ⟨g, v, rfl⟩ hx
  obtain ⟨g', v', rfl⟩ := upsertGrant_eq hx
  exact ⟨g', v', rfl⟩

end Authority

theorem configureDirectory_eq {digest : DirectoryMapping → String} {mapping : DirectoryMapping}
    (h : configureDirectory digest now mapping db = .ok (u, db')) :
    ∃ s m b a t l v, db' = { db with
      sources := s, managed := m, bindings := b, accounts := a, principals := t, aliases := l,
      versions := v } := by
  simp only [configureDirectory, bind_ok_iff] at h
  obtain ⟨-, -, -, -, -, -, h⟩ := h
  split at h
  · simp only [pure_ok_iff, Prod.mk.injEq] at h
    obtain ⟨-, rfl⟩ := h
    exact ⟨_, _, _, _, _, _, _, rfl⟩
  · simp only [bind_ok_iff, pure_ok_iff, Prod.mk.injEq] at h
    obtain ⟨-, -, db₁, hidentities, -, rfl⟩ := h
    obtain ⟨t, a, v, rfl⟩ := Authority.foldlM_installIdentity_eq hidentities
    obtain ⟨b, v₁, hb⟩ := Authority.foldl_upsertBinding_eq _ mapping.bindings
    rw [hb]
    obtain ⟨_, v₂, ha⟩ := Authority.withdrawAccounts_eq _ mapping.sourceId
    rw [ha]
    obtain ⟨_, v₃, hd⟩ := Authority.withdrawBindings_eq _ mapping.sourceId
    rw [hd]
    obtain ⟨m, v₄, hm⟩ := Authority.foldl_manageNamespace_eq _ mapping.sourceId mapping.revision
      mapping.namespaces
    rw [hm]
    exact ⟨_, _, _, _, _, _, _, rfl⟩

theorem applyDirectorySnapshot_eq {grantId : DesiredGrant → Id}
    (h : applyDirectorySnapshot now grantId snapshot db = .ok (u, db')) :
    ∃ a l g s m v, db' = { db with
      accounts := a, aliases := l, grants := g, sources := s, managed := m, versions := v } := by
  simp only [applyDirectorySnapshot, bind_ok_iff, pure_ok_iff, Prod.mk.injEq] at h
  obtain ⟨source, -, -, -, -, -, -, -, db₁, hverify, -, -, db₂, hgrant, -, rfl⟩ := h
  obtain ⟨a, l, v, rfl⟩ := Authority.foldlM_verifyIdentity_eq hverify
  obtain ⟨g, v₁, rfl⟩ := Authority.foldlM_grantDesired_eq hgrant
  obtain ⟨g', v₂, hrevoke⟩ := Authority.revokeUndesired_eq _ now source.mapping.sourceId
    (desiredGrants source.mapping snapshot)
  rw [hrevoke]
  exact ⟨_, _, _, _, _, _, rfl⟩

theorem registerDelegationKeys_eq {keys : List KeyRegistration}
    (h : registerDelegationKeys keys db = .ok (u, db')) :
    ∃ k, db' = { db with serviceKeys := k } := by
  simp only [registerDelegationKeys, bind_ok_iff, pure_ok_iff, Prod.mk.injEq] at h
  obtain ⟨-, -, -, -, -, -, db₁, hkeys, -, rfl⟩ := h
  refine foldlM_ok_induction (P := fun d => ∃ k, d = { db with serviceKeys := k })
    keys ?_ ⟨_, rfl⟩ hkeys
  rintro d x d' - ⟨k, rfl⟩ hx
  simp only [registerKey, bind_ok_iff, pure_ok_iff] at hx
  obtain ⟨-, -, rfl⟩ := hx
  exact ⟨_, rfl⟩

theorem presentAssertion_eq {validatedAt : Time} {registered : Option DelegationKey}
    {peer : PeerCertificate} {assertion : Assertion} {operation : Capability}
    {actor : DelegatedActor}
    (h : presentAssertion primitives now validatedAt registered peer assertion operation db =
      .ok (actor, db')) : ∃ t, db' = { db with assertions := t } := by
  simp only [presentAssertion, bind_ok_iff] at h
  obtain ⟨principal, -, haccept⟩ := h
  unfold acceptDelegationAssertion at haccept
  split at haccept
  · simp only [bind_ok_iff, pure_ok_iff, Prod.mk.injEq] at haccept
    obtain ⟨_, -, db₁, hconsume, -, rfl⟩ := haccept
    obtain ⟨t, -, heq⟩ := Authority.consumeAssertion_eq hconsume
    exact ⟨t, heq⟩
  · simp only [bind_ok_iff, pure_ok_iff, Prod.mk.injEq] at haccept
    obtain ⟨_, -, _, -, db₁, hconsume, -, rfl⟩ := haccept
    obtain ⟨t, -, heq⟩ := Authority.consumeAssertion_eq hconsume
    exact ⟨t, heq⟩

theorem pruneDelegationAudits_eq {limit retention removed : Nat}
    (h : pruneDelegationAudits now limit retention db = .ok (removed, db')) :
    ∃ t, db' = { db with assertions := t } := by
  simp only [pruneDelegationAudits, bind_ok_iff, pure_ok_iff, Prod.mk.injEq] at h
  obtain ⟨-, -, -, rfl⟩ := h
  exact ⟨_, rfl⟩

theorem recordDirectoryFailure_eq (now : Time) (sourceId : String) (revision : Int)
    (db : Authority) :
    ∃ s m, recordDirectoryFailure now sourceId revision db =
      { db with sources := s, managed := m } := by
  unfold recordDirectoryFailure
  split
  · exact ⟨_, _, rfl⟩
  · exact ⟨db.sources, db.managed, rfl⟩

/-- The operations that leave the sources and the managed namespaces alone. -/
def AuthorityOperation.keepsDirectory : AuthorityOperation → Bool
  | .configureDirectory _ | .applyDirectorySnapshot .. | .recordDirectoryFailure .. => false
  | _ => true

theorem AuthorityCall.directory_cases {call : AuthorityCall}
    (h : call.run primitives db = .ok db') :
    call.operation.keepsDirectory = true ∨
      (∃ mapping, call.operation = .configureDirectory mapping ∧
        configureDirectory primitives.digest call.now mapping db = .ok ((), db')) ∨
      (∃ grantId snapshot, call.operation = .applyDirectorySnapshot grantId snapshot ∧
        applyDirectorySnapshot call.now grantId snapshot db = .ok ((), db')) ∨
      ∃ sourceId revision, call.operation = .recordDirectoryFailure sourceId revision ∧
        db' = recordDirectoryFailure call.now sourceId revision db := by
  cases hop : call.operation <;> simp only [run, hop, map_snd_ok_iff, Except.ok.injEq] at h
  case configureDirectory => exact Or.inr (Or.inl ⟨_, rfl, h.choose_spec⟩)
  case applyDirectorySnapshot => exact Or.inr (Or.inr (Or.inl ⟨_, _, rfl, h.choose_spec⟩))
  case recordDirectoryFailure => exact Or.inr (Or.inr (Or.inr ⟨_, _, rfl, h.symm⟩))
  all_goals exact Or.inl rfl

/-- The operations that leave the ledger alone. -/
def AuthorityOperation.keepsLedger : AuthorityOperation → Bool
  | .presentAssertion .. | .pruneDelegationAudits .. => false
  | _ => true

/-- What a call that is committed has written. Members and grants come with their principal,
and only the bootstrap adds a namespace, under a name that is free. -/
inductive AuthorityCall.Writes (primitives : Primitives) (call : AuthorityCall) (db : Authority) :
    Authority → Prop
  | nothing : Writes primitives call db db
  | membership {candidateId p n : Id} {signIn : SignIn} {displayName : String} {role : Role}
      {namespaces : Table Id String} {db₁ db' : Authority} :
      db.upsertPrincipal candidateId signIn displayName = .ok (p, db₁) →
      (namespaces = db.namespaces ∨ ∃ id name, db.namespaceNamed name = none ∧
        db.namespaces.insert? id name = some namespaces) →
      ({ db₁ with namespaces := namespaces } : Authority).upsertMembership call.now
        primitives.legacyGrantId n p role = .ok db' → Writes primitives call db db'
  | grant {candidateId p id : Id} {signIn : SignIn} {displayName : String} {row : GrantRow}
      {db₁ db' : Authority} :
      db.upsertPrincipal candidateId signIn displayName = .ok (p, db₁) →
      row.contribution = .manual id → db₁.insertGrant id row = .ok db' →
      Writes primitives call db db'
  | revocation {id : Id} {row : GrantRow} : db.grants.get? id = some row →
      row.contribution = .manual id → Writes primitives call db
        (db.updateGrants (fun id' _ => id' = id) fun row =>
          { row with revokedAt := some call.now, updatedAt := call.now })
  | configuration {mapping : DirectoryMapping} {db' : Authority} :
      call.operation = .configureDirectory mapping →
      configureDirectory primitives.digest call.now mapping db = .ok ((), db') →
      Writes primitives call db db'
  | snapshot {grantId : DesiredGrant → Id} {snapshot : DirectorySnapshot} {db' : Authority} :
      call.operation = .applyDirectorySnapshot grantId snapshot →
      applyDirectorySnapshot call.now grantId snapshot db = .ok ((), db') →
      Writes primitives call db db'
  | failure {sourceId : String} {revision : Int} :
      call.operation = .recordDirectoryFailure sourceId revision →
      Writes primitives call db (recordDirectoryFailure call.now sourceId revision db)
  | keys {t : Table (String × String) DelegationKey} :
      Writes primitives call db { db with serviceKeys := t }
  | ledger {t : Table (String × String) AssertionRow} : call.operation.keepsLedger = false →
      Writes primitives call db { db with assertions := t }

theorem AuthorityCall.writes {call : AuthorityCall} (h : call.run primitives db = .ok db') :
    call.Writes primitives db db' := by
  cases hop : call.operation <;> simp only [run, hop, map_snd_ok_iff, Except.ok.injEq] at h
  case ensureBootstrapIdentity =>
      obtain ⟨_, h⟩ := h
      simp only [ensureBootstrapIdentity, bind_ok_iff, Prod.exists] at h
      obtain ⟨p, db₁, hprincipal, h⟩ := h
      obtain ⟨t, rfl⟩ := Authority.upsertPrincipal_eq hprincipal
      split at h
      · simp only [bind_ok_iff, pure_ok_iff, Prod.mk.injEq] at h
        obtain ⟨_, hmember, -, rfl⟩ := h
        exact .membership hprincipal (Or.inl rfl) hmember
      · rename_i hfree
        simp only [bind_ok_iff, need_ok_iff, pure_ok_iff, Prod.mk.injEq] at h
        obtain ⟨namespaces, hinsert, _, hmember, -, rfl⟩ := h
        exact .membership hprincipal (Or.inr ⟨_, _, hfree, hinsert⟩) hmember
  case putMembership =>
      obtain ⟨_, h⟩ := h
      simp only [putMembership, bind_ok_iff] at h
      obtain ⟨-, -, authorization, -, replayed, -, h⟩ := h
      split at h
      · cases h
        exact .nothing
      · simp only [bind_ok_iff, pure_ok_iff, Prod.mk.injEq, Prod.exists] at h
        obtain ⟨p, db₁, hprincipal, _, hmember, -, rfl⟩ := h
        obtain ⟨t, rfl⟩ := Authority.upsertPrincipal_eq hprincipal
        exact .membership hprincipal (Or.inl rfl) hmember
  case putMembershipGrant =>
      obtain ⟨_, h⟩ := h
      simp only [putMembershipGrant, bind_ok_iff] at h
      obtain ⟨-, -, authorization, -, h⟩ := h
      split at h
      · simp only [bind_ok_iff, pure_ok_iff, Prod.mk.injEq] at h
        obtain ⟨-, -, -, -, -, rfl⟩ := h
        exact .nothing
      · simp only [bind_ok_iff, pure_ok_iff, Prod.mk.injEq, Prod.exists] at h
        obtain ⟨p, db₁, hprincipal, -, -, _, hinsert, -, rfl⟩ := h
        exact .grant hprincipal rfl hinsert
  case revokeMembershipGrant =>
      obtain ⟨_, h⟩ := h
      simp only [revokeMembershipGrant, bind_ok_iff, need_ok_iff, ensure_ok_iff] at h
      obtain ⟨authorization, -, grant, hgrant, -, hmanual, h⟩ := h
      split at h
      · cases h
        exact .nothing
      · cases h
        exact .revocation (Option.filter_eq_some_iff.mp hgrant).1 hmanual
  case configureDirectory => exact .configuration hop h.choose_spec
  case applyDirectorySnapshot => exact .snapshot hop h.choose_spec
  case recordDirectoryFailure =>
      subst h
      exact .failure hop
  case registerDelegationKeys =>
      obtain ⟨_, rfl⟩ := registerDelegationKeys_eq h.choose_spec
      exact .keys
  case presentAssertion =>
      obtain ⟨_, rfl⟩ := presentAssertion_eq h.choose_spec
      exact .ledger (by rw [hop]; rfl)
  case pruneDelegationAudits =>
      obtain ⟨_, rfl⟩ := pruneDelegationAudits_eq h.choose_spec
      exact .ledger (by rw [hop]; rfl)

theorem AuthorityCall.namespaceNamed_run {call : AuthorityCall}
    (h : call.run primitives db = .ok db') {n : Id} (hname : db.namespaceNamed name = some n) :
    db'.namespaceNamed name = some n := by
  cases call.writes h with
  | nothing | keys | ledger => exact hname
  | membership hprincipal hnamespaces hmember =>
      obtain ⟨t, rfl⟩ := Authority.upsertPrincipal_eq hprincipal
      obtain ⟨m, g, v, rfl⟩ := Authority.upsertMembership_eq hmember
      obtain rfl | ⟨_, name', hfree, hinsert⟩ := hnamespaces
      · exact hname
      · have hother : name' ≠ name := by
          rintro rfl
          cases hname.symm.trans hfree
        rw [Authority.namespaceNamed, Table.select_insert hinsert (decide_eq_false hother)]
        exact hname
  | grant hprincipal _ hinsert =>
      obtain ⟨t, rfl⟩ := Authority.upsertPrincipal_eq hprincipal
      obtain ⟨_, -, rfl⟩ := Authority.insertGrant_eq hinsert
      exact hname
  | revocation =>
      obtain ⟨_, hv⟩ := db.updateGrants_eq _ _
      rw [hv]
      exact hname
  | configuration _ h =>
      obtain ⟨_, _, _, _, _, _, _, rfl⟩ := configureDirectory_eq h
      exact hname
  | snapshot _ h =>
      obtain ⟨_, _, _, _, _, _, rfl⟩ := applyDirectorySnapshot_eq h
      exact hname
  | failure _ =>
      obtain ⟨_, _, hfailure⟩ := recordDirectoryFailure_eq call.now _ _ db
      rw [hfailure]
      exact hname

end JobmanControl
