import JobmanControl.Authority.Snapshot

/-!
Authority in a managed namespace rests on evidence. Whenever the verification time
of a managed namespace is set, the latest snapshot applied for its source was
taken for the source's present mapping and for the present recovery epoch, and
every unrevoked directory grant in the namespace is one that this snapshot
implies. Only such grants count there, so whoever is authorized is in a bound
group of that snapshot.
-/

namespace JobmanControl

open Relational

variable {db db' : Authority} {now t : Time} {f : GrantRow → GrantRow} {legacyId : Id → Id → Id}
  {mapping : DirectoryMapping} {entry : Id × PrincipalRow} {auth : NamespaceAuthorization}
  {primitives : Primitives} {id : Id} {signIn : SignIn} {displayName sourceId : String}
  {call : AuthorityCall} {w : AuthorityHistory} {caller : Principal}
  {capabilities : List Capability} {d : DesiredGrant} {applied : List DirectorySnapshot}

/-! Grants made by administrators are never directory grants. -/

namespace Authority

theorem granted_of_grants_eq (h : db'.grants = db.grants) : db'.Granted d ↔ db.Granted d := by
  unfold Granted
  rw [h]

theorem granted_of_insertGrant {row : GrantRow}
    (hrow : ∀ groupId, row.contribution ≠ .directory groupId) (h : db.insertGrant id row = .ok db')
    (hgranted : db'.Granted d) : db.Granted d := by
  obtain ⟨grants, hinsert, rfl⟩ := insertGrant_eq h
  obtain ⟨id', grant, hget, hrest⟩ := hgranted
  have hget' := (Table.get?_insert hinsert id').symm.trans hget
  split at hget'
  · cases hget'
    exact absurd hrest.2.2.2.2 (hrow d.groupId)
  · exact ⟨id', grant, hget', hrest⟩

theorem granted_of_updateGrants_one {old : GrantRow} (hold : db.grants.get? id = some old)
    (hf : ∀ groupId, (f old).contribution ≠ .directory groupId)
    (hgranted : (db.updateGrants (fun i _ => i = id) f).Granted d) : db.Granted d := by
  obtain ⟨id', grant, hget, hrest⟩ := hgranted
  rw [get?_updateGrants_one hold] at hget
  split at hget
  · cases hget
    exact absurd hrest.2.2.2.2 (hf d.groupId)
  · exact ⟨id', grant, hget, hrest⟩

theorem granted_of_upsertGrant {row : GrantRow} (h : db.upsertGrant id row f = .ok db')
    (hrow : ∀ groupId, row.contribution ≠ .directory groupId)
    (hf : ∀ r, (f r).contribution = r.contribution) (hgranted : db'.Granted d) : db.Granted d := by
  unfold upsertGrant at h
  split at h
  · exact granted_of_insertGrant hrow h hgranted
  · rename_i existing hexisting
    cases h
    obtain ⟨old, hold, -, -, hc⟩ := grantFor_some hexisting
    refine granted_of_updateGrants_one hold ?_ hgranted
    intro groupId hdirectory
    exact hrow groupId (hc.symm.trans ((hf old).symm.trans hdirectory))

theorem granted_of_upsertMembership {n p : Id} {role : Role}
    (h : db.upsertMembership now legacyId n p role = .ok db') (hgranted : db'.Granted d) :
    db.Granted d := by
  unfold upsertMembership at h
  have hbefore := granted_of_upsertGrant h (fun _ hc => by cases hc) (fun _ => rfl) hgranted
  exact (granted_of_grants_eq rfl).mp hbefore

theorem granted_of_upsertPrincipal {id' : Id}
    (h : db.upsertPrincipal id signIn displayName = .ok (id', db')) :
    db'.Granted d ↔ db.Granted d := by
  obtain ⟨t, rfl⟩ := upsertPrincipal_eq h
  exact granted_of_grants_eq rfl

end Authority

theorem AuthorityCall.granted_of_run (h : call.run primitives db = .ok db')
    (hkeeps : call.operation.keepsDirectory = true) (hgranted : db'.Granted d) : db.Granted d := by
  cases call.writes h with
  | nothing => exact hgranted
  | keys | ledger => exact (Authority.granted_of_grants_eq rfl).mp hgranted
  | membership hprincipal _ hmember =>
      rw [← Authority.granted_of_upsertPrincipal hprincipal]
      have hbefore := Authority.granted_of_upsertMembership hmember hgranted
      exact (Authority.granted_of_grants_eq rfl).mp hbefore
  | grant hprincipal hmanual hinsert =>
      rw [← Authority.granted_of_upsertPrincipal hprincipal]
      refine Authority.granted_of_insertGrant ?_ hinsert hgranted
      exact fun _ hc => by cases hmanual.symm.trans hc
  | revocation hget hmanual =>
      refine Authority.granted_of_updateGrants_one hget ?_ hgranted
      exact fun _ hdirectory => by cases hmanual.symm.trans hdirectory
  | configuration hop | snapshot hop | failure hop =>
      simp [hop, AuthorityOperation.keepsDirectory] at hkeeps

/-! What stands behind a verification time. -/

/-- The latest snapshot applied for a source speaks for its present mapping and for the
present epoch, and implies the directory grants of a namespace. -/
structure Evidence (db : Authority) (applied : List DirectorySnapshot) (sourceId : String) (n : Id)
    (source : SourceRow) (snapshot : DirectorySnapshot) : Prop where
  configured : db.sources.get? sourceId = some source
  latest : (applied.find? fun s => s.sourceId = sourceId) = some snapshot
  revision : snapshot.revision = source.revision
  epoch : snapshot.recoveryEpoch = db.epoch.restoreEpoch
  grants : ∀ d, d.namespaceId = n → db.Granted d → Implied source.mapping snapshot d

/-- Every verification time of a managed namespace has its evidence. -/
def Evidenced (db : Authority) (applied : List DirectorySnapshot) : Prop :=
  ∀ n state verified, db.managed.get? n = some state → state.lastVerifiedAt = some verified →
    ∃ source snapshot, Evidence db applied state.sourceId n source snapshot ∧
      snapshot.verifiedAt = verified

namespace Evidenced

open Authority

theorem reconfigured (h : Evidenced db applied) {digest : DirectoryMapping → String}
    (hnew : Reconfigured digest mapping db db') :
    Evidenced db' applied := by
  intro n state verified hstate hverified
  -- The namespaces of the source itself have lost their verification.
  have hother : state.sourceId ≠ mapping.sourceId := by
    intro hsource
    rw [hnew.withdrawn n state hstate hsource] at hverified
    cases hverified
  have hbefore := (hnew.managed.others n state hother).mp hstate
  obtain ⟨source, snapshot, hevidence, hat⟩ := h n state verified hbefore hverified
  obtain ⟨row, -, -, -, -, hget⟩ := hnew.installed
  refine ⟨source, snapshot, ⟨?_, hevidence.latest, hevidence.revision, ?_, ?_⟩, hat⟩
  · rw [hget, if_neg hother]
    exact hevidence.configured
  · rw [hnew.epoch]
    exact hevidence.epoch
  · intro d hd hgranted
    exact hevidence.grants d hd ((granted_of_grants_eq hnew.grants).mp hgranted)

theorem applied_snapshot (h : Evidenced db applied) (hconfigured : Configured db)
    {grantId : DesiredGrant → Id} {snapshot : DirectorySnapshot} {u : Unit}
    (happly : applyDirectorySnapshot now grantId snapshot db = .ok (u, db')) :
    Evidenced db' (snapshot :: applied) := by
  obtain ⟨source, hacceptable, hexact, hothers⟩ := applyDirectorySnapshot_grants hconfigured happly
  obtain ⟨source', hsource', hsources, hmanaged, hepoch⟩ := applyDirectorySnapshot_directory happly
  cases hacceptable.configured.symm.trans hsource'
  obtain ⟨hown, -, -⟩ := hconfigured.own _ _ hsource'
  rw [hown] at hsources hmanaged
  intro n state verified hstate hverified
  rw [hmanaged, recordVerification, Table.get?_updateWhere, Option.map_eq_some_iff] at hstate
  obtain ⟨old, hold, rfl⟩ := hstate
  by_cases hsource : old.sourceId = snapshot.sourceId
  · rw [if_pos (decide_eq_true hsource)] at hverified ⊢
    cases hverified
    have hrow : ∃ row, db'.sources.get? snapshot.sourceId = some row ∧
        row.mapping = source.mapping ∧ row.revision = source.revision := by
      rw [hsources, recordVerification, Table.get?_modify_self, hsource']
      exact ⟨_, rfl, rfl, rfl⟩
    obtain ⟨row, hget, hmapping, hrevision⟩ := hrow
    refine ⟨row, snapshot, ⟨?_, ?_, ?_, ?_, ?_⟩, rfl⟩
    · rw [hsource, hget]
    · rw [List.find?_cons, decide_eq_true hsource.symm]
    · rw [hrevision, hacceptable.revision]
    · rw [hepoch, hacceptable.epoch]
    · intro d hd hgranted
      rw [hmapping]
      refine (hexact d ?_).mp hgranted
      rw [hd]
      exact (db.isManagedBy_iff _ n).mpr ⟨old, hold, hsource⟩
  · rw [if_neg (by simpa using hsource)] at hverified ⊢
    obtain ⟨row, latest, hevidence, hat⟩ := h n old verified hold hverified
    refine ⟨row, latest, ⟨?_, ?_, hevidence.revision, ?_, ?_⟩, hat⟩
    · rw [hsources, recordVerification, Table.get?_modify_of_ne _ _ hsource]
      exact hevidence.configured
    · rw [List.find?_cons, decide_eq_false (Ne.symm hsource)]
      exact hevidence.latest
    · rw [hepoch]
      exact hevidence.epoch
    · rintro d hd ⟨id, grant, hget, hrest⟩
      refine hevidence.grants d hd ⟨id, grant, ?_, hrest⟩
      refine (get?_iff_of_othersGrant (hothers id) ?_).mp hget
      have hmine : db.isManagedBy snapshot.sourceId n = false := by
        rw [← Bool.not_eq_true, isManagedBy_iff]
        rintro ⟨state, hstate, hsame⟩
        cases hold.symm.trans hstate
        exact hsource hsame
      obtain ⟨-, hn, -, -, hc⟩ := hrest
      simp only [isGrantOf, hc, hn, hd, hmine]

theorem recordDirectoryFailure (h : Evidenced db applied) (now : Time) (sourceId : String)
    (revision : Int) : Evidenced (recordDirectoryFailure now sourceId revision db) applied := by
  unfold JobmanControl.recordDirectoryFailure
  split
  · intro n state verified hstate hverified
    obtain ⟨old, hold, hnew⟩ := Option.map_eq_some_iff.mp
      ((Table.get?_updateWhere _ _ _ n).symm.trans hstate)
    have hkept : state.sourceId = old.sourceId ∧ state.lastVerifiedAt = old.lastVerifiedAt := by
      rw [← hnew]
      split <;> exact ⟨rfl, rfl⟩
    rw [hkept.2] at hverified
    rw [hkept.1]
    obtain ⟨source, snapshot, hevidence, hat⟩ := h n old verified hold hverified
    have hrow : ∃ row, (db.sources.modify sourceId fun row =>
        { row with
          lastAttemptAt := some now
          lastErrorCode := some "verification_failed" }).get? old.sourceId = some row ∧
        row.mapping = source.mapping ∧ row.revision = source.revision := by
      rw [Table.get?_modify, hevidence.configured]
      split
      · exact ⟨_, rfl, rfl, rfl⟩
      · exact ⟨source, rfl, rfl, rfl⟩
    obtain ⟨row, hget, hmapping, hrevision⟩ := hrow
    refine ⟨row, snapshot, ⟨hget, hevidence.latest, ?_, hevidence.epoch, ?_⟩, hat⟩
    · rw [hrevision]
      exact hevidence.revision
    · intro d hd hgranted
      rw [hmapping]
      exact hevidence.grants d hd ((granted_of_grants_eq rfl).mp hgranted)
  · exact h

theorem run (h : Evidenced db applied) (hconfigured : Configured db)
    (hrun : call.run primitives db = .ok db') :
    Evidenced db' ((call.snapshot primitives db).toList ++ applied) := by
  obtain hkeeps | ⟨mapping, hop, hconfigure⟩ | ⟨grantId, snapshot, hop, happly⟩ |
    ⟨sourceId, revision, hop, rfl⟩ := call.directory_cases hrun
  · have hnone : call.snapshot primitives db = none := by
      unfold AuthorityCall.snapshot
      split
      · rename_i hop _
        simp [hop, AuthorityOperation.keepsDirectory] at hkeeps
      · rfl
    rw [hnone]
    obtain ⟨hsources, hmanaged, hepoch⟩ := AuthorityCall.directory_eq hrun hkeeps
    intro n state verified hstate hverified
    rw [hmanaged] at hstate
    obtain ⟨source, snapshot, hevidence, hat⟩ := h n state verified hstate hverified
    refine ⟨source, snapshot, ⟨?_, hevidence.latest, hevidence.revision, ?_, ?_⟩, hat⟩
    · rw [hsources]
      exact hevidence.configured
    · rw [hepoch]
      exact hevidence.epoch
    · intro d hd hgranted
      exact hevidence.grants d hd (AuthorityCall.granted_of_run hrun hkeeps hgranted)
  · have hnone : call.snapshot primitives db = none := by simp [AuthorityCall.snapshot, hop]
    rw [hnone]
    obtain ⟨rfl, -⟩ | hnew := configureDirectory_cases hconfigure
    · exact h
    · exact h.reconfigured hnew
  · have hsome : call.snapshot primitives db = some snapshot := by
      simp [AuthorityCall.snapshot, hop, hrun]
    rw [hsome]
    exact h.applied_snapshot hconfigured happly
  · have hnone : call.snapshot primitives db = none := by simp [AuthorityCall.snapshot, hop]
    rw [hnone]
    exact h.recordDirectoryFailure call.now sourceId revision

theorem arises (h : AuthorityHistory.Arises primitives w) : Evidenced w.db w.applied := by
  have hall : AuthorityHistory.Arises primitives w ∧ Evidenced w.db w.applied := by
    refine h.invariant (P := fun w => AuthorityHistory.Arises primitives w ∧
      Evidenced w.db w.applied) ⟨.refl, ?_⟩ ?_
    · intro n state verified hstate
      cases hstate
    · rintro w event w' ⟨harises, hw⟩ - hstep
      refine ⟨.tail event harises trivial hstep, ?_⟩
      obtain ⟨rfl, -⟩ := hstep
      cases event with
      | restore now old =>
          intro n state verified hstate hverified
          obtain ⟨row, -, rfl⟩ := Option.map_eq_some_iff.mp
            ((Table.get?_updateWhere _ _ _ n).symm.trans hstate)
          cases hverified
      | call c =>
          simp only [AuthorityHistory.next, AuthorityCall.apply]
          cases hrun : c.run primitives w.db with
          | ok db' => exact hw.run (Configured.arises harises) hrun
          | error e =>
              have hnone : c.snapshot primitives w.db = none := by
                unfold AuthorityCall.snapshot
                rw [hrun]
                split <;> first | rfl | contradiction
              rw [hnone]
              exact hw
  exact hall.2

end Evidenced

/-! Who a caller is. -/

/-- No two principals have the same sign-in identity. -/
def Identified (db : Authority) : Prop :=
  ∀ id id' row row', db.principals.get? id = some row → db.principals.get? id' = some row' →
    row.signIn = row'.signIn → id = id'

namespace Authority

theorem principalOf_some (h : db.principalOf signIn = some entry) :
    db.principals.get? entry.1 = some entry.2 ∧ entry.2.signIn = signIn := by
  have hmem := List.mem_of_mem_head? (Option.mem_def.mpr h)
  rw [Table.mem_select, decide_eq_true_eq] at hmem
  exact hmem

theorem principalOf_none (h : db.principalOf signIn = none) :
    ∀ id row, db.principals.get? id = some row → row.signIn ≠ signIn := by
  intro id row hrow hsame
  have hmem := (db.principals.mem_select (fun _ p => p.signIn = signIn) id row).mpr
    ⟨hrow, decide_eq_true hsame⟩
  rw [principalOf, List.head?_eq_none_iff] at h
  rw [h] at hmem
  exact absurd hmem List.not_mem_nil

theorem identified_of_signIns (h : Identified db)
    (hback : ∀ id row, db'.principals.get? id = some row →
      ∃ old, db.principals.get? id = some old ∧ old.signIn = row.signIn) : Identified db' := by
  intro i i' r r' hr hr' hsame
  obtain ⟨old, hold, hsign⟩ := hback i r hr
  obtain ⟨old', hold', hsign'⟩ := hback i' r' hr'
  exact h i i' old old' hold hold' (hsign.trans (hsame.trans hsign'.symm))

theorem identified_of_eq (h : Identified db) (heq : db'.principals = db.principals) :
    Identified db' :=
  identified_of_signIns h fun _ row hrow => ⟨row, heq ▸ hrow, rfl⟩

theorem identified_insert (h : Identified db) {row : PrincipalRow} {t : Table Id PrincipalRow}
    (hinsert : db.principals.insert? id row = some t) (hfree : db.principalOf row.signIn = none)
    (ht : db'.principals = t) : Identified db' := by
  intro i i' r r' hr hr' hsame
  rw [ht, Table.get?_insert hinsert] at hr hr'
  have hnew := principalOf_none hfree
  split at hr <;> split at hr'
  · simp_all
  · cases hr
    exact absurd hsame.symm (hnew i' r' hr')
  · cases hr'
    exact absurd hsame (hnew i r hr)
  · exact h i i' r r' hr hr' hsame

theorem identified_upsertPrincipal (h : Identified db) {id' : Id}
    (hup : db.upsertPrincipal id signIn displayName = .ok (id', db')) : Identified db' := by
  simp only [upsertPrincipal, bind_ok_iff, ensure_ok_iff] at hup
  obtain ⟨-, -, hup⟩ := hup
  split at hup
  · simp only [bind_ok_iff, ensure_ok_iff, pure_ok_iff, Prod.mk.injEq] at hup
    obtain ⟨-, -, -, rfl⟩ := hup
    -- Only the display name changes.
    refine identified_of_signIns h fun i r hr => ?_
    rw [Table.get?_modify] at hr
    split at hr
    · obtain ⟨old, hold, rfl⟩ := Option.map_eq_some_iff.mp hr
      exact ⟨old, hold, rfl⟩
    · exact ⟨r, hr, rfl⟩
  · rename_i hnone
    simp only [bind_ok_iff, need_ok_iff, pure_ok_iff, Prod.mk.injEq] at hup
    obtain ⟨principals, hinsert, -, rfl⟩ := hup
    exact identified_insert h hinsert hnone rfl

theorem identified_insertPrincipal (h : Identified db)
    (hins : db.insertPrincipal id signIn displayName = .ok db') : Identified db' := by
  simp only [insertPrincipal, bind_ok_iff, ensure_ok_iff] at hins
  obtain ⟨-, -, -, -, hins⟩ := hins
  split at hins
  · rw [pure_ok_iff] at hins
    exact hins ▸ h
  · rename_i principals hinsert
    simp only [bind_ok_iff, ensure_ok_iff, pure_ok_iff] at hins
    obtain ⟨-, hfree, rfl⟩ := hins
    exact identified_insert h hinsert hfree rfl

theorem identified_upsertMembership (h : Identified db) {n p : Id} {role : Role}
    (hup : db.upsertMembership now legacyId n p role = .ok db') :
    Identified db' := by
  obtain ⟨_, _, _, rfl⟩ := upsertMembership_eq hup
  exact identified_of_eq h rfl

theorem identified_configureDirectory (h : Identified db) {digest : DirectoryMapping → String}
    {u : Unit} (hrun : configureDirectory digest now mapping db = .ok (u, db')) :
    Identified db' := by
  simp only [configureDirectory, bind_ok_iff] at hrun
  obtain ⟨-, -, -, -, -, -, hrun⟩ := hrun
  split at hrun
  · simp only [pure_ok_iff, Prod.mk.injEq] at hrun
    exact hrun.2 ▸ h
  · simp only [bind_ok_iff, pure_ok_iff, Prod.mk.injEq] at hrun
    obtain ⟨-, -, db₁, hidentities, -, rfl⟩ := hrun
    have hinstalled : Identified db₁ := by
      refine foldlM_ok_induction (P := Identified) _ ?_ ?_ hidentities
      · intro a identity a' _ ha hinstall
        simp only [installIdentity, bind_ok_iff] at hinstall
        obtain ⟨db₂, hprincipal, haccount⟩ := hinstall
        obtain ⟨_, _, rfl⟩ := upsertAccount_eq haccount
        exact identified_of_eq (identified_insertPrincipal ha hprincipal) rfl
      · refine identified_of_eq h ?_
        obtain ⟨_, _, hb⟩ := foldl_upsertBinding_eq _ mapping.bindings
        obtain ⟨_, _, ha⟩ := withdrawAccounts_eq _ mapping.sourceId
        obtain ⟨_, _, hd⟩ := withdrawBindings_eq _ mapping.sourceId
        obtain ⟨_, _, hm⟩ := foldl_manageNamespace_eq (db.installMapping digest now mapping)
          mapping.sourceId mapping.revision mapping.namespaces
        rw [hb, ha, hd, hm]
        rfl
    exact identified_of_eq hinstalled rfl

end Authority

theorem Identified.run (h : Identified db) (hrun : call.run primitives db = .ok db') :
    Identified db' := by
  cases call.writes hrun with
  | nothing | keys | ledger => exact Authority.identified_of_eq h rfl
  | membership hprincipal _ hmember =>
      refine Authority.identified_upsertMembership ?_ hmember
      exact Authority.identified_of_eq (Authority.identified_upsertPrincipal h hprincipal) rfl
  | grant hprincipal _ hinsert =>
      obtain ⟨_, -, rfl⟩ := Authority.insertGrant_eq hinsert
      exact Authority.identified_of_eq (Authority.identified_upsertPrincipal h hprincipal) rfl
  | revocation =>
      obtain ⟨_, hv⟩ := db.updateGrants_eq _ _
      rw [hv]
      exact Authority.identified_of_eq h rfl
  | configuration _ hconfigure => exact Authority.identified_configureDirectory h hconfigure
  | snapshot _ happly =>
      obtain ⟨_, _, _, _, _, _, rfl⟩ := applyDirectorySnapshot_eq happly
      exact Authority.identified_of_eq h rfl
  | failure _ =>
      obtain ⟨_, _, hfailure⟩ := recordDirectoryFailure_eq call.now _ _ db
      rw [hfailure]
      exact Authority.identified_of_eq h rfl

theorem Identified.arises (h : AuthorityHistory.Arises primitives w) : Identified w.db := by
  refine h.holds ?_ ?_ ?_
  · intro _ _ _ _ hrow
    cases hrow
  · intro call db db' hdb hrun
    exact hdb.run hrun
  · intro now db hdb
    exact Authority.identified_of_eq hdb rfl

/-- The sign-in identity belongs to the principal: it is the canonical one, or a
registered alias. -/
def Denotes (db : Authority) (signIn : SignIn) (principalId : Id) : Prop :=
  (∃ row, db.principals.get? principalId = some row ∧ row.signIn = signIn) ∨
    ∃ row, db.aliases.get? signIn = some row ∧ row.principalId = principalId

theorem denotes_of_resolveCaller (hidentified : Identified db) {canonical : Principal}
    (hresolve : db.resolveCaller t caller capabilities = .ok canonical)
    (hentry : db.principalOf canonical.signIn = some entry) : Denotes db caller.signIn entry.1 := by
  obtain ⟨hrow, hsign⟩ := Authority.principalOf_some hentry
  unfold Authority.resolveCaller at hresolve
  split at hresolve
  · simp only [Authority.resolveDelegatedPrincipal, bind_ok_iff, need_ok_iff, ensure_ok_iff,
      pure_ok_iff] at hresolve
    obtain ⟨-, -, identity, ⟨actor, -, directoryId, -, -, -, key, -, -, -, approved, happroved, -,
      -, account, -, -, hsame, canonicalRow, hcanonical, -, -, -, -, -, -, rfl⟩, rfl⟩ := hresolve
    refine Or.inr ⟨approved, happroved, ?_⟩
    rw [← hsame]
    exact hidentified _ _ _ _ hcanonical hrow hsign.symm
  · cases hresolve
    simp only [Authority.resolveAlias] at hsign
    split at hsign
    · rename_i approved happroved
      split at hsign
      · rename_i canonicalRow hcanonical
        refine Or.inr ⟨approved, happroved, ?_⟩
        exact hidentified _ _ _ _ hcanonical hrow hsign.symm
      · exact Or.inl ⟨_, hrow, hsign⟩
    · exact Or.inl ⟨_, hrow, hsign⟩

theorem authorizeNamespace_ok {name : String}
    (h : db.authorizeNamespace t caller name capabilities = .ok auth) :
    ∃ canonical row, db.resolveCaller t caller capabilities = .ok canonical ∧
      db.principalOf canonical.signIn = some (auth.principalId, row) ∧
      auth.capabilities =
        effectiveCapabilities (db.authorizedRoles auth.namespaceId auth.principalId) ∧
      ∀ state, db.managed.get? auth.namespaceId = some state →
        verifiedRecently t state.lastVerifiedAt = true := by
  simp only [Authority.authorizeNamespace, bind_ok_iff, need_ok_iff, ensure_ok_iff,
    pure_ok_iff] at h
  obtain ⟨canonical, hresolve, entry, hentry, n, -, -, -, -, -, -, hfresh, -, -, -, -, rfl⟩ := h
  refine ⟨canonical, entry.2, hresolve, hentry, rfl, ?_⟩
  intro state hstate
  rw [hstate, Option.all_some, Bool.and_eq_true] at hfresh
  exact hfresh.1

def Unverified (sourceId : String) (db : Authority) : Prop :=
  ∀ n state, db.managed.get? n = some state → state.sourceId = sourceId →
    state.lastVerifiedAt = none

theorem Unverified.nobody (h : Unverified sourceId db) {name : String}
    (hauth : db.authorizeNamespace t caller name capabilities = .ok auth) :
    db.isManagedBy sourceId auth.namespaceId = false := by
  rw [← Bool.not_eq_true, Authority.isManagedBy_iff]
  rintro ⟨state, hstate, hsource⟩
  obtain ⟨_, _, -, -, -, hfresh⟩ := authorizeNamespace_ok hauth
  have hrecent := hfresh state hstate
  rw [h _ state hstate hsource] at hrecent
  cases hrecent

theorem unverified_advanceEpoch (sourceId : String) (now : Time) (db : Authority) :
    Unverified sourceId (advanceEpoch now db) := by
  intro n state hstate _
  obtain ⟨row, -, rfl⟩ := Option.map_eq_some_iff.mp
    ((Table.get?_updateWhere _ _ _ n).symm.trans hstate)
  rfl

/-- The event is a new revision of the source's mapping, or a restore. -/
def AuthorityEvent.renews (primitives : Primitives) (w : AuthorityHistory) (sourceId : String) :
    AuthorityEvent → Prop
  | .restore _ _ => True
  | .call c => ∃ mapping, c.operation = .configureDirectory mapping ∧
      mapping.sourceId = sourceId ∧ (∃ db', c.run primitives w.db = .ok db') ∧
      ∀ row, w.db.sources.get? sourceId = some row → row.revision ≠ mapping.revision

/-- The event applies a snapshot of the source. -/
def AuthorityEvent.appliesFor (primitives : Primitives) (w : AuthorityHistory)
    (sourceId : String) : AuthorityEvent → Prop
  | .restore _ _ => False
  | .call c => ∃ snapshot, c.snapshot primitives w.db = some snapshot ∧
      snapshot.sourceId = sourceId

theorem Unverified.run (h : Unverified sourceId db) (hconfigured : Configured db)
    (hrun : call.run primitives db = .ok db')
    (hother : ∀ snapshot, call.snapshot primitives db = some snapshot →
      snapshot.sourceId ≠ sourceId) : Unverified sourceId db' := by
  obtain hkeeps | ⟨mapping, -, hconfigure⟩ | ⟨grantId, snapshot, hop, happly⟩ | ⟨_, _, -, rfl⟩ :=
    call.directory_cases hrun
  · obtain ⟨-, hmanaged, -⟩ := AuthorityCall.directory_eq hrun hkeeps
    intro n state hstate
    rw [hmanaged] at hstate
    exact h n state hstate
  · obtain ⟨rfl, -⟩ | hnew := configureDirectory_cases hconfigure
    · exact h
    · intro n state hstate hsource
      by_cases hmine : state.sourceId = mapping.sourceId
      · exact hnew.withdrawn n state hstate hmine
      · exact h n state ((hnew.managed.others n state hmine).mp hstate) hsource
  · have hsnapshot := hother snapshot (by simp [AuthorityCall.snapshot, hop, hrun])
    obtain ⟨source, hsource, -, hmanaged, -⟩ := applyDirectorySnapshot_directory happly
    rw [(hconfigured.own _ _ hsource).1] at hmanaged
    intro n state hstate hmine
    rw [hmanaged, Authority.recordVerification, Table.get?_updateWhere,
      Option.map_eq_some_iff] at hstate
    obtain ⟨old, hold, rfl⟩ := hstate
    split at hmine <;> rename_i hsame
    · exact absurd ((of_decide_eq_true hsame).symm.trans hmine) hsnapshot
    · rw [if_neg hsame]
      exact h n old hold hmine
  · unfold recordDirectoryFailure
    split
    · intro n state hstate hmine
      obtain ⟨old, hold, rfl⟩ := Option.map_eq_some_iff.mp
        ((Table.get?_updateWhere _ _ _ n).symm.trans hstate)
      split at hmine <;> rename_i hsame
      · rw [if_pos hsame]
        exact h n old hold hmine
      · rw [if_neg hsame]
        exact h n old hold hmine
    · exact h

theorem unverified_of_renews {w' : AuthorityHistory} {event : AuthorityEvent}
    (h : event.renews primitives w sourceId) (hstep : AuthorityHistory.Step primitives w event w') :
    Unverified sourceId w'.db := by
  obtain ⟨rfl, -⟩ := hstep
  cases event with
  | restore now old => exact unverified_advanceEpoch sourceId now old
  | call c =>
      obtain ⟨mapping, hop, rfl, ⟨db', hrun⟩, hrevision⟩ := h
      simp only [AuthorityHistory.next, AuthorityCall.apply, hrun]
      simp only [AuthorityCall.run, hop, map_snd_ok_iff] at hrun
      obtain ⟨-, row, hrow, hsame, -⟩ | hnew := configureDirectory_cases hrun.choose_spec
      · exact absurd hsame (hrevision row hrow)
      · exact hnew.withdrawn

theorem unverified_step {w' : AuthorityHistory} {event : AuthorityEvent}
    (hconfigured : Configured w.db) (h : Unverified sourceId w.db)
    (hother : ¬ event.appliesFor primitives w sourceId)
    (hstep : AuthorityHistory.Step primitives w event w') : Unverified sourceId w'.db := by
  obtain ⟨rfl, -⟩ := hstep
  cases event with
  | restore now old => exact unverified_advanceEpoch sourceId now old
  | call c =>
      simp only [AuthorityHistory.next, AuthorityCall.apply]
      cases hrun : c.run primitives w.db with
      | error e => exact h
      | ok db' =>
          refine h.run hconfigured hrun ?_
          intro snapshot hsnapshot hsource
          exact hother ⟨snapshot, hsnapshot, hsource⟩

/-- Whoever is authorized in a managed namespace is, under the canonical identity or a
registered alias, a principal whose account the latest snapshot applied for the source
reports as existing and enabled. That snapshot was taken for the source's present
revision and epoch and verified less than two minutes ago, and every capability comes
with a role to which a group that lists the account is bound. After a new revision or
a restore nobody is authorized until a snapshot of the source is applied. -/
theorem managed_authority_is_evidenced (h : AuthorityHistory.Arises primitives w) :
    (∀ t caller name capabilities auth state c,
      w.db.authorizeNamespace t caller name capabilities = .ok auth →
      w.db.managed.get? auth.namespaceId = some state → c ∈ auth.capabilities →
      Denotes w.db caller.signIn auth.principalId ∧
      ∃ source snapshot, w.db.sources.get? state.sourceId = some source ∧
        (w.applied.find? fun s => s.sourceId = state.sourceId) = some snapshot ∧
        snapshot.revision = source.revision ∧
        snapshot.recoveryEpoch = w.db.epoch.restoreEpoch ∧
        t < snapshot.verifiedAt + 120 * second ∧
        ∃ identity ∈ source.mapping.identities, identity.principalId = auth.principalId ∧
          (∃ account ∈ snapshot.accounts, account.directoryId = identity.directoryId ∧
            account.present = true ∧ account.enabled = true) ∧
          ∃ role : Role, c ∈ role.capabilities ∧ ∃ group ∈ snapshot.groups,
            identity.directoryId ∈ group.directoryIds ∧
              ⟨group.groupId, auth.namespaceId, role⟩ ∈ source.mapping.bindings) ∧
      ∀ event w₁ w₂ sourceId, AuthorityHistory.Step primitives w event w₁ →
        event.renews primitives w sourceId →
        Transition.Reaches (AuthorityHistory.Step primitives)
          (fun w event => ¬ event.appliesFor primitives w sourceId) w₁ w₂ →
        ∀ t caller name capabilities auth,
          w₂.db.authorizeNamespace t caller name capabilities = .ok auth →
          w₂.db.isManagedBy sourceId auth.namespaceId = false := by
  constructor
  · intro t caller name capabilities auth state c hauth hstate hc
    obtain ⟨canonical, row, hresolve, hentry, hcapabilities, hfresh⟩ := authorizeNamespace_ok hauth
    refine ⟨denotes_of_resolveCaller (Identified.arises h) hresolve hentry, ?_⟩
    have hrecent := hfresh state hstate
    cases hverified : state.lastVerifiedAt with
    | none =>
        rw [hverified] at hrecent
        cases hrecent
    | some verified =>
        rw [hverified] at hrecent
        simp only [verifiedRecently, Bool.and_eq_true, decide_eq_true_eq] at hrecent
        obtain ⟨source, snapshot, hevidence, rfl⟩ :=
          Evidenced.arises h _ state verified hstate hverified
        refine ⟨source, snapshot, hevidence.configured, hevidence.latest, hevidence.revision,
          hevidence.epoch, hrecent.1, ?_⟩
        -- The capability comes from a role, the role from an unrevoked directory grant.
        rw [hcapabilities, effectiveCapabilities, List.mem_eraseDups, List.mem_flatMap] at hc
        obtain ⟨role, hrole, hc⟩ := hc
        obtain ⟨id, grant, hget, hn, hp, rfl, hcontributes⟩ :=
          (w.db.mem_authorizedRoles _ _ _).mp hrole
        obtain ⟨hrevoked, hmanaged⟩ := (w.db.contributes_iff grant).mp hcontributes
        obtain hnone | ⟨groupId, binding, hcontribution, -⟩ := hmanaged
        · rw [hn, hstate] at hnone
          cases hnone
        · have himplied := hevidence.grants
            ⟨auth.namespaceId, auth.principalId, grant.role, groupId⟩ rfl
            ⟨id, grant, hget, hrevoked, hn, hp, rfl, hcontribution⟩
          obtain ⟨hbound, group, hgroup, hsame, account, haccount, hlisted, hpresent, henabled,
            identity, hidentity, hdirectory, hprincipal⟩ := himplied
          refine ⟨identity, hidentity, hprincipal,
            ⟨account, haccount, hdirectory.symm, hpresent, henabled⟩, grant.role, hc, group, hgroup,
            hdirectory ▸ hlisted, ?_⟩
          rw [hsame]
          exact hbound
  · intro event w₁ w₂ sourceId hstep hrenews hrun t caller name capabilities auth hauth
    have harises : AuthorityHistory.Arises primitives w₁ := .tail event h trivial hstep
    have hinvariant : AuthorityHistory.Arises primitives w₂ ∧ Unverified sourceId w₂.db := by
      refine hrun.invariant (P := fun w => AuthorityHistory.Arises primitives w ∧
        Unverified sourceId w.db) ⟨harises, unverified_of_renews hrenews hstep⟩ ?_
      rintro a event b ⟨ha, hunverified⟩ hother hnext
      exact ⟨.tail event ha trivial hnext,
        unverified_step (Configured.arises ha) hunverified hother hnext⟩
    exact hinvariant.2.nobody hauth

namespace Sample

def verifiedNamespace : List AuthorityCall :=
  managedNamespace ++ [⟨11 * second, .applyDirectorySnapshot (fun _ => 60) directorySnapshot⟩]

theorem verifiedNamespace_authorizes :
    ∃ w auth state, AuthorityHistory.after tokenLibrary verifiedNamespace = some w ∧
      w.db.authorizeNamespace (12 * second) ⟨⟨"other", "bob"⟩, none⟩ "default" [.jobsCancelAny] =
        .ok auth ∧
      w.db.managed.get? auth.namespaceId = some state ∧ .jobsCancelAny ∈ auth.capabilities := by
  have hrun : ((AuthorityHistory.after tokenLibrary verifiedNamespace).map fun w =>
      ((w.db.authorizeNamespace (12 * second) ⟨⟨"other", "bob"⟩, none⟩ "default"
        [.jobsCancelAny]).toOption.any fun auth =>
          (w.db.managed.get? auth.namespaceId).isSome && auth.permits .jobsCancelAny)) =
      some true := by
    decide
  obtain ⟨w, hw, heq⟩ := Option.map_eq_some_iff.mp hrun
  obtain ⟨auth, hauth, hchecks⟩ := (Option.any_eq_true _ _).mp heq
  rw [Bool.and_eq_true, Option.isSome_iff_exists] at hchecks
  obtain ⟨⟨state, hstate⟩, hpermits⟩ := hchecks
  refine ⟨w, auth, state, hw, ?_, hstate, List.contains_iff_mem.mp hpermits⟩
  cases hresult : w.db.authorizeNamespace (12 * second) ⟨⟨"other", "bob"⟩, none⟩ "default"
      [.jobsCancelAny] with
  | error e =>
      rw [hresult] at hauth
      cases hauth
  | ok result =>
      rw [hresult] at hauth
      cases hauth
      rfl

end Sample

/-- An operator signed in under an alias. -/
theorem managed_authority_is_evidenced_operator :
    ∃ (w : AuthorityHistory) (auth : NamespaceAuthorization) (source : SourceRow)
      (snapshot : DirectorySnapshot), Denotes w.db ⟨"other", "bob"⟩ auth.principalId ∧
      snapshot.revision = source.revision ∧ 12 * second < snapshot.verifiedAt + 120 * second := by
  obtain ⟨w, auth, state, hw, hauth, hstate, hc⟩ := Sample.verifiedNamespace_authorizes
  obtain ⟨hdenotes, source, snapshot, -, -, hrevision, -, hrecent, -⟩ :=
    (managed_authority_is_evidenced (AuthorityHistory.arises_after hw)).1 _ _ _ _ auth state
      .jobsCancelAny hauth hstate hc
  exact ⟨w, auth, source, snapshot, hdenotes, hrevision, hrecent⟩

end JobmanControl
