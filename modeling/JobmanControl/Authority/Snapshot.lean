import Mathlib.Data.List.Perm.Subperm
import JobmanControl.Authority.Configuration

/-!
What an applied snapshot leaves. The revocation and the grant statements together
replace the directory grants in the namespaces of a source by exactly those that
the mapping and the snapshot imply, whatever was granted before, and touch no
other grant. That the mapping is a valid one and that its namespaces are managed
by its source is an invariant of the tables.
-/

namespace JobmanControl

open Relational

/-! Snapshots that passed validation. -/

/-- Every account and every group the mapping names is observed exactly once, and
nothing else is. -/
structure Complete (mapping : DirectoryMapping) (snapshot : DirectorySnapshot) : Prop where
  accounts : (snapshot.accounts.map (·.directoryId)).Perm (mapping.identities.map (·.directoryId))
  groups : (snapshot.groups.map (·.groupId)).Perm (mapping.bindings.map (·.groupId))
  members : ∀ group ∈ snapshot.groups, ∀ id ∈ group.directoryIds,
    id ∈ mapping.identities.map (·.directoryId)

variable {mapping : DirectoryMapping} {u : Unit} {snapshot : DirectorySnapshot} {sourceId : String}
  {desired : List DesiredGrant} {d : DesiredGrant} {grantId : DesiredGrant → Id}

theorem validateGroups_ok {seen : List Id} {groups : List GroupObservation}
    (h : validateGroups mapping seen groups = .ok u) :
    ((groups.map (·.groupId)).Nodup ∧ ∀ g ∈ groups, g.groupId ∉ seen) ∧
      ∀ g ∈ groups, g.groupId ∈ mapping.bindings.map (·.groupId) ∧
        ∀ id ∈ g.directoryIds, id ∈ mapping.identities.map (·.directoryId) := by
  induction groups generalizing seen with
  | nil => simp
  | cons group rest ih =>
      simp only [validateGroups, bind_ok_iff, ensure_ok_iff] at h
      obtain ⟨-, ⟨hknown, hfresh, -⟩, -, ⟨hmembers, -⟩, hrest⟩ := h
      obtain ⟨⟨hnodup, hout⟩, hall⟩ := ih hrest
      simp only [List.mem_cons, not_or] at hout
      refine ⟨⟨?_, ?_⟩, List.forall_mem_cons.mpr ⟨⟨hknown, hmembers⟩, hall⟩⟩
      · rw [List.map_cons, List.nodup_cons]
        refine ⟨?_, hnodup⟩
        intro hmem
        obtain ⟨g, hg, heq⟩ := List.mem_map.mp hmem
        exact (hout g hg).1 heq
      · exact List.forall_mem_cons.mpr ⟨hfresh, fun g hg => (hout g hg).2⟩

theorem complete_of_ok (h : validateDirectorySnapshot mapping snapshot = .ok u) :
    Complete mapping snapshot := by
  simp only [validateDirectorySnapshot, bind_ok_iff, ensure_ok_iff] at h
  obtain ⟨-, ⟨haccounts, hgroups, -⟩, -, ⟨hknown, hnodup⟩, _, hvalid, -⟩ := h
  obtain ⟨⟨hgroupsNodup, -⟩, hall⟩ := validateGroups_ok hvalid
  refine ⟨?_, ?_, fun g hg => (hall g hg).2⟩
  · refine (List.subperm_of_subset hnodup ?_).perm_of_length_le ?_
    · intro id hid
      obtain ⟨account, haccount, rfl⟩ := List.mem_map.mp hid
      exact (hknown account haccount).1
    · rw [List.length_map, List.length_map, haccounts]
  · refine (List.subperm_of_subset hgroupsNodup ?_).perm_of_length_le ?_
    · intro id hid
      obtain ⟨group, hgroup, rfl⟩ := List.mem_map.mp hid
      exact (hall group hgroup).1
    · rw [List.length_map, List.length_map, hgroups]

/-- The grants a mapping and a snapshot imply: the group is bound to the namespace and
role, and lists an account that exists and is enabled and is mapped to the principal. -/
def Implied (mapping : DirectoryMapping) (snapshot : DirectorySnapshot) (d : DesiredGrant) : Prop :=
  ⟨d.groupId, d.namespaceId, d.role⟩ ∈ mapping.bindings ∧
    ∃ group ∈ snapshot.groups, group.groupId = d.groupId ∧
      ∃ account ∈ snapshot.accounts, account.directoryId ∈ group.directoryIds ∧
        account.present = true ∧ account.enabled = true ∧
        ∃ identity ∈ mapping.identities, identity.directoryId = account.directoryId ∧
          identity.principalId = d.principalId

theorem eligible_iff (h : (snapshot.accounts.map (·.directoryId)).Nodup) (id : Id) :
    snapshot.eligible id = true ↔ ∃ account ∈ snapshot.accounts, account.directoryId = id ∧
      account.present = true ∧ account.enabled = true := by
  simp only [DirectorySnapshot.eligible, Option.any_eq_true, Bool.and_eq_true,
    find?_eq_some_iff_of_nodup AccountObservation.directoryId h, and_assoc]

theorem mem_desiredGrants_iff (hvalid : ValidMapping mapping)
    (hcomplete : Complete mapping snapshot) (d : DesiredGrant) :
    d ∈ desiredGrants mapping snapshot ↔ Implied mapping snapshot d := by
  have haccounts : (snapshot.accounts.map (·.directoryId)).Nodup :=
    hcomplete.accounts.nodup_iff.mpr hvalid.accounts
  simp only [desiredGrants, List.mem_flatMap, Option.mem_toList, List.mem_filterMap,
    List.mem_filter, Option.map_eq_some_iff, eligible_iff haccounts,
    find?_eq_some_iff_of_nodup DirectoryBinding.groupId hvalid.groups,
    find?_eq_some_iff_of_nodup DirectoryIdentity.directoryId hvalid.accounts]
  constructor
  · rintro ⟨group, hgroup, binding, ⟨hbinding, hbound⟩, id,
      ⟨hlisted, account, haccount, rfl, hpresent, henabled⟩, identity, ⟨hidentity, hid⟩, rfl⟩
    exact ⟨hbinding, group, hgroup, hbound.symm, account, haccount, hlisted, hpresent, henabled,
      identity, hidentity, hid, rfl⟩
  · rintro ⟨hbinding, group, hgroup, hbound, account, haccount, hlisted, hpresent, henabled,
      identity, hidentity, hid, hprincipal⟩
    refine ⟨group, hgroup, ⟨d.groupId, d.namespaceId, d.role⟩, ⟨hbinding, hbound.symm⟩,
      account.directoryId, ⟨hlisted, account, haccount, rfl, hpresent, henabled⟩, identity,
      ⟨hidentity, hid⟩, ?_⟩
    rw [hprincipal]

/-! The two statements that replace the directory grants. -/

def DesiredGrant.key (d : DesiredGrant) : Id × Id × Id :=
  (d.namespaceId, d.principalId, d.groupId)

namespace Authority

variable {db db' : Authority} {now : Time}

def Granted (db : Authority) (d : DesiredGrant) : Prop :=
  ∃ id grant, db.grants.get? id = some grant ∧ grant.revokedAt = none ∧
    grant.namespaceId = d.namespaceId ∧ grant.principalId = d.principalId ∧
    grant.role = d.role ∧ grant.contribution = .directory d.groupId

/-- The grant is a directory grant in a namespace the source manages. -/
def isGrantOf (db : Authority) (sourceId : String) (grant : GrantRow) : Bool :=
  match grant.contribution with
  | .directory _ => db.isManagedBy sourceId grant.namespaceId
  | .legacy | .manual _ => false

def othersGrant (db : Authority) (sourceId : String) (grants : Table Id GrantRow) (id : Id) :
    Option GrantRow :=
  (grants.get? id).filter fun grant => !db.isGrantOf sourceId grant

theorem isGrantOf_congr (db : Authority) {grant grant' : GrantRow}
    (hn : grant'.namespaceId = grant.namespaceId) (hc : grant'.contribution = grant.contribution) :
    db.isGrantOf sourceId grant' = db.isGrantOf sourceId grant := by
  unfold isGrantOf
  rw [hn, hc]

theorem othersGrant_updateWhere (db : Authority) {q : Id → GrantRow → Bool}
    {f : GrantRow → GrantRow} (hq : ∀ id grant, db.grants.get? id = some grant → q id grant = true →
      db.isGrantOf sourceId grant = true)
    (hf : ∀ r, (f r).namespaceId = r.namespaceId ∧ (f r).contribution = r.contribution) (id : Id) :
    db.othersGrant sourceId (db.grants.updateWhere q fun _ => f) id =
      db.othersGrant sourceId db.grants id := by
  unfold othersGrant
  rw [Table.get?_updateWhere]
  cases hget : db.grants.get? id with
  | none => rfl
  | some grant =>
      simp only [Option.map_some]
      split
      · rename_i hselected
        have hown := hq id grant hget hselected
        have hown' := (db.isGrantOf_congr (hf grant).1 (hf grant).2).trans hown
        rw [Option.filter_some, Option.filter_some, hown, hown']
        rfl
      · rfl

@[simp] theorem updateGrants_grants (db : Authority) (q : Id → GrantRow → Bool)
    (f : GrantRow → GrantRow) :
    (db.updateGrants q f).grants = db.grants.updateWhere q fun _ => f := by
  obtain ⟨v, hv⟩ := db.updateGrants_eq q f
  rw [hv]

theorem get?_updateGrants_one {id : Id} {old : GrantRow} (h : db.grants.get? id = some old)
    (f : GrantRow → GrantRow) (id' : Id) :
    (db.updateGrants (fun i _ => i = id) f).grants.get? id' =
      if id' = id then some (f old) else db.grants.get? id' := by
  rw [updateGrants_grants]
  refine (db.grants.get?_modify id f id').trans ?_
  split
  · rename_i hid
    rw [hid, h, Option.map_some]
  · rfl

theorem granted_of_revokeUndesired (hmanaged : db.isManagedBy sourceId d.namespaceId = true)
    (h : (db.revokeUndesired now sourceId desired).Granted d) : d ∈ desired := by
  obtain ⟨id, grant, hget, hrevoked, hn, hp, hrole, hc⟩ := h
  rw [revokeUndesired, updateGrants_grants, Table.get?_updateWhere, Option.map_eq_some_iff] at hget
  obtain ⟨old, -, hold⟩ := hget
  -- The row was not revoked, so it is desired.
  by_cases hsame : old = grant
  · subst hsame
    by_contra hundesired
    simp only [hc, hrevoked, hn, hp, hrole, hmanaged, decide_true, Bool.true_and,
      List.contains_eq_mem, hundesired, decide_false, Bool.not_false, if_true] at hold
    rw [← hold] at hrevoked
    cases hrevoked
  · obtain ⟨-, heq⟩ | ⟨-, heq⟩ := ite_eq_iff.mp hold
    · rw [← heq] at hrevoked
      cases hrevoked
    · exact absurd heq hsame

theorem othersGrant_revokeUndesired (db : Authority) (now : Time) (sourceId : String)
    (desired : List DesiredGrant) (id : Id) :
    db.othersGrant sourceId (db.revokeUndesired now sourceId desired).grants id =
      db.othersGrant sourceId db.grants id := by
  rw [revokeUndesired, updateGrants_grants]
  refine db.othersGrant_updateWhere ?_ ?_ id
  · intro id grant _ hselected
    cases hc : grant.contribution with
    | legacy => simp [hc] at hselected
    | manual key => simp [hc] at hselected
    | directory groupId =>
        simp only [hc, Bool.and_eq_true] at hselected
        simp only [isGrantOf, hc, hselected.1.2]
  · exact fun _ => ⟨rfl, rfl⟩

theorem grantFor_some {n p existing : Id} {c : Contribution}
    (h : db.grantFor n p c = some existing) :
    ∃ grant, db.grants.get? existing = some grant ∧ grant.namespaceId = n ∧
      grant.principalId = p ∧ grant.contribution = c := by
  unfold grantFor at h
  obtain ⟨⟨id, grant⟩, hhead, rfl⟩ := Option.map_eq_some_iff.mp h
  have hmem := List.mem_of_mem_head? (Option.mem_def.mpr hhead)
  rw [Table.mem_select] at hmem
  simp only [Bool.and_eq_true, decide_eq_true_eq, and_assoc] at hmem
  exact ⟨grant, hmem⟩

/-- The grant statement for one desired row writes one row, which then is as desired:
a new one, or the one that had the same namespace, principal and group. -/
theorem grantDesired_writes (h : grantDesired now grantId db d = .ok db') :
    ∃ id row, (∀ id', db'.grants.get? id' = if id' = id then some row else db.grants.get? id') ∧
      row.revokedAt = none ∧ row.namespaceId = d.namespaceId ∧ row.principalId = d.principalId ∧
      row.role = d.role ∧ row.contribution = .directory d.groupId ∧
      ∀ old, db.grants.get? id = some old → old.namespaceId = d.namespaceId ∧
        old.principalId = d.principalId ∧ old.contribution = .directory d.groupId := by
  unfold grantDesired upsertGrant at h
  split at h
  · obtain ⟨grants, hinsert, rfl⟩ := insertGrant_eq h
    refine ⟨_, _, Table.get?_insert hinsert, rfl, rfl, rfl, rfl, rfl, ?_⟩
    intro old hold
    rw [Table.insert?_free hinsert] at hold
    cases hold
  · rename_i existing hexisting
    cases h
    obtain ⟨old, hold, hn, hp, hc⟩ := grantFor_some hexisting
    refine ⟨existing, _, get?_updateGrants_one hold _, ?_⟩
    have hkey : ∀ old, db.grants.get? existing = some old → old.namespaceId = d.namespaceId ∧
        old.principalId = d.principalId ∧ old.contribution = .directory d.groupId := by
      intro old' hold'
      cases hold.symm.trans hold'
      exact ⟨hn, hp, hc⟩
    split
    · exact ⟨rfl, hn, hp, rfl, hc, hkey⟩
    · rename_i hsame
      simp only [ne_eq, not_or, not_not] at hsame
      exact ⟨hsame.1, hn, hp, hsame.2, hc, hkey⟩

theorem grantDesired_granted (h : grantDesired now grantId db d = .ok db') :
    db'.Granted d ∧ (∀ e, db'.Granted e → db.Granted e ∨ e = d) ∧
      ∀ e, db.Granted e → e.key ≠ d.key → db'.Granted e := by
  obtain ⟨id, row, hget, hrevoked, hn, hp, hrole, hc, hold⟩ := grantDesired_writes h
  refine ⟨⟨id, row, (hget id).trans (if_pos rfl), hrevoked, hn, hp, hrole, hc⟩, ?_, ?_⟩
  · rintro e ⟨id', grant, hgrant, hrest⟩
    rw [hget] at hgrant
    split at hgrant
    · cases hgrant
      refine Or.inr ?_
      obtain ⟨-, hen, hep, herole, hec⟩ := hrest
      cases e
      cases d
      simp_all
    · exact Or.inl ⟨id', grant, hgrant, hrest⟩
  · rintro e ⟨id', grant, hgrant, hrevoked', hen, hep, herole, hec⟩ hkey
    refine ⟨id', grant, ?_, hrevoked', hen, hep, herole, hec⟩
    rw [hget, if_neg, hgrant]
    rintro rfl
    obtain ⟨hon, hop, hoc⟩ := hold grant hgrant
    refine hkey ?_
    rw [DesiredGrant.key, DesiredGrant.key, ← hen, hon, ← hep, hop,
      Contribution.directory.inj (hec.symm.trans hoc)]

theorem othersGrant_grantDesired (hmanaged : db.isManagedBy sourceId d.namespaceId = true)
    (h : grantDesired now grantId db d = .ok db') (id : Id) :
    db.othersGrant sourceId db'.grants id = db.othersGrant sourceId db.grants id := by
  obtain ⟨written, row, hget, -, hn, -, -, hc, hold⟩ := grantDesired_writes h
  unfold othersGrant
  rw [hget]
  split
  · rename_i hid
    subst hid
    have hown : db.isGrantOf sourceId row = true := by
      simp only [isGrantOf, hc, hn, hmanaged]
    rw [Option.filter_some, hown]
    cases hrow : db.grants.get? id with
    | none => rfl
    | some old =>
        obtain ⟨hon, -, hoc⟩ := hold old hrow
        have howned : db.isGrantOf sourceId old = true := by
          simp only [isGrantOf, hoc, hon, hmanaged]
        rw [Option.filter_some, howned]
        rfl
  · rfl

theorem othersGrant_of_eq (h : db'.managed = db.managed) : db'.othersGrant = db.othersGrant := by
  funext sourceId grants id
  simp only [othersGrant, isGrantOf, isManagedBy_of_eq h]

theorem grantAll_exact (sourceId : String) (hkeys : (desired.map DesiredGrant.key).Nodup)
    (hmanaged : ∀ d ∈ desired, db.isManagedBy sourceId d.namespaceId = true)
    (hbefore : ∀ d, db.isManagedBy sourceId d.namespaceId = true → db.Granted d → d ∈ desired)
    (h : desired.foldlM (grantDesired now grantId) db = .ok db') :
    (∀ d, db.isManagedBy sourceId d.namespaceId = true → (db'.Granted d ↔ d ∈ desired)) ∧
      ∀ id, db.othersGrant sourceId db'.grants id = db.othersGrant sourceId db.grants id := by
  -- Along the loop only desired tuples are granted, and those handled so far all are.
  have hloop := foldlM_ok_forall
    (P := fun a => a.managed = db.managed ∧
      (∀ d, db.isManagedBy sourceId d.namespaceId = true → a.Granted d → d ∈ desired) ∧
      ∀ id, db.othersGrant sourceId a.grants id = db.othersGrant sourceId db.grants id)
    (Q := fun d a => d ∈ desired → a.Granted d) desired ?_ ⟨rfl, hbefore, fun _ => rfl⟩ h
  · obtain ⟨⟨-, honly, hothers⟩, hall, -⟩ := hloop
    exact ⟨fun d hd => ⟨honly d hd, fun hmem => hall d hmem hmem⟩, hothers⟩
  · rintro a x a' hx ⟨hsame, honly, hothers⟩ hstep
    obtain ⟨g, v, hframe⟩ := upsertGrant_eq hstep
    obtain ⟨hnew, hback, hkeep⟩ := grantDesired_granted hstep
    refine ⟨⟨by rw [hframe, hsame], ?_, ?_⟩, fun _ => hnew, ?_⟩
    · intro d hd hgranted
      obtain hgranted | rfl := hback d hgranted
      · exact honly d hd hgranted
      · exact hx
    · intro id
      have hmanagedx : a.isManagedBy sourceId x.namespaceId = true := by
        rw [isManagedBy_of_eq hsame]
        exact hmanaged x hx
      have hstepOthers := othersGrant_grantDesired hmanagedx hstep id
      rw [othersGrant_of_eq hsame] at hstepOthers
      rw [hstepOthers, hothers]
    · intro d hgranted hd
      by_cases hkey : d.key = x.key
      · rw [List.inj_on_of_nodup_map hkeys hd hx hkey]
        exact hnew
      · exact hkeep d (hgranted hd) hkey

theorem replaceGrants_exact (hkeys : (desired.map DesiredGrant.key).Nodup)
    (hmanaged : ∀ d ∈ desired, db.isManagedBy sourceId d.namespaceId = true)
    (h : desired.foldlM (grantDesired now grantId) (db.revokeUndesired now sourceId desired) =
      .ok db') :
    (∀ d, db.isManagedBy sourceId d.namespaceId = true → (db'.Granted d ↔ d ∈ desired)) ∧
      ∀ id, db.othersGrant sourceId db'.grants id = db.othersGrant sourceId db.grants id := by
  obtain ⟨g, v, hrevoke⟩ := db.revokeUndesired_eq now sourceId desired
  have hsame : (db.revokeUndesired now sourceId desired).managed = db.managed := by rw [hrevoke]
  have hexact := grantAll_exact sourceId hkeys ?_ ?_ h
  · rw [isManagedBy_of_eq hsame, othersGrant_of_eq hsame] at hexact
    refine ⟨hexact.1, fun id => (hexact.2 id).trans ?_⟩
    exact db.othersGrant_revokeUndesired now sourceId desired id
  · rw [isManagedBy_of_eq hsame]
    exact hmanaged
  · rw [isManagedBy_of_eq hsame]
    exact fun d hd => granted_of_revokeUndesired hd

end Authority

/-- The snapshot was taken for the source's current mapping and recovery epoch, is newer
than the last one and observes what the mapping names. -/
structure Acceptable (db : Authority) (source : SourceRow) (snapshot : DirectorySnapshot) :
    Prop where
  configured : db.sources.get? snapshot.sourceId = some source
  revision : source.revision = snapshot.revision
  digest : source.configurationDigest = snapshot.digest
  epoch : db.epoch.restoreEpoch = snapshot.recoveryEpoch
  newer : ∀ previous, source.lastVerifiedAt = some previous → previous < snapshot.verifiedAt
  complete : Complete source.mapping snapshot

/-- What a snapshot that was accepted has passed, and what it leaves of the grants. -/
theorem applyDirectorySnapshot_grants {db db' : Authority} {now : Time}
    (hconfigured : Configured db)
    (h : applyDirectorySnapshot now grantId snapshot db = .ok (u, db')) :
    ∃ source, Acceptable db source snapshot ∧
      (∀ d, db.isManagedBy snapshot.sourceId d.namespaceId = true →
        (db'.Granted d ↔ Implied source.mapping snapshot d)) ∧
      ∀ id, db.othersGrant snapshot.sourceId db'.grants id =
        db.othersGrant snapshot.sourceId db.grants id := by
  simp only [applyDirectorySnapshot, bind_ok_iff, ensure_ok_iff, need_ok_iff, pure_ok_iff,
    Prod.mk.injEq] at h
  obtain ⟨source, hsource, -, ⟨hrevision, hdigest, hepoch, -⟩, -, hnewer, _, hvalid, db₁, hverify,
    -, hkeys, db₂, hgrant, -, rfl⟩ := h
  obtain ⟨hown, -, hmapping⟩ := hconfigured.own _ _ hsource
  have hcomplete := complete_of_ok hvalid
  obtain ⟨a, l, v, rfl⟩ := Authority.foldlM_verifyIdentity_eq hverify
  rw [hown] at hgrant
  have hexact := Authority.replaceGrants_exact hkeys ?_ hgrant
  · refine ⟨source, ⟨hsource, hrevision, hdigest, hepoch, ?_, hcomplete⟩, ?_, hexact.2⟩
    · intro previous hprevious
      rw [hprevious] at hnewer
      exact of_decide_eq_true hnewer
    · intro d hd
      rw [← mem_desiredGrants_iff hmapping hcomplete]
      exact hexact.1 d hd
  · intro d hd
    have hbound := ((mem_desiredGrants_iff hmapping hcomplete d).mp hd).1
    exact hconfigured.managed _ _ hsource _ (hmapping.confined _ hbound)

theorem get?_iff_of_othersGrant {db : Authority} {t t' : Table Id GrantRow} {id : Id}
    {grant : GrantRow} (h : db.othersGrant sourceId t' id = db.othersGrant sourceId t id)
    (hother : db.isGrantOf sourceId grant = false) :
    t'.get? id = some grant ↔ t.get? id = some grant := by
  have hfilter : ∀ t : Table Id GrantRow,
      t.get? id = some grant ↔ db.othersGrant sourceId t id = some grant := by
    intro t
    unfold Authority.othersGrant
    rw [Option.filter_eq_some_iff, hother, Bool.not_false]
    exact ⟨fun h => ⟨h, rfl⟩, fun h => h.1⟩
  rw [hfilter, hfilter, h]

/-- In every state that can arise, an accepted snapshot leaves exactly the implied
directory grants in the namespaces of its source, whatever was granted there before,
and no other grant changes: none that is legacy or manual, and none outside those
namespaces. A snapshot that is not acceptable, or that fails, changes nothing. -/
theorem snapshot_grants_exact {primitives : Primitives} {w : AuthorityHistory}
    (h : AuthorityHistory.Arises primitives w) (now : Time) (grantId : DesiredGrant → Id)
    (snapshot : DirectorySnapshot) :
    (∀ db', applyDirectorySnapshot now grantId snapshot w.db = .ok ((), db') →
      ∃ source, Acceptable w.db source snapshot ∧
        (∀ n p role groupId, w.db.isManagedBy snapshot.sourceId n = true →
          (db'.Granted ⟨n, p, role, groupId⟩ ↔
            Implied source.mapping snapshot ⟨n, p, role, groupId⟩)) ∧
        ∀ id grant, ((∀ groupId, grant.contribution ≠ .directory groupId) ∨
            w.db.isManagedBy snapshot.sourceId grant.namespaceId = false) →
          (db'.grants.get? id = some grant ↔ w.db.grants.get? id = some grant)) ∧
      ((∀ source, ¬ Acceptable w.db source snapshot) ∨
          (∃ e, applyDirectorySnapshot now grantId snapshot w.db = .error e) →
        AuthorityCall.apply primitives ⟨now, .applyDirectorySnapshot grantId snapshot⟩ w.db =
          w.db) := by
  have hconfigured := Configured.arises h
  constructor
  · intro db' happly
    obtain ⟨source, hacceptable, hexact, hothers⟩ :=
      applyDirectorySnapshot_grants hconfigured happly
    refine ⟨source, hacceptable, fun n p role groupId hn => hexact _ hn, ?_⟩
    intro id grant hother
    refine get?_iff_of_othersGrant (hothers id) ?_
    unfold Authority.isGrantOf
    split
    · rename_i groupId hc
      exact hother.resolve_left fun hnone => hnone groupId hc
    · rfl
    · rfl
  · intro hrefused
    simp only [AuthorityCall.apply, AuthorityCall.run]
    cases hrun : applyDirectorySnapshot now grantId snapshot w.db with
    | error e => rfl
    | ok result =>
        obtain ⟨source, hacceptable, -⟩ := applyDirectorySnapshot_grants hconfigured hrun
        obtain hnone | ⟨e, herror⟩ := hrefused
        · exact absurd hacceptable (hnone source)
        · rw [hrun] at herror
          cases herror

namespace Sample

/-- One group of one account, bound to the operators of the default namespace. -/
def directoryMapping : DirectoryMapping where
  sourceId := "ad"
  revision := 1
  namespaces := [1]
  approvedTransitions := [1]
  bindings := [⟨30, 1, .operator⟩]
  identities := [⟨50, 8, ⟨"issuer", "bob"⟩, "Bob", [⟨"other", "bob"⟩]⟩]

def directorySnapshot : DirectorySnapshot where
  sourceId := "ad"
  revision := 1
  digest := "ad"
  recoveryEpoch := 1
  verifiedAt := 10 * second
  accounts := [⟨50, true, true⟩]
  groups := [⟨30, true, [50]⟩]
  ignoredDirectMembers := 0

def managedNamespace : List AuthorityCall :=
  [⟨0, .ensureBootstrapIdentity ⟨"issuer", "admin"⟩ "Admin" "default" 7 1⟩,
    ⟨second, .configureDirectory directoryMapping⟩]

theorem managedNamespace_snapshot :
    ∃ w db', AuthorityHistory.after tokenLibrary managedNamespace = some w ∧
      applyDirectorySnapshot (11 * second) (fun _ => 60) directorySnapshot w.db = .ok ((), db') ∧
      w.db.isManagedBy "ad" 1 = true := by
  have hrun : ((AuthorityHistory.after tokenLibrary managedNamespace).map fun w =>
      ((applyDirectorySnapshot (11 * second) (fun _ => 60) directorySnapshot w.db).isOk,
        w.db.isManagedBy "ad" 1)) = some (true, true) := by
    decide
  obtain ⟨w, hw, heq⟩ := Option.map_eq_some_iff.mp hrun
  obtain ⟨hok, hmanaged⟩ := Prod.mk.inj heq
  cases happly : applyDirectorySnapshot (11 * second) (fun _ => 60) directorySnapshot w.db with
  | error e =>
      rw [happly] at hok
      cases hok
  | ok result => exact ⟨w, result.2, hw, happly, hmanaged⟩

end Sample

theorem snapshot_grants_exact_operators :
    ∃ (w : AuthorityHistory) (db' : Authority) (source : SourceRow),
      Acceptable w.db source Sample.directorySnapshot ∧ w.db.isManagedBy "ad" 1 = true ∧
      ∀ p role groupId, db'.Granted ⟨1, p, role, groupId⟩ ↔
        Implied source.mapping Sample.directorySnapshot ⟨1, p, role, groupId⟩ := by
  obtain ⟨w, db', hw, happly, hmanaged⟩ := Sample.managedNamespace_snapshot
  obtain ⟨source, hacceptable, hexact, -⟩ :=
    (snapshot_grants_exact (AuthorityHistory.arises_after hw) (11 * second) (fun _ => 60)
      Sample.directorySnapshot).1 db' happly
  exact ⟨w, db', source, hacceptable, hmanaged,
    fun p role groupId => hexact 1 p role groupId hmanaged⟩

end JobmanControl
