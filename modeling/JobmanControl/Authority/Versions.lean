import Mathlib.Order.WithBot
import JobmanControl.Authority.Frame

/-!
The authorization fence. Whenever the roles that `authorized_memberships` yields
for a namespace and a principal change, the pair's version grows. The versions are
bumped by triggers on grants, bindings, accounts and managed namespaces; three of
them only update versions that exist, so that every granted pair has one is part
of the argument.
-/

namespace JobmanControl

open Relational

variable {id : Id} {row grant : GrantRow} {sourceId : String} {identity : DirectoryIdentity}
  {u : Unit}

namespace Authority

variable {db db' db'' : Authority} {now : Time}

/-- The version of a pair; one that does not exist is below all others. -/
def versionOf (db : Authority) (n p : Id) : WithBot Nat :=
  match db.versions.get? (n, p) with
  | some revision => WithBot.some revision
  | none => ⊥

/-- Every pair that was ever granted a role has a version. -/
def Versioned (db : Authority) : Prop :=
  ∀ id grant, db.grants.get? id = some grant →
    db.versionOf grant.namespaceId grant.principalId ≠ ⊥

/-- What happens to roles and versions in one statement, and so in a transaction. -/
structure Fenced (db db' : Authority) : Prop where
  grows : ∀ n p, db.versionOf n p ≤ db'.versionOf n p
  fences : db.Versioned → ∀ n p, db'.versionOf n p = db.versionOf n p →
    db'.authorizedRoles n p = db.authorizedRoles n p
  versioned : db.Versioned → db'.Versioned

namespace Fenced

theorem refl (db : Authority) : Fenced db db :=
  ⟨fun _ _ => le_refl _, fun _ _ _ _ => rfl, id⟩

theorem trans (h : Fenced db db') (h' : Fenced db' db'') : Fenced db db'' := by
  refine ⟨fun n p => (h.grows n p).trans (h'.grows n p), ?_,
    fun hv => h'.versioned (h.versioned hv)⟩
  intro hv n p heq
  have hmiddle : db'.versionOf n p = db.versionOf n p :=
    le_antisymm (heq ▸ h'.grows n p) (h.grows n p)
  rw [h'.fences (h.versioned hv) n p (heq.trans hmiddle.symm), h.fences hv n p hmiddle]

/-- A statement that leaves the grants alone, where every grant that starts or stops
contributing belongs to a pair whose version grows. -/
theorem of_grants_eq (hgrants : db'.grants = db.grants)
    (hgrows : ∀ n p, db.versionOf n p ≤ db'.versionOf n p)
    (h : db.Versioned → ∀ id grant, db.grants.get? id = some grant → grant.revokedAt = none →
      db'.versionOf grant.namespaceId grant.principalId =
        db.versionOf grant.namespaceId grant.principalId →
      db'.contributes grant = db.contributes grant) : Fenced db db' := by
  refine ⟨hgrows, ?_, ?_⟩
  · intro hv n p heq
    refine authorizedRoles_congr fun role => ?_
    simp only [mem_authorizedRoles, hgrants]
    refine exists_congr fun id => exists_congr fun grant => and_congr_right fun hget => ?_
    refine and_congr_right fun hn => and_congr_right fun hp => and_congr_right fun _ => ?_
    by_cases hrevoked : grant.revokedAt = none
    · rw [h hv id grant hget hrevoked (by rw [hn, hp, heq])]
    · simp only [contributes_iff, hrevoked, false_and]
  · intro hv id grant hget hbot
    rw [hgrants] at hget
    exact hv id grant hget (le_bot_iff.mp (hbot ▸ hgrows _ _))

theorem of_eq (hgrants : db'.grants = db.grants) (hversions : db'.versions = db.versions)
    (hmanaged : ∀ n, (db'.managed.get? n).isSome = (db.managed.get? n).isSome)
    (haccounts : db'.accounts = db.accounts) (hbindings : db'.bindings = db.bindings) :
    Fenced db db' := by
  have hversion : ∀ n p, db'.versionOf n p = db.versionOf n p := by
    intro n p
    simp only [versionOf, hversions]
  refine of_grants_eq hgrants (fun n p => (hversion n p).ge) ?_
  intro _ _ grant _ _ _
  have hnone : db'.managed.get? grant.namespaceId = none ↔
      db.managed.get? grant.namespaceId = none := by
    rw [← Option.isNone_iff_eq_none, ← Option.isNone_iff_eq_none, ← Option.not_isSome,
      ← Option.not_isSome, hmanaged]
  rw [Bool.eq_iff_iff, contributes_iff, contributes_iff, haccounts, hbindings, hnone]

end Fenced

/-! How the triggers move versions. -/

theorem versionOf_bumpVersion (db : Authority) (n p n' p' : Id) :
    db.versionOf n' p' ≤ (db.bumpVersion n p).versionOf n' p' ∧
      ((n', p') = (n, p) → db.versionOf n' p' < (db.bumpVersion n p).versionOf n' p') := by
  simp only [versionOf, bumpVersion, Table.get?_upsert]
  by_cases h : (n', p') = (n, p)
  · rw [if_pos h, h]
    cases db.versions.get? (n, p) with
    | none => exact ⟨bot_le, fun _ => WithBot.bot_lt_coe _⟩
    | some revision =>
        have hlt : (revision : WithBot Nat) < ((revision + 1 : Nat) : WithBot Nat) :=
          WithBot.coe_lt_coe.mpr (Nat.lt_succ_self _)
        exact ⟨hlt.le, fun _ => hlt⟩
  · rw [if_neg h]
    exact ⟨le_refl _, fun heq => absurd heq h⟩

theorem versionOf_bumpVersionsWhere (db : Authority) (q : Id → Id → Bool) (n p : Id) :
    db.versionOf n p ≤ (db.bumpVersionsWhere q).versionOf n p ∧
      (q n p = true → db.versionOf n p ≠ ⊥ →
        db.versionOf n p < (db.bumpVersionsWhere q).versionOf n p) := by
  simp only [versionOf, bumpVersionsWhere, Table.get?_updateWhere]
  cases db.versions.get? (n, p) with
  | none => exact ⟨le_refl _, fun _ h => absurd rfl h⟩
  | some revision =>
      simp only [Option.map_some]
      by_cases h : q n p = true
      · have hlt : (revision : WithBot Nat) < ((revision + 1 : Nat) : WithBot Nat) :=
          WithBot.coe_lt_coe.mpr (Nat.lt_succ_self _)
        rw [if_pos h]
        exact ⟨hlt.le, fun _ _ => hlt⟩
      · rw [if_neg h]
        exact ⟨le_refl _, fun hq => absurd hq h⟩

theorem versionOf_renewVersions (db : Authority) (conditions : List (Id → Id → Bool)) (n p : Id) :
    db.versionOf n p ≤ (db.renewVersions conditions).versionOf n p ∧
      ((∃ q ∈ conditions, q n p = true) → db.versionOf n p ≠ ⊥ →
        db.versionOf n p < (db.renewVersions conditions).versionOf n p) := by
  unfold renewVersions
  induction conditions generalizing db with
  | nil => exact ⟨le_refl _, by rintro ⟨_, hq, _⟩; exact absurd hq List.not_mem_nil⟩
  | cons q qs ih =>
      have hfirst := db.versionOf_bumpVersionsWhere q n p
      have hrest := ih (db.bumpVersionsWhere q)
      refine ⟨hfirst.1.trans hrest.1, ?_⟩
      rintro ⟨c, hc, hholds⟩ hbot
      obtain rfl | hc := List.mem_cons.mp hc
      · exact (hfirst.2 hholds hbot).trans_le hrest.1
      · refine hfirst.1.trans_lt (hrest.2 ⟨c, hc, hholds⟩ ?_)
        intro hnone
        exact hbot (le_bot_iff.mp (hnone ▸ hfirst.1))

theorem versionOf_foldl_bumpVersion (db : Authority) (l : List (Id × GrantRow)) (n p : Id) :
    db.versionOf n p ≤
        (l.foldl (fun db entry => db.bumpVersion entry.2.namespaceId entry.2.principalId)
          db).versionOf n p ∧
      ((∃ entry ∈ l, entry.2.namespaceId = n ∧ entry.2.principalId = p) →
        db.versionOf n p <
          (l.foldl (fun db entry => db.bumpVersion entry.2.namespaceId entry.2.principalId)
            db).versionOf n p) := by
  induction l generalizing db with
  | nil => exact ⟨le_refl _, by rintro ⟨_, h, _⟩; exact absurd h List.not_mem_nil⟩
  | cons e es ih =>
      have hfirst := db.versionOf_bumpVersion e.2.namespaceId e.2.principalId n p
      have hrest := ih (db.bumpVersion e.2.namespaceId e.2.principalId)
      refine ⟨hfirst.1.trans hrest.1, ?_⟩
      rintro ⟨entry, hentry, hn, hp⟩
      obtain rfl | hentry := List.mem_cons.mp hentry
      · exact (hfirst.2 (by rw [hn, hp])).trans_le hrest.1
      · exact hfirst.1.trans_lt (hrest.2 ⟨entry, hentry, hn, hp⟩)

/-! Each statement fences what it changes. -/

theorem insertGrant_fenced (h : db.insertGrant id row = .ok db') : Fenced db db' := by
  obtain ⟨grants, hinsert, rfl⟩ := insertGrant_eq h
  have hget := Table.get?_insert hinsert
  have hbump := versionOf_bumpVersion { db with grants := grants } row.namespaceId row.principalId
  refine ⟨fun n p => (hbump n p).1, ?_, ?_⟩
  · intro _ n p heq
    have hother : ¬ (n, p) = (row.namespaceId, row.principalId) := fun hpair =>
      absurd heq ((hbump n p).2 hpair).ne'
    refine authorizedRoles_congr fun role => ?_
    simp only [mem_authorizedRoles]
    refine exists_congr fun id' => exists_congr fun grant => ?_
    refine and_congr_left fun hgrant => ?_
    obtain ⟨hn, hp, -⟩ := hgrant
    change grants.get? id' = some grant ↔ _
    rw [hget]
    by_cases hid : id' = id
    · subst hid
      rw [if_pos rfl, Table.insert?_free hinsert]
      refine iff_of_false ?_ fun h => by cases h
      intro hrow
      cases hrow
      exact hother (by rw [hn, hp])
    · rw [if_neg hid]
  · intro hv id' grant hgrant
    change grants.get? id' = some grant at hgrant
    rw [hget] at hgrant
    split at hgrant
    · cases hgrant
      exact ((hbump _ _).2 rfl).ne_bot
    · intro hbot
      exact hv id' grant hgrant (le_bot_iff.mp (hbot ▸ (hbump _ _).1))

theorem contributes_congr (db : Authority) {grant' : GrantRow}
    (hn : grant'.namespaceId = grant.namespaceId) (hp : grant'.principalId = grant.principalId)
    (hc : grant'.contribution = grant.contribution) (hrole : grant'.role = grant.role)
    (hrevoked : grant'.revokedAt = grant.revokedAt) :
    db.contributes grant' = db.contributes grant := by
  unfold contributes
  rw [hn, hp, hc, hrole, hrevoked]

theorem updateGrants_fenced (db : Authority) (q : Id → GrantRow → Bool) (f : GrantRow → GrantRow)
    (hf : ∀ r, (f r).namespaceId = r.namespaceId ∧ (f r).principalId = r.principalId ∧
      (f r).contribution = r.contribution) : Fenced db (db.updateGrants q f) := by
  obtain ⟨v, hv⟩ := db.updateGrants_eq q f
  have hbump := versionOf_foldl_bumpVersion { db with grants := db.grants.updateWhere q fun _ => f }
    ((db.grants.select q).filter fun entry => grantChanged entry.2 (f entry.2))
  change ∀ n p, db.versionOf n p ≤ (db.updateGrants q f).versionOf n p ∧ (_ → _) at hbump
  have hgrants : (db.updateGrants q f).grants = db.grants.updateWhere q fun _ => f := by rw [hv]
  have hcontributes : (db.updateGrants q f).contributes = db.contributes := by
    rw [hv]
    rfl
  refine ⟨fun n p => (hbump n p).1, ?_, ?_⟩
  · intro _ n p heq
    -- A changed row of the pair would have raised its version.
    have hkeep : ∀ id grant, db.grants.get? id = some grant → grant.namespaceId = n →
        grant.principalId = p → q id grant = true → (f grant).role = grant.role ∧
          (f grant).revokedAt = grant.revokedAt := by
      intro id grant hget hn hp hq
      by_contra hchanged
      refine absurd heq ((hbump n p).2 ⟨(id, grant), List.mem_filter.mpr ⟨?_, ?_⟩, hn, hp⟩).ne'
      · exact (db.grants.mem_select q id grant).mpr ⟨hget, hq⟩
      · simp only [grantChanged, ne_eq, Bool.or_eq_true, decide_eq_true_eq]
        rw [not_and_or] at hchanged
        exact hchanged.imp (fun h h' => h h'.symm) (fun h h' => h h'.symm)
    refine authorizedRoles_congr fun role => ?_
    simp only [mem_authorizedRoles, hgrants, hcontributes, Table.get?_updateWhere,
      Option.map_eq_some_iff]
    constructor
    · rintro ⟨id, _, ⟨grant, hget, rfl⟩, hn, hp, hrole, hcontributes⟩
      refine ⟨id, grant, hget, ?_⟩
      split at hn <;> rename_i hq
      · rw [if_pos hq] at hp hrole hcontributes
        obtain ⟨hfn, hfp, hfc⟩ := hf grant
        obtain ⟨hsame, hrevoked⟩ := hkeep id grant hget (hfn ▸ hn) (hfp ▸ hp) hq
        rw [db.contributes_congr hfn hfp hfc hsame hrevoked] at hcontributes
        exact ⟨hfn ▸ hn, hfp ▸ hp, hsame ▸ hrole, hcontributes⟩
      · rw [if_neg hq] at hp hrole hcontributes
        exact ⟨hn, hp, hrole, hcontributes⟩
    · rintro ⟨id, grant, hget, hn, hp, hrole, hcontributes⟩
      refine ⟨id, _, ⟨grant, hget, rfl⟩, ?_⟩
      split <;> rename_i hq
      · obtain ⟨hfn, hfp, hfc⟩ := hf grant
        obtain ⟨hsame, hrevoked⟩ := hkeep id grant hget hn hp hq
        rw [db.contributes_congr hfn hfp hfc hsame hrevoked, hfn, hfp, hsame]
        exact ⟨hn, hp, hrole, hcontributes⟩
      · exact ⟨hn, hp, hrole, hcontributes⟩
  · intro hversioned id grant hget hbot
    rw [hgrants, Table.get?_updateWhere, Option.map_eq_some_iff] at hget
    obtain ⟨old, hold, rfl⟩ := hget
    have hpair : (if q id old = true then f old else old).namespaceId = old.namespaceId ∧
        (if q id old = true then f old else old).principalId = old.principalId := by
      split
      · exact ⟨(hf old).1, (hf old).2.1⟩
      · exact ⟨rfl, rfl⟩
    rw [hpair.1, hpair.2] at hbot
    exact hversioned id old hold (le_bot_iff.mp (hbot ▸ (hbump _ _).1))

theorem upsertGrant_fenced {f : GrantRow → GrantRow}
    (hf : ∀ r, (f r).namespaceId = r.namespaceId ∧ (f r).principalId = r.principalId ∧
      (f r).contribution = r.contribution) (h : db.upsertGrant id row f = .ok db') :
    Fenced db db' := by
  unfold upsertGrant at h
  split at h
  · exact insertGrant_fenced h
  · cases h
    exact updateGrants_fenced db _ f hf

theorem manageNamespace_fenced (db : Authority) (sourceId : String) (revision : Int) (n : Id) :
    Fenced db (db.manageNamespace sourceId revision n) := by
  unfold manageNamespace
  split
  · rename_i managed hinsert
    have hbump := versionOf_bumpVersionsWhere { db with managed := managed } fun n' _ => n' = n
    refine Fenced.of_grants_eq rfl (fun n p => (hbump n p).1) ?_
    intro hv id grant hget _ heq
    -- Every granted pair of the namespace has a version, and it grew.
    have hother : ¬ grant.namespaceId = n := fun hn =>
      absurd heq ((hbump _ _).2 (decide_eq_true hn) (hv id grant hget)).ne'
    rw [Bool.eq_iff_iff, contributes_iff, contributes_iff]
    change _ ∧ (managed.get? grant.namespaceId = none ∨ _) ↔ _
    rw [Table.get?_insert hinsert, if_neg hother]
    rfl
  · refine Fenced.of_eq rfl rfl ?_ rfl rfl
    intro n'
    rw [Table.get?_modify]
    split <;> simp only [Option.isSome_map]

theorem foldl_manageNamespace_fenced (db : Authority) (sourceId : String) (revision : Int)
    (l : List Id) :
    Fenced db (l.foldl (fun db id => db.manageNamespace sourceId revision id) db) := by
  induction l generalizing db with
  | nil => exact Fenced.refl db
  | cons n rest ih => exact (db.manageNamespace_fenced sourceId revision n).trans (ih _)

theorem updateManaged_fenced (q : Id → ManagedRow → Bool) (f : Id → ManagedRow → ManagedRow)
    (s : Table String SourceRow) :
    Fenced db { db with managed := db.managed.updateWhere q f, sources := s } := by
  refine Fenced.of_eq rfl rfl (fun n => ?_) rfl rfl
  rw [Table.get?_updateWhere, Option.isSome_map]

theorem withdrawNamespaces_fenced (db : Authority) (sourceId : String) (revision : Int) :
    Fenced db (db.withdrawNamespaces sourceId revision) :=
  updateManaged_fenced _ _ _

/-- The bindings of one group decide about its grants; one that the trigger overlooks
matches neither the old nor the new binding. -/
theorem contributes_of_bindings (db : Authority) {bindings : Table Id BindingRow}
    {versions : Table (Id × Id) Nat} (h : ∀ groupId, grant.contribution = .directory groupId →
      ((∃ binding, bindings.get? groupId = some binding ∧
          binding.namespaceId = grant.namespaceId ∧ binding.role = grant.role ∧
          binding.enabled = true) ↔
        ∃ binding, db.bindings.get? groupId = some binding ∧
          binding.namespaceId = grant.namespaceId ∧ binding.role = grant.role ∧
          binding.enabled = true)) :
    ({ db with bindings := bindings, versions := versions } : Authority).contributes grant =
      db.contributes grant := by
  rw [Bool.eq_iff_iff, contributes_iff, contributes_iff]
  refine and_congr_right fun _ => or_congr_right (exists_congr fun groupId => ?_)
  simp only [exists_and_left]
  refine and_congr_right fun hc => and_congr_right fun _ => ?_
  exact h groupId hc

theorem bindingTouches_of_grant {groupId : Id} {rows : List BindingRow} {row : BindingRow}
    (hget : db.grants.get? id = some grant) (hrevoked : grant.revokedAt = none)
    (hc : grant.contribution = .directory groupId) (hrow : row ∈ rows)
    (hn : row.namespaceId = grant.namespaceId) (hrole : row.role = grant.role) :
    db.bindingTouches groupId rows grant.namespaceId grant.principalId = true := by
  refine (db.grants.any_eq_true_iff _).mpr ⟨id, grant, hget, ?_⟩
  simp only [decide_true, hc, hrevoked, Bool.and_true, List.any_eq_true, Bool.true_and,
    Bool.and_eq_true, decide_eq_true_eq]
  exact ⟨row, hrow, hn, hrole⟩

theorem updateBindings_fenced (db : Authority) (q : Id → BindingRow → Bool)
    (f : BindingRow → BindingRow) : Fenced db (db.updateBindings q f) := by
  have hbump := versionOf_renewVersions
    { db with bindings := db.bindings.updateWhere q fun _ => f }
    (((db.bindings.select q).filter fun entry => bindingChanged entry.2 (f entry.2)).map
      fun entry => db.bindingTouches entry.1 [entry.2, f entry.2])
  change ∀ n p, db.versionOf n p ≤ (db.updateBindings q f).versionOf n p ∧ (_ → _) at hbump
  obtain ⟨v, hv⟩ := db.updateBindings_eq q f
  refine Fenced.of_grants_eq (by rw [hv]) (fun n p => (hbump n p).1) ?_
  intro hversioned id grant hget hrevoked heq
  rw [hv]
  refine db.contributes_of_bindings fun groupId hc => ?_
  simp only [Table.get?_updateWhere, Option.map_eq_some_iff]
  cases hbinding : db.bindings.get? groupId with
  | none => simp
  | some binding =>
      simp only [Option.some.injEq, exists_eq_left']
      by_cases hq : q groupId binding = true
      · rw [if_pos hq]
        by_cases hchanged : bindingChanged binding (f binding) = true
        · have huntouched : ∀ row ∈ [binding, f binding],
              ¬ (row.namespaceId = grant.namespaceId ∧ row.role = grant.role) := by
            rintro row hrow ⟨hn, hrole⟩
            refine absurd heq ((hbump _ _).2 ⟨_, List.mem_map.mpr ⟨(groupId, binding),
              List.mem_filter.mpr ⟨?_, hchanged⟩, rfl⟩, ?_⟩ (hversioned id grant hget)).ne'
            · exact (db.bindings.mem_select q groupId binding).mpr ⟨hbinding, hq⟩
            · exact bindingTouches_of_grant hget hrevoked hc hrow hn hrole
          refine iff_of_false (fun h => ?_) (fun h => ?_)
          · exact huntouched (f binding) (by simp) ⟨h.1, h.2.1⟩
          · exact huntouched binding (by simp) ⟨h.1, h.2.1⟩
        · simp only [bindingChanged, ne_eq, Bool.or_eq_true, decide_eq_true_eq, not_or,
            not_not] at hchanged
          rw [hchanged.1.1, hchanged.1.2, hchanged.2]
      · rw [if_neg hq]

theorem upsertBinding_fenced (db : Authority) (binding : DirectoryBinding) :
    Fenced db (db.upsertBinding binding) := by
  simp only [upsertBinding]
  split
  · rename_i bindings hinsert
    have hbump := versionOf_renewVersions { db with bindings := bindings }
      [db.bindingTouches binding.groupId [⟨binding.namespaceId, binding.role, true, 1⟩]]
    obtain ⟨v, hv⟩ := renewVersions_eq { db with bindings := bindings }
      [db.bindingTouches binding.groupId [⟨binding.namespaceId, binding.role, true, 1⟩]]
    refine Fenced.of_grants_eq (by rw [hv]) (fun n p => (hbump n p).1) ?_
    intro hversioned id grant hget hrevoked heq
    rw [hv]
    refine db.contributes_of_bindings fun groupId hc => ?_
    rw [Table.get?_insert hinsert]
    by_cases hgroup : groupId = binding.groupId
    · subst hgroup
      rw [if_pos rfl, Table.insert?_free hinsert]
      refine iff_of_false ?_ (by rintro ⟨_, h, _⟩; cases h)
      rintro ⟨row, hrow, hn, hrole, -⟩
      cases hrow
      refine absurd heq ((hbump _ _).2 ⟨_, List.mem_singleton_self _, ?_⟩
        (hversioned id grant hget)).ne'
      exact bindingTouches_of_grant hget hrevoked hc (List.mem_singleton_self _) hn hrole
    · rw [if_neg hgroup]
  · exact db.updateBindings_fenced _ _

theorem foldl_upsertBinding_fenced (db : Authority) (l : List DirectoryBinding) :
    Fenced db (l.foldl upsertBinding db) := by
  induction l generalizing db with
  | nil => exact Fenced.refl db
  | cons binding rest ih => exact (db.upsertBinding_fenced binding).trans (ih _)

theorem contributes_of_accounts (db : Authority) {accounts : Table Id AccountRow}
    (versions : Table (Id × Id) Nat) (h : (db.managed.get? grant.namespaceId).isSome = true →
      ((∃ id account, accounts.get? id = some account ∧
          account.principalId = grant.principalId ∧ account.enabled = true) ↔
        ∃ id account, db.accounts.get? id = some account ∧
          account.principalId = grant.principalId ∧ account.enabled = true)) :
    ({ db with accounts := accounts, versions := versions } : Authority).contributes grant =
      db.contributes grant := by
  rw [Bool.eq_iff_iff, contributes_iff, contributes_iff]
  refine and_congr_right fun _ => ?_
  change db.managed.get? grant.namespaceId = none ∨ _ ↔ _
  cases hmanaged : db.managed.get? grant.namespaceId with
  | none => exact iff_of_true (Or.inl rfl) (Or.inl rfl)
  | some state =>
      have haccounts := h (by rw [hmanaged]; rfl)
      simp only [Table.any_eq_true_iff, Bool.and_eq_true, decide_eq_true_eq, haccounts]

theorem updateAccounts_fenced (db : Authority) (q : Id → AccountRow → Bool)
    (f : AccountRow → AccountRow) (hf : ∀ r, (f r).principalId = r.principalId) :
    Fenced db (db.updateAccounts q f) := by
  have hbump := versionOf_renewVersions
    { db with accounts := db.accounts.updateWhere q fun _ => f }
    (((db.accounts.select q).filter fun entry => entry.2.enabled ≠ (f entry.2).enabled).map
      fun entry => db.accountTouches (f entry.2))
  change ∀ n p, db.versionOf n p ≤ (db.updateAccounts q f).versionOf n p ∧ (_ → _) at hbump
  obtain ⟨v, hv⟩ := db.updateAccounts_eq q f
  refine Fenced.of_grants_eq (by rw [hv]) (fun n p => (hbump n p).1) ?_
  intro hversioned id grant hget hrevoked heq
  rw [hv]
  refine db.contributes_of_accounts v fun hmanaged => ?_
  have hkeep : ∀ id account, db.accounts.get? id = some account →
      account.principalId = grant.principalId → q id account = true →
      (f account).enabled = account.enabled := by
    intro accountId account haccount hp hq
    by_contra hchanged
    refine absurd heq ((hbump _ _).2 ⟨_, List.mem_map.mpr ⟨(accountId, account),
      List.mem_filter.mpr ⟨?_, decide_eq_true (Ne.symm hchanged)⟩, rfl⟩, ?_⟩
      (hversioned id grant hget)).ne'
    · exact (db.accounts.mem_select q accountId account).mpr ⟨haccount, hq⟩
    · simp only [accountTouches, hf, hp, decide_true, Bool.true_and, hmanaged]
  simp only [Table.get?_updateWhere, Option.map_eq_some_iff]
  refine exists_congr fun accountId => ?_
  constructor
  · rintro ⟨_, ⟨account, haccount, rfl⟩, hp, henabled⟩
    refine ⟨account, haccount, ?_⟩
    split at hp <;> rename_i hq
    · rw [if_pos hq] at henabled
      rw [hf] at hp
      exact ⟨hp, hkeep accountId account haccount hp hq ▸ henabled⟩
    · rw [if_neg hq] at henabled
      exact ⟨hp, henabled⟩
  · rintro ⟨account, haccount, hp, henabled⟩
    refine ⟨_, ⟨account, haccount, rfl⟩, ?_⟩
    split <;> rename_i hq
    · rw [hf, hkeep accountId account haccount hp hq]
      exact ⟨hp, henabled⟩
    · exact ⟨hp, henabled⟩

theorem withdrawBindings_fenced (db : Authority) (sourceId : String) :
    Fenced db (db.withdrawBindings sourceId) :=
  db.updateBindings_fenced _ _

theorem withdrawAccounts_fenced (db : Authority) (sourceId : String) :
    Fenced db (db.withdrawAccounts sourceId) :=
  db.updateAccounts_fenced _ _ fun _ => rfl

theorem upsertAccount_fenced (h : db.upsertAccount sourceId identity = .ok db') :
    Fenced db db' := by
  unfold upsertAccount at h
  split at h
  · rename_i accounts hinsert
    simp only [bind_ok_iff, ensure_ok_iff, pure_ok_iff] at h
    obtain ⟨-, -, rfl⟩ := h
    refine Fenced.of_grants_eq rfl (fun _ _ => le_refl _) ?_
    intro _ _ grant _ _ _
    -- A new account is disabled, so it changes nobody's roles.
    refine db.contributes_of_accounts db.versions fun _ => ?_
    refine exists_congr fun id => exists_congr fun account => ?_
    rw [Table.get?_insert hinsert]
    by_cases hid : id = identity.directoryId
    · subst hid
      rw [if_pos rfl, Table.insert?_free hinsert]
      refine iff_of_false ?_ (fun h => by cases h.1)
      rintro ⟨hrow, -, henabled⟩
      cases hrow
      cases henabled
    · rw [if_neg hid]
  · cases h
    exact db.updateAccounts_fenced _ _ fun _ => rfl

theorem installIdentity_fenced (h : installIdentity sourceId db identity = .ok db') :
    Fenced db db' := by
  simp only [installIdentity, bind_ok_iff] at h
  obtain ⟨db₁, hprincipal, haccount⟩ := h
  obtain ⟨t, rfl⟩ := insertPrincipal_eq hprincipal
  refine Fenced.trans ?_ (upsertAccount_fenced haccount)
  exact Fenced.of_eq rfl rfl (fun _ => rfl) rfl rfl

theorem verifyIdentity_fenced {snapshot : DirectorySnapshot}
    (h : verifyIdentity sourceId snapshot db identity = .ok db') : Fenced db db' := by
  simp only [verifyIdentity, bind_ok_iff, need_ok_iff] at h
  obtain ⟨-, -, h⟩ := h
  split at h
  · refine foldlM_ok_induction (P := Fenced db) _ ?_ ?_ h
    · intro d signIn d' _ hd hinsert
      obtain ⟨t, rfl⟩ := insertAlias_eq hinsert
      exact hd.trans (Fenced.of_eq rfl rfl (fun _ => rfl) rfl rfl)
    · exact db.updateAccounts_fenced _ _ fun _ => rfl
  · rw [pure_ok_iff] at h
    subst h
    exact db.updateAccounts_fenced _ _ fun _ => rfl

theorem upsertMembership_fenced {legacyId : Id → Id → Id} {n p : Id} {role : Role}
    (h : db.upsertMembership now legacyId n p role = .ok db') : Fenced db db' := by
  unfold upsertMembership at h
  refine Fenced.trans ?_ (upsertGrant_fenced ?_ h)
  · exact Fenced.of_eq rfl rfl (fun _ => rfl) rfl rfl
  · exact fun _ => ⟨rfl, rfl, rfl⟩

theorem upsertPrincipal_fenced {id' : Id} {signIn : SignIn} {displayName : String}
    (h : db.upsertPrincipal id signIn displayName = .ok (id', db')) : Fenced db db' := by
  obtain ⟨t, rfl⟩ := upsertPrincipal_eq h
  exact Fenced.of_eq rfl rfl (fun _ => rfl) rfl rfl

end Authority

/-! Each operation, and so each transaction, fences what it changes. -/

section Operations

open Authority

variable {db db' : Authority} {now : Time}

theorem configureDirectory_fenced {digest : DirectoryMapping → String} {mapping : DirectoryMapping}
    (h : configureDirectory digest now mapping db = .ok (u, db')) : Fenced db db' := by
  simp only [configureDirectory, bind_ok_iff] at h
  obtain ⟨-, -, -, -, -, -, h⟩ := h
  split at h
  · simp only [pure_ok_iff, Prod.mk.injEq] at h
    exact h.2 ▸ Fenced.refl db
  · simp only [bind_ok_iff, pure_ok_iff, Prod.mk.injEq] at h
    obtain ⟨-, -, db₁, hidentities, -, rfl⟩ := h
    have haliases : Fenced db₁ (db₁.removeAliases mapping.sourceId) :=
      Fenced.of_eq rfl rfl (fun _ => rfl) rfl rfl
    refine Fenced.trans ?_ haliases
    refine foldlM_ok_induction (P := Fenced db) _ ?_ ?_ hidentities
    · intro d identity d' _ hd hinstall
      exact hd.trans (installIdentity_fenced hinstall)
    · refine Fenced.trans ?_ (foldl_upsertBinding_fenced _ _)
      refine Fenced.trans ?_ (withdrawAccounts_fenced _ _)
      refine Fenced.trans ?_ (withdrawBindings_fenced _ _)
      refine Fenced.trans ?_ (withdrawNamespaces_fenced _ _ _)
      refine Fenced.trans ?_ (foldl_manageNamespace_fenced _ _ _ _)
      exact Fenced.of_eq rfl rfl (fun _ => rfl) rfl rfl

theorem applyDirectorySnapshot_fenced {grantId : DesiredGrant → Id} {snapshot : DirectorySnapshot}
    (h : applyDirectorySnapshot now grantId snapshot db = .ok (u, db')) : Fenced db db' := by
  simp only [applyDirectorySnapshot, bind_ok_iff, pure_ok_iff, Prod.mk.injEq] at h
  obtain ⟨source, -, -, -, -, -, -, -, db₁, hverify, -, -, db₂, hgrant, -, rfl⟩ := h
  have hverified : Fenced db db₁ := by
    refine foldlM_ok_induction (P := Fenced db) _ ?_ (Fenced.refl db) hverify
    intro d identity d' _ hd hone
    exact hd.trans (verifyIdentity_fenced hone)
  have hgranted : Fenced db db₂ := by
    refine foldlM_ok_induction (P := Fenced db) _ ?_ ?_ hgrant
    · intro d desired d' _ hd hone
      refine hd.trans (upsertGrant_fenced ?_ hone)
      intro row
      split <;> exact ⟨rfl, rfl, rfl⟩
    · exact hverified.trans (updateGrants_fenced _ _ _ fun _ => ⟨rfl, rfl, rfl⟩)
  exact hgranted.trans (updateManaged_fenced _ _ _)

theorem AuthorityCall.run_fenced {primitives : Primitives} {call : AuthorityCall}
    (h : call.run primitives db = .ok db') : Fenced db db' := by
  cases call.writes h with
  | nothing => exact Fenced.refl db
  | keys | ledger => exact Fenced.of_eq rfl rfl (fun _ => rfl) rfl rfl
  | membership hprincipal _ hmember =>
      refine (upsertPrincipal_fenced hprincipal).trans (.trans ?_ (upsertMembership_fenced hmember))
      exact Fenced.of_eq rfl rfl (fun _ => rfl) rfl rfl
  | grant hprincipal _ hinsert =>
      exact (upsertPrincipal_fenced hprincipal).trans (insertGrant_fenced hinsert)
  | revocation => exact db.updateGrants_fenced _ _ fun _ => ⟨rfl, rfl, rfl⟩
  | configuration _ h => exact configureDirectory_fenced h
  | snapshot _ h => exact applyDirectorySnapshot_fenced h
  | failure _ =>
      unfold recordDirectoryFailure
      split
      · exact updateManaged_fenced _ _ _
      · exact Fenced.refl db

end Operations

/-- A transaction of any of the operations, on any tables that can arise, lowers no
version, and raises the version of every pair whose roles it changes. -/
theorem authority_changes_raise_versions {primitives : Primitives} {w : AuthorityHistory}
    (h : AuthorityHistory.Arises primitives w) (calls : List AuthorityCall) {db' : Authority}
    (hrun : calls.foldlM (fun db call => AuthorityCall.run primitives call db) w.db = .ok db')
    (n p : Id) :
    w.db.versionOf n p ≤ db'.versionOf n p ∧
      (db'.authorizedRoles n p ≠ w.db.authorizedRoles n p →
        w.db.versionOf n p < db'.versionOf n p) := by
  have hversioned : w.db.Versioned := by
    refine h.holds ?_ ?_ ?_
    · intro id grant hget
      cases hget
    · intro call db db' hdb hcall
      exact (AuthorityCall.run_fenced hcall).versioned hdb
    · intro now db hdb
      exact hdb
  have hfenced : Authority.Fenced w.db db' := by
    refine foldlM_ok_induction (P := Authority.Fenced w.db) calls ?_ (Authority.Fenced.refl _) hrun
    intro db call db' _ hdb hcall
    exact hdb.trans (AuthorityCall.run_fenced hcall)
  refine ⟨hfenced.grows n p, fun hroles => (hfenced.grows n p).lt_of_ne' ?_⟩
  intro heq
  exact hroles (hfenced.fences hversioned n p heq)

namespace Sample

def admin : Principal := ⟨⟨"issuer", "admin"⟩, none⟩

def bootstrap : AuthorityCall :=
  ⟨0, .ensureBootstrapIdentity ⟨"issuer", "admin"⟩ "Admin" "default" 7 1⟩

def grantAndRevoke : List AuthorityCall :=
  [⟨second, .putMembershipGrant admin "default" 21 8 ⟨⟨"issuer", "bob"⟩, "Bob", .operator⟩⟩,
    ⟨second, .putMembershipGrant admin "default" 22 8 ⟨⟨"issuer", "bob"⟩, "Bob", .viewer⟩⟩,
    ⟨2 * second, .revokeMembershipGrant admin "default" 21⟩]

end Sample

theorem authority_changes_raise_versions_granted :
    ∃ db db' : Authority, db.authorizedRoles 1 8 = [] ∧ db'.authorizedRoles 1 8 = [.viewer] ∧
      db.versionOf 1 8 < db'.versionOf 1 8 := by
  have hbefore : ((AuthorityHistory.after Sample.tokenLibrary [Sample.bootstrap]).map fun w =>
      (w.db.authorizedRoles 1 8, (Sample.grantAndRevoke.foldlM
        (fun db call => AuthorityCall.run Sample.tokenLibrary call db) w.db).toOption.map
          fun db' => db'.authorizedRoles 1 8)) = some ([], some [.viewer]) := by
    decide
  obtain ⟨w, hw, hroles⟩ := Option.map_eq_some_iff.mp hbefore
  obtain ⟨hbefore, hafter⟩ := Prod.mk.inj hroles
  obtain ⟨db', hdb', hafter⟩ := Option.map_eq_some_iff.mp hafter
  refine ⟨w.db, db', hbefore, hafter, ?_⟩
  refine (authority_changes_raise_versions (AuthorityHistory.arises_after hw)
    Sample.grantAndRevoke ?_ 1 8).2 ?_
  · cases hrun : Sample.grantAndRevoke.foldlM
      (fun db call => AuthorityCall.run Sample.tokenLibrary call db) w.db with
    | error e =>
        rw [hrun] at hdb'
        cases hdb'
    | ok d =>
        rw [hrun] at hdb'
        cases hdb'
        rfl
  · rw [hbefore, hafter]
    decide

end JobmanControl
