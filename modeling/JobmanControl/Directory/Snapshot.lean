import JobmanControl.Directory.Groups
import JobmanControl.Directory.Mapping

/-!
One reading of a directory. The configured accounts are looked up first, then the groups are
read and their members are matched with the accounts by name, and at the end every account is
looked up once more: an account that was renamed, changed, deleted or created in between makes
the whole reading fail.
-/

namespace JobmanControl.Directory

open Relational Function

structure DirectoryAccountObservation where
  directoryId : Bytes
  present : Bool
  enabled : Bool
  deriving DecidableEq, Repr

structure DirectoryGroupObservation where
  groupId : Bytes
  present : Bool
  directoryIds : List Bytes
  deriving DecidableEq, Repr

structure DirectorySnapshot where
  sourceId : Bytes
  revision : Int
  digest : Bytes
  recoveryEpoch : Int
  verifiedAt : Int
  accounts : List DirectoryAccountObservation
  groups : List DirectoryGroupObservation
  ignoredDirectMembers : Nat
  deriving DecidableEq, Repr

def userClass : Bytes := ascii "(&(objectClass=user)(objectCategory=person)".toList

def userAccountControl : Bytes := ascii "userAccountControl".toList

def accountExpires : Bytes := ascii "accountExpires".toList

/-- What the loop over the accounts has found: the accounts by the key of their name, and the
versions and the keys of the names by account. -/
structure AccountReading where
  usersByDN : Bytes → Option Bytes
  userVersions : Bytes → Bytes
  userNames : Bytes → Bytes
  accounts : List DirectoryAccountObservation

structure GroupReading where
  totalMembers : Nat
  ignoredDirectMembers : Nat
  groups : List DirectoryGroupObservation

def checkContext : Option String → Except ReadError Unit
  | none => .ok ()
  | some message => .error (.invalid message)

namespace LdapLibrary

variable (lib : LdapLibrary)

def nameKey (value : Bytes) : Except ReadError Bytes :=
  (lib.distinguishedNameKey value).mapError .invalid

/-- Whether an account is enabled and not expired. The time is in nanoseconds since 1970, an
expiry in units of 100 nanoseconds since 1601. -/
def eligible (entry : Entry) (now : Int) : Except ReadError Bool := do
  let flags ← need (parseUint 4294967296 (lib.attributeValue entry userAccountControl))
    (.invalid "directory account eligibility is missing")
  if flags &&& 2 ≠ 0 then pure false
  else
    let expires := lib.attributeValue entry accountExpires
    ensure (expires ≠ []) (.invalid "directory account expiry evidence is missing")
    let value ← need (parseUint 18446744073709551616 expires)
      (.invalid "directory account expiry is invalid")
    if value = 0 ∨ value = 0x7fffffffffffffff then pure true
    else
      let seconds := value / 10000000
      if seconds < 11644473600 then pure false
      else
        let unix := now / 1000000000
        ensure (0 ≤ unix) (.invalid "directory verification clock is invalid")
        pure (decide (unix < (seconds - 11644473600 : Nat)))

def recordAccount (started : Int) (reading : AccountReading) (id : Bytes) :
    Option Entry → Except ReadError AccountReading
  | none => pure { reading with accounts := reading.accounts ++ [⟨id, false, false⟩] }
  | some entry => do
      let version := lib.attributeValue entry uSNChanged
      ensure (parseUint 18446744073709551616 version ≠ none)
        (.invalid "directory account version is missing")
      let enabled ← lib.eligible entry started
      let key ← lib.nameKey entry.dn
      ensure (reading.usersByDN key = none)
        (.invalid "directory identities share a distinguished name")
      pure {
        usersByDN := update reading.usersByDN key (some id)
        userVersions := update reading.userVersions id version
        userNames := update reading.userNames id key
        accounts := reading.accounts ++ [⟨id, true, enabled⟩] }

def readAccount (base : Bytes) (started : Int) (context : Nat → Option String)
    (reading : AccountReading) (identity : DirectoryIdentity × Nat) : Search AccountReading := do
  .ofExcept (checkContext (context identity.2))
  let found ← lib.findObject base identity.1.directoryId userClass
    [objectGUID, uSNChanged, userAccountControl, accountExpires]
  .ofExcept (lib.recordAccount started reading identity.1.directoryId found)

/-- The accounts among the members, and how many members are none. -/
def matchMember (users : Bytes → Option Bytes) (matched : List Bytes × Nat) (member : Bytes) :
    Except ReadError (List Bytes × Nat) := do
  let key ← lib.nameKey member
  let user := (users key).getD []
  if user ≠ [] then pure (matched.1 ++ [user], matched.2) else pure (matched.1, matched.2 + 1)

def recordGroup (users : Bytes → Option Bytes) (reading : GroupReading) (id : Bytes)
    (members : List Bytes) (present : Bool) : Except ReadError GroupReading := do
  ensure (reading.totalMembers + members.length ≤ maximumDirectMembers)
    (.invalid "directory snapshot exceeds direct membership bound")
  let (directoryIds, ignored) ←
    members.foldlM (lib.matchMember users) ([], reading.ignoredDirectMembers)
  pure {
    totalMembers := reading.totalMembers + members.length
    ignoredDirectMembers := ignored
    groups := reading.groups ++ [⟨id, present, compact (orderBy stringLe directoryIds)⟩] }

def readBinding (base : Bytes) (users : Bytes → Option Bytes) (context : Nat → Option String)
    (reading : GroupReading) (binding : DirectoryBinding × Nat) : Search GroupReading := do
  .ofExcept (checkContext (context binding.2))
  let (members, present) ← lib.readGroup base binding.1.groupId
  .ofExcept (lib.recordGroup users reading binding.1.groupId members present)

/-- The last lookup of an account has to agree with its first one. -/
def confirmAccount (reading : AccountReading) (id : Bytes) : Option Entry → Except ReadError Unit
  | none => ensure (reading.userVersions id = [])
      (.invalid "directory account changed during verification")
  | some final => do
      let key ← (lib.nameKey final.dn).mapError
        fun _ => .invalid "directory account changed during verification"
      ensure (key = reading.userNames id ∧
          lib.attributeValue final uSNChanged = reading.userVersions id)
        (.invalid "directory account changed during verification")

def verifyAccount (base : Bytes) (reading : AccountReading) (context : Nat → Option String)
    (_ : Unit) (identity : DirectoryIdentity × Nat) : Search Unit := do
  .ofExcept (checkContext (context identity.2))
  let final ← lib.findObject base identity.1.directoryId userClass [objectGUID, uSNChanged]
  .ofExcept (lib.confirmAccount reading identity.1.directoryId final)

/-- The `k`-th check of the context gives `context k`. -/
def readSnapshot (base : Bytes) (mapping : DirectoryMapping)
    (digest : DirectoryMapping → Except ReadError Bytes) (epoch started : Int)
    (context : Nat → Option String) : Search DirectorySnapshot := do
  let accountCount := mapping.identities.length
  let bindingCount := mapping.bindings.length
  let digest ← .ofExcept (digest mapping)
  let accounts ← mapping.identities.zipIdx.foldlM (lib.readAccount base started context)
    ⟨fun _ => none, fun _ => [], fun _ => [], []⟩
  let groups ← (mapping.bindings.zipIdx accountCount).foldlM
    (lib.readBinding base accounts.usersByDN context) ⟨0, 0, []⟩
  (mapping.identities.zipIdx (accountCount + bindingCount)).foldlM
    (lib.verifyAccount base accounts context) ()
  .ofExcept (checkContext (context (accountCount + bindingCount + accountCount)))
  pure {
    sourceId := mapping.sourceId
    revision := mapping.revision
    digest := digest
    recoveryEpoch := epoch
    verifiedAt := started
    accounts := accounts.accounts
    groups := groups.groups
    ignoredDirectMembers := groups.ignoredDirectMembers }

/-! What a reading has looked up. -/

def Looked (server : Nat → SearchRequest → Response) (base opening : Bytes)
    (attributes : List Bytes) (k : Nat) (id : Bytes) (found : Option Entry) : Prop :=
  ∃ guid, guidBytes id = .ok guid ∧
    lib.foundObject base guid (server k (lib.findRequest base guid opening attributes)) = .ok found

def firstAttributes : List Bytes := [objectGUID, uSNChanged, userAccountControl, accountExpires]

def finalAttributes : List Bytes := [objectGUID, uSNChanged]

variable {lib}

variable {server : Nat → SearchRequest → Response} {base id : Bytes} {started : Int}
  {context : Nat → Option String} {users : Bytes → Option Bytes} {k n m k' : Nat}

theorem Looked.unique {opening : Bytes} {attributes : List Bytes} {found found' : Option Entry}
    (h : lib.Looked server base opening attributes k id found)
    (h' : lib.Looked server base opening attributes k id found') : found = found' := by
  obtain ⟨guid, hguid, hfound⟩ := h
  obtain ⟨guid', hguid', hfound'⟩ := h'
  cases hguid.symm.trans hguid'
  exact Except.ok.inj (hfound.symm.trans hfound')

theorem findObject_looked {opening : Bytes} {attributes : List Bytes} {found : Option Entry}
    (h : (lib.findObject base id opening attributes).Returns server n found m) :
    lib.Looked server base opening attributes n id found ∧ m = n + 1 := by
  obtain ⟨guid, hguid, rfl, hfound⟩ := findObject_returns.mp h
  exact ⟨⟨guid, hguid, hfound⟩, rfl⟩

theorem nameKey_ok_iff {value key : Bytes} :
    lib.nameKey value = .ok key ↔ lib.distinguishedNameKey value = .ok key := by
  rw [nameKey]
  cases lib.distinguishedNameKey value with
  | error message => constructor <;> intro h <;> cases h
  | ok key' => constructor <;> intro h <;> cases h <;> rfl

variable (lib server base started) in
/-- The loop over the accounts has come this far. -/
structure AccountsRead (done : List (DirectoryIdentity × Nat)) (k : Nat)
    (reading : AccountReading) : Prop where
  count : k = done.length
  looked : ∀ i identity, done[i]? = some identity →
    ∃ found, lib.Looked server base userClass firstAttributes i identity.1.directoryId found
  byName : ∀ key id, reading.usersByDN key = some id → ∃ i identity entry,
    done[i]? = some identity ∧ identity.1.directoryId = id ∧
    lib.Looked server base userClass firstAttributes i id (some entry) ∧
    lib.nameKey entry.dn = .ok key ∧ reading.userNames id = key ∧
    reading.userVersions id = lib.attributeValue entry uSNChanged ∧ reading.userVersions id ≠ []
  recorded : ∀ i identity entry, done[i]? = some identity →
    lib.Looked server base userClass firstAttributes i identity.1.directoryId (some entry) →
    ∃ key, lib.nameKey entry.dn = .ok key ∧
      reading.usersByDN key = some identity.1.directoryId
  enabled : ∀ account ∈ reading.accounts, account.enabled = true → ∃ i identity entry,
    done[i]? = some identity ∧ identity.1.directoryId = account.directoryId ∧
    lib.Looked server base userClass firstAttributes i account.directoryId (some entry) ∧
    lib.eligible entry started = .ok true

theorem getElem?_snoc {α : Type} {l : List α} {x y : α} {i : Nat} (h : (l ++ [x])[i]? = some y) :
    l[i]? = some y ∨ i = l.length ∧ x = y := by
  by_cases hi : i < l.length
  · rw [List.getElem?_append_left hi] at h
    exact .inl h
  · rw [List.getElem?_append_right (Nat.le_of_not_lt hi)] at h
    have hlast : i - l.length = 0 := by
      have := (List.getElem?_eq_some_iff.mp h).1
      rw [List.length_singleton] at this
      omega
    rw [hlast] at h
    exact .inr ⟨by omega, Option.some.inj h⟩

theorem getElem?_snoc_of_some {α : Type} {l : List α} {x y : α} {i : Nat} (h : l[i]? = some y) :
    (l ++ [x])[i]? = some y := by
  rw [List.getElem?_append_left (List.getElem?_eq_some_iff.mp h).1, h]

theorem AccountsRead.start : lib.AccountsRead server base started [] 0
    ⟨fun _ => none, fun _ => [], fun _ => [], []⟩ where
  count := rfl
  looked := fun i identity h => by cases h
  byName := fun key id h => by cases h
  recorded := fun i identity entry h => by cases h
  enabled := fun account h => by cases h

theorem readAccount_returns {identity : DirectoryIdentity × Nat} {reading reading' : AccountReading}
    (h : (lib.readAccount base started context reading identity).Returns server k reading' k') :
    ∃ found, lib.Looked server base userClass firstAttributes k identity.1.directoryId found ∧
      k' = k + 1 ∧
      lib.recordAccount started reading identity.1.directoryId found = .ok reading' := by
  simp only [readAccount, Dialogue.returns_bind, Dialogue.returns_ofExcept] at h
  obtain ⟨-, _, ⟨-, rfl⟩, found, _, hfind, hrecord, rfl⟩ := h
  obtain ⟨hlooked, rfl⟩ := findObject_looked hfind
  exact ⟨found, hlooked, rfl, hrecord⟩

theorem AccountsRead.next {done : List (DirectoryIdentity × Nat)}
    {identity : DirectoryIdentity × Nat} {reading reading' : AccountReading}
    (h : lib.AccountsRead server base started done k reading)
    (hnew : ∀ other ∈ done, other.1.directoryId ≠ identity.1.directoryId)
    (hread : (lib.readAccount base started context reading identity).Returns server k reading' k') :
    lib.AccountsRead server base started (done ++ [identity]) k' reading' := by
  obtain ⟨found, hlooked, rfl, hrecord⟩ := readAccount_returns hread
  obtain rfl := h.count
  have hlast : (done ++ [identity])[done.length]? = some identity := List.getElem?_concat_length
  have hcount : done.length + 1 = (done ++ [identity]).length := by
    rw [List.length_append, List.length_singleton]
  have hlookedAll : ∀ i other, (done ++ [identity])[i]? = some other →
      ∃ found, lib.Looked server base userClass firstAttributes i other.1.directoryId found := by
    intro i other hother
    rcases getElem?_snoc hother with hold | ⟨rfl, rfl⟩
    · exact h.looked i other hold
    · exact ⟨found, hlooked⟩
  cases found with
  | none =>
      cases hrecord
      refine ⟨hcount, hlookedAll, ?_, ?_, ?_⟩
      · intro key id hkey
        obtain ⟨i, other, entry, hother, hrest⟩ := h.byName key id hkey
        exact ⟨i, other, entry, getElem?_snoc_of_some hother, hrest⟩
      · intro i other entry hother hentry
        rcases getElem?_snoc hother with hold | ⟨rfl, rfl⟩
        · exact h.recorded i other entry hold hentry
        · cases hlooked.unique hentry
      · intro account haccount henabled
        rcases List.mem_append.mp haccount with hold | hlastAccount
        · obtain ⟨i, other, entry, hother, hrest⟩ := h.enabled account hold henabled
          exact ⟨i, other, entry, getElem?_snoc_of_some hother, hrest⟩
        · rw [List.mem_singleton.mp hlastAccount] at henabled
          cases henabled
  | some entry =>
      simp only [recordAccount, bind_ok_iff, ensure_ok_iff, pure_ok_iff] at hrecord
      obtain ⟨-, hversion, enabled, heligible, key, hkey, -, hfree, rfl⟩ := hrecord
      have hnonempty : lib.attributeValue entry uSNChanged ≠ [] := by
        intro hnil
        rw [hnil] at hversion
        exact hversion (by decide)
      refine ⟨hcount, hlookedAll, ?_, ?_, ?_⟩
      · intro key' id hkey'
        dsimp only at hkey' ⊢
        by_cases heq : key' = key
        · subst heq
          rw [update_self, Option.some.injEq] at hkey'
          subst hkey'
          refine ⟨done.length, identity, entry, hlast, rfl, hlooked, hkey, ?_, ?_, ?_⟩
          · exact update_self _ _ _
          · exact update_self _ _ _
          · rwa [update_self]
        · rw [update_of_ne heq] at hkey'
          obtain ⟨i, other, entry', hother, rfl, hrest⟩ := h.byName key' id hkey'
          have hne := hnew other (List.mem_of_getElem? hother)
          rw [update_of_ne hne, update_of_ne hne]
          exact ⟨i, other, entry', getElem?_snoc_of_some hother, rfl, hrest⟩
      · intro i other entry' hother hentry'
        rcases getElem?_snoc hother with hold | ⟨rfl, rfl⟩
        · obtain ⟨key', hkey', huser⟩ := h.recorded i other entry' hold hentry'
          refine ⟨key', hkey', ?_⟩
          dsimp only
          have hne : key' ≠ key := by
            rintro rfl
            rw [hfree] at huser
            cases huser
          rw [update_of_ne hne, huser]
        · cases hlooked.unique hentry'
          exact ⟨key, hkey, update_self _ _ _⟩
      · intro account haccount henabled
        rcases List.mem_append.mp haccount with hold | hlastAccount
        · obtain ⟨i, other, entry', hother, hrest⟩ := h.enabled account hold henabled
          exact ⟨i, other, entry', getElem?_snoc_of_some hother, hrest⟩
        · obtain rfl := List.mem_singleton.mp hlastAccount
          obtain rfl : enabled = true := henabled
          exact ⟨done.length, identity, entry, hlast, rfl, hlooked, heligible⟩

theorem readAccounts_returns {identities : List (DirectoryIdentity × Nat)}
    {reading : AccountReading} (hnodup : (identities.map (·.1.directoryId)).Nodup)
    (h : (identities.foldlM (lib.readAccount base started context)
      ⟨fun _ => none, fun _ => [], fun _ => [], []⟩).Returns server 0 reading m) :
    lib.AccountsRead server base started identities m reading := by
  refine Dialogue.returns_foldlM (P := lib.AccountsRead server base started) ?_ .start h
  intro done identity k k' reading reading' hsub hdone hread
  refine hdone.next ?_ hread
  intro other hother
  have hnodup' := hnodup.sublist ((hsub.sublist).map _)
  rw [List.map_append, List.nodup_append] at hnodup'
  exact hnodup'.2.2 _ (List.mem_map_of_mem hother) _ (List.mem_singleton.mpr rfl)

theorem foldlM_matchMember {members : List Bytes} {matched matched' : List Bytes × Nat}
    (h : members.foldlM (lib.matchMember users) matched = .ok matched') (id : Bytes) :
    id ∈ matched'.1 ↔ id ∈ matched.1 ∨ ∃ member ∈ members, ∃ key,
      lib.nameKey member = .ok key ∧ users key = some id ∧ id ≠ [] := by
  induction members generalizing matched with
  | nil =>
      rw [List.foldlM_nil, pure_ok_iff] at h
      simp [h]
  | cons member members ih =>
      rw [List.foldlM_cons, bind_ok_iff] at h
      obtain ⟨between, hmember, hrest⟩ := h
      rw [ih hrest]
      simp only [matchMember, bind_ok_iff] at hmember
      obtain ⟨key, hkey, hmember⟩ := hmember
      have hhere : id ∈ between.1 ↔ id ∈ matched.1 ∨ users key = some id ∧ id ≠ [] := by
        split at hmember
        · rename_i huser
          rw [pure_ok_iff] at hmember
          subst hmember
          obtain ⟨user, hsome⟩ : ∃ user, users key = some user := by
            cases hnone : users key with
            | none => exact absurd (by rw [hnone]; rfl) huser
            | some user => exact ⟨user, rfl⟩
          rw [hsome, Option.getD_some] at huser ⊢
          rw [List.mem_append, List.mem_singleton, Option.some.injEq]
          constructor
          · rintro (hold | rfl)
            · exact .inl hold
            · exact .inr ⟨rfl, huser⟩
          · rintro (hold | ⟨rfl, -⟩)
            · exact .inl hold
            · exact .inr rfl
        · rename_i huser
          rw [pure_ok_iff] at hmember
          subst hmember
          constructor
          · exact .inl
          · rintro (hold | ⟨hsome, hne⟩)
            · exact hold
            · rw [hsome, Option.getD_some] at huser
              exact absurd hne huser
      rw [hhere, List.exists_mem_cons_iff, or_assoc]
      refine or_congr Iff.rfl (or_congr ?_ Iff.rfl)
      constructor
      · rintro ⟨huser, hne⟩
        exact ⟨key, hkey, huser, hne⟩
      · rintro ⟨key', hkey', huser, hne⟩
        cases hkey.symm.trans hkey'
        exact ⟨huser, hne⟩

variable (lib server base users) in
/-- The loop over the groups has come this far: group `j` was read in the searches from
`starts j` up to `starts (j + 1)`. -/
structure GroupsRead (n : Nat) (starts : Nat → Nat) (done : List (DirectoryBinding × Nat))
    (k : Nat) (groups : List DirectoryGroupObservation) : Prop where
  first : starts 0 = n
  last : k = starts done.length
  length : groups.length = done.length
  read : ∀ j binding, done[j]? = some binding → ∃ members present directoryIds,
    (lib.readGroup base binding.1.groupId).Returns server (starts j) (members, present)
      (starts (j + 1)) ∧
    groups[j]? = some ⟨binding.1.groupId, present, directoryIds⟩ ∧
    ∀ id, id ∈ directoryIds ↔ ∃ member ∈ members, ∃ key,
      lib.nameKey member = .ok key ∧ users key = some id ∧ id ≠ []

theorem readBinding_returns {binding : DirectoryBinding × Nat} {reading reading' : GroupReading}
    (h : (lib.readBinding base users context reading binding).Returns server k reading' k') :
    ∃ members present directoryIds,
      (lib.readGroup base binding.1.groupId).Returns server k (members, present) k' ∧
      reading'.groups = reading.groups ++ [⟨binding.1.groupId, present, directoryIds⟩] ∧
      ∀ id, id ∈ directoryIds ↔ ∃ member ∈ members, ∃ key,
        lib.nameKey member = .ok key ∧ users key = some id ∧ id ≠ [] := by
  simp only [readBinding, Dialogue.returns_bind, Dialogue.returns_ofExcept, recordGroup,
    bind_ok_iff, pure_ok_iff, Prod.exists] at h
  obtain ⟨-, _, ⟨-, rfl⟩, members, present, _, hgroup, ⟨-, -, ids, ignored, hids, rfl⟩, rfl⟩ := h
  refine ⟨members, present, compact (orderBy stringLe ids), hgroup, rfl, fun id => ?_⟩
  rw [mem_compact, mem_orderBy, foldlM_matchMember hids id]
  exact or_iff_right List.not_mem_nil

theorem readBindings_returns {bindings : List (DirectoryBinding × Nat)} {reading : GroupReading}
    (h : (bindings.foldlM (lib.readBinding base users context) ⟨0, 0, []⟩).Returns server n
      reading m) :
    ∃ starts, lib.GroupsRead server base users n starts bindings m reading.groups := by
  refine Dialogue.returns_foldlM (P := fun done k reading =>
    ∃ starts, lib.GroupsRead server base users n starts done k reading.groups) ?_ ?_ h
  · rintro done binding k k' reading reading' - ⟨starts, hdone⟩ hread
    obtain ⟨members, present, ids, hgroup, hgroups, hids⟩ := readBinding_returns hread
    have hkept : ∀ j, j ≤ done.length →
        update starts (done.length + 1) k' j = starts j := by
      intro j hj
      exact update_of_ne (by omega) _ _
    have hlength : (done ++ [binding]).length = done.length + 1 := by
      rw [List.length_append, List.length_singleton]
    refine ⟨update starts (done.length + 1) k', ?_, ?_, ?_, ?_⟩
    · rw [hkept 0 (Nat.zero_le _), hdone.first]
    · rw [hlength, update_self]
    · rw [hgroups, List.length_append, List.length_singleton, hdone.length, hlength]
    · intro j other hother
      rw [hgroups]
      rcases getElem?_snoc hother with hold | ⟨rfl, rfl⟩
      · obtain ⟨members', present', ids', hgroup', hobserved, hids'⟩ := hdone.read j other hold
        have hj := (List.getElem?_eq_some_iff.mp hold).1
        rw [hkept j (Nat.le_of_lt hj), hkept (j + 1) hj]
        exact ⟨members', present', ids', hgroup', getElem?_snoc_of_some hobserved, hids'⟩
      · rw [hkept _ (Nat.le_refl _), update_self, ← hdone.last]
        refine ⟨members, present, ids, hgroup, ?_, hids⟩
        rw [← hdone.length]
        exact List.getElem?_concat_length
  · exact ⟨fun _ => n, rfl, rfl, rfl, fun j binding hbinding => by cases hbinding⟩

variable {reading : AccountReading}

theorem verifyAccounts_returns {identities : List (DirectoryIdentity × Nat)} {u : Unit}
    (h : (identities.foldlM (lib.verifyAccount base reading context) ()).Returns server n u m) :
    m = n + identities.length ∧ ∀ i identity, identities[i]? = some identity →
      ∃ found, lib.Looked server base userClass finalAttributes (n + i) identity.1.directoryId
          found ∧
        lib.confirmAccount reading identity.1.directoryId found = .ok () := by
  refine Dialogue.returns_foldlM (P := fun done k _ => k = n + done.length ∧
    ∀ i identity, done[i]? = some identity → ∃ found,
      lib.Looked server base userClass finalAttributes (n + i) identity.1.directoryId found ∧
      lib.confirmAccount reading identity.1.directoryId found = .ok ()) ?_ ?_ h
  · rintro done identity k k' _ _ - ⟨rfl, hdone⟩ hverify
    simp only [verifyAccount, Dialogue.returns_bind, Dialogue.returns_ofExcept] at hverify
    obtain ⟨-, _, ⟨-, rfl⟩, found, _, hfind, hconfirm, rfl⟩ := hverify
    obtain ⟨hlooked, rfl⟩ := findObject_looked hfind
    refine ⟨by rw [List.length_append, List.length_singleton]; omega, ?_⟩
    intro i other hother
    rcases getElem?_snoc hother with hold | ⟨rfl, rfl⟩
    · exact hdone i other hold
    · exact ⟨found, hlooked, hconfirm⟩
  · exact ⟨rfl, fun i identity hidentity => by cases hidentity⟩

/-- An account that was there at first is there at the end, in the same version. -/
theorem confirmAccount_ok {found : Option Entry} (h : lib.confirmAccount reading id found = .ok ())
    (hversion : reading.userVersions id ≠ []) :
    ∃ final, found = some final ∧
      lib.attributeValue final uSNChanged = reading.userVersions id := by
  cases found with
  | none =>
      rw [confirmAccount, ensure_ok_iff] at h
      exact absurd h hversion
  | some final =>
      rw [confirmAccount, bind_ok_iff] at h
      obtain ⟨key, -, hsame⟩ := h
      exact ⟨final, rfl, ((ensure_ok_iff _ _ _).mp hsame).2⟩

variable {mapping : DirectoryMapping} {digest : DirectoryMapping → Except ReadError Bytes}
  {epoch : Int}

/-- A reading is a loop over the accounts, a loop over the groups and another one over the
accounts. -/
theorem readSnapshot_returns {snapshot : DirectorySnapshot}
    (hvalid : validateMapping mapping = .ok ())
    (h : (lib.readSnapshot base mapping digest epoch started context).Returns server 0 snapshot m) :
    ∃ reading starts,
      lib.AccountsRead server base started mapping.identities.zipIdx mapping.identities.length
        reading ∧
      lib.GroupsRead server base reading.usersByDN mapping.identities.length starts
        (mapping.bindings.zipIdx mapping.identities.length) (starts mapping.bindings.length)
        snapshot.groups ∧
      (∀ i identity, mapping.identities[i]? = some identity → ∃ found,
        lib.Looked server base userClass finalAttributes (starts mapping.bindings.length + i)
          identity.directoryId found ∧
        lib.confirmAccount reading identity.directoryId found = .ok ()) ∧
      snapshot.accounts = reading.accounts ∧
      m = starts mapping.bindings.length + mapping.identities.length := by
  simp only [readSnapshot, Dialogue.returns_bind, Dialogue.returns_ofExcept,
    Dialogue.returns_pure] at h
  obtain ⟨_, _, ⟨-, rfl⟩, reading, k, haccounts, groups, l, hgroups, _, n, hverify, _, _,
    ⟨-, rfl⟩, rfl, rfl⟩ := h
  have hnodup : (mapping.identities.zipIdx.map (·.1.directoryId)).Nodup := by
    have hids := validateMapping_nodup hvalid
    rwa [← List.zipIdx_map_fst 0 mapping.identities, List.map_map] at hids
  have hread := readAccounts_returns hnodup haccounts
  obtain rfl : k = mapping.identities.length := hread.count.trans List.length_zipIdx
  obtain ⟨starts, hstarts⟩ := readBindings_returns hgroups
  obtain rfl : l = starts mapping.bindings.length := by
    rw [hstarts.last, List.length_zipIdx]
  obtain ⟨rfl, hconfirmed⟩ := verifyAccounts_returns hverify
  rw [List.length_zipIdx]
  refine ⟨reading, starts, hread, hstarts, ?_, rfl, rfl⟩
  intro i identity hidentity
  exact hconfirmed i (identity, _) (by rw [List.getElem?_zipIdx, hidentity]; rfl)

end LdapLibrary

end JobmanControl.Directory
