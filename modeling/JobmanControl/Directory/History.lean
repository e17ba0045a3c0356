import JobmanControl.Directory.Snapshot
import Mathlib.Order.Monotone.Basic

/-!
A directory that changes while it is read. Members are reported under their names and matched
with accounts by name, and a name can pass from one object to another at any time. An account
that is found in one version before and after all groups kept its name in between; a group that
is found in one version before and after its ranges kept its members. So whoever is listed is a
member, and who stays a member is listed.
-/

namespace JobmanControl.Directory

open Relational

variable {k n : Nat} {request : SearchRequest} {guid base key : Bytes}
  {server : Nat → SearchRequest → Response} {started : Int} {mapping : DirectoryMapping}
  {reading : AccountReading} {starts : Nat → Nat} {groups : List DirectoryGroupObservation}

structure DirectoryObject where
  dn : Bytes
  version : Bytes
  userAccountControl : Option Nat
  accountExpires : Option Nat
  /-- The objects that are direct members. -/
  members : List Bytes
  deriving DecidableEq, Repr

abbrev DirectoryState := Bytes → Option DirectoryObject

def numberText : Option Nat → Bytes
  | none => []
  | some n => decimalDigits n

namespace DirectoryObject

/-- The flag that disables an account is not set. -/
def NotDisabled (object : DirectoryObject) : Prop :=
  ∃ flags, object.userAccountControl = some flags ∧ flags &&& 2 = 0

/-- The account never expires, or only later. The time is in nanoseconds since 1970, an expiry
in units of 100 nanoseconds since 1601. -/
def NotExpired (object : DirectoryObject) (time : Int) : Prop :=
  ∃ expires : Nat, object.accountExpires = some expires ∧
    (expires = 0 ∨ expires = 0x7fffffffffffffff ∨
      time < (expires : Int) * 100 - 11644473600000000000)

end DirectoryObject

variable {object : DirectoryObject} {state : DirectoryState}

namespace LdapLibrary

variable (lib : LdapLibrary)

/-- The names are those the objects have now, in any spelling. -/
def Named (state : DirectoryState) (guids names : List Bytes) : Prop :=
  List.Forall₂ (fun guid name => ∃ object, state guid = some object ∧
    lib.distinguishedNameKey name = lib.distinguishedNameKey object.dn) guids names

/-- An entry tells what the directory knows of an object. -/
structure Describes (state : DirectoryState) (request : SearchRequest) (guid : Bytes)
    (object : DirectoryObject) (entry : Entry) : Prop where
  name : entry.dn = object.dn
  identifier : lib.rawAttributeValue entry objectGUID = guid
  version : lib.attributeValue entry uSNChanged = object.version
  control : userAccountControl ∈ request.attributes →
    lib.attributeValue entry userAccountControl = numberText object.userAccountControl
  expires : accountExpires ∈ request.attributes →
    lib.attributeValue entry accountExpires = numberText object.accountExpires
  members : ∃ names, lib.Named state object.members names ∧
    (∀ attr ∈ entry.attributes, lib.holdsMembers attr = true →
      ∃ first stop marked, lib.Part names attr first stop marked) ∧
    (ascii "member;range=0-999".toList ∈ request.attributes →
      (∀ attr ∈ entry.attributes, lib.holdsMembers attr = false) → names = [])

/-- A search that does not fail and refers to no other server gives the objects it is for. -/
structure AnswersFrom (selects : SearchRequest → Bytes → DirectoryObject → Prop)
    (state : DirectoryState) (request : SearchRequest) (response : Response) : Prop where
  sound : ∀ result entry, response = some result → entry ∈ result.entries →
    ∃ guid object, state guid = some object ∧ lib.Describes state request guid object entry
  complete : ∀ result guid object, response = some result → result.referrals = [] →
    state guid = some object → selects request guid object →
    ∃ entry ∈ result.entries, lib.Describes state request guid object entry

/-- What is assumed of a directory over time: a search answers from one state, the version of an
object tells whether it has changed, and no two objects have one name at a time. -/
structure Evolves {T : Type} [LinearOrder T]
    (selects : SearchRequest → Bytes → DirectoryObject → Prop) (history : T → DirectoryState)
    (moment : Nat → T) (server : Nat → SearchRequest → Response) : Prop where
  ordered : Monotone moment
  answers : ∀ k request, lib.AnswersFrom selects (history (moment k)) request (server k request)
  versions : ∀ s t u guid object object', s ≤ t → t ≤ u → history s guid = some object →
    history u guid = some object' → object.version = object'.version →
    history t guid = some object
  names : ∀ t guid guid' object object' key, history t guid = some object →
    history t guid' = some object' → lib.distinguishedNameKey object.dn = .ok key →
    lib.distinguishedNameKey object'.dn = .ok key → guid = guid'

variable {lib}

section Times

variable {T : Type} [LinearOrder T] {selects : SearchRequest → Bytes → DirectoryObject → Prop}
  {history : T → DirectoryState} {moment : Nat → T}

/-- The only entry of an answer describes the object whose identifier it shows. -/
theorem Evolves.entry (h : lib.Evolves selects history moment server) {entry : Entry}
    (hserver : server k request = some ⟨[entry], []⟩)
    (hguid : lib.rawAttributeValue entry objectGUID = guid) :
    ∃ object, history (moment k) guid = some object ∧
      lib.Describes (history (moment k)) request guid object entry := by
  obtain ⟨guid', object, hobject, hdescribes⟩ :=
    (h.answers k request).sound _ entry hserver (List.mem_singleton.mpr rfl)
  obtain rfl : guid' = guid := hdescribes.identifier.symm.trans hguid
  exact ⟨object, hobject, hdescribes⟩

theorem Evolves.absent (h : lib.Evolves selects history moment server)
    (hserver : server k request = some ⟨[], []⟩) (hobject : history (moment k) guid = some object) :
    ¬selects request guid object := by
  intro hselects
  obtain ⟨entry, hentry, -⟩ :=
    (h.answers k request).complete _ guid object hserver rfl hobject hselects
  exact List.not_mem_nil hentry

theorem Evolves.unchanged (h : lib.Evolves selects history moment server) {id : Bytes} {k' : Nat}
    {attributes attributes' : List Bytes} {entry final : Entry}
    (hentry : lib.Looked server base userClass attributes k id (some entry))
    (hfinal : lib.Looked server base userClass attributes' k' id (some final))
    (hversion : lib.attributeValue final uSNChanged = lib.attributeValue entry uSNChanged) :
    ∃ guid object, guidBytes id = .ok guid ∧ entry.dn = object.dn ∧
      ∀ t, moment k ≤ t → t ≤ moment k' → history t guid = some object := by
  obtain ⟨guid, hguid, hfound⟩ := hentry
  obtain ⟨guid', hguid', hfound'⟩ := hfinal
  cases hguid.symm.trans hguid'
  obtain ⟨hserver, hraw, -⟩ := foundObject_some_iff.mp hfound
  obtain ⟨hserver', hraw', -⟩ := foundObject_some_iff.mp hfound'
  obtain ⟨object, hobject, hdescribes⟩ := h.entry hserver hraw
  obtain ⟨object', hobject', hdescribes'⟩ := h.entry hserver' hraw'
  have hsame : object.version = object'.version := by
    rw [← hdescribes.version, ← hdescribes'.version, hversion]
  exact ⟨guid, object, hguid, hdescribes.name, fun t hk hk' =>
    h.versions _ t _ guid object object' hk hk' hobject hobject' hsame⟩

theorem Retrieved.mem {version : Bytes} {next : Nat} {entry : Entry} {ranges : List (List Bytes)}
    (h : lib.Retrieved server version guid n entry next ranges)
    (hserver : server n request = some ⟨[entry], []⟩) {name : Bytes}
    (hname : name ∈ ranges.flatten) :
    ∃ k request entry next values last, n ≤ k ∧ k < n + ranges.length ∧
      server k request = some ⟨[entry], []⟩ ∧ lib.Shows version guid entry ∧
      lib.RangeOf entry next values last ∧ name ∈ values := by
  induction h generalizing request with
  | last hshows hrange =>
      rw [List.flatten_singleton] at hname
      exact ⟨_, request, _, _, _, _, Nat.le_refl _, Nat.lt_succ_self _, hserver, hshows, hrange,
        hname⟩
  | more hshows hrange hnext hrest ih =>
      rw [List.length_cons]
      rcases List.mem_append.mp hname with hhere | hlater
      · exact ⟨_, request, _, _, _, _, Nat.le_refl _, by omega, hserver, hshows, hrange, hhere⟩
      · obtain ⟨k, request', entry, next, values, last, hk, hk', hfound⟩ := ih hnext hlater
        exact ⟨k, request', entry, next, values, last, by omega, by omega, hfound⟩

theorem Named.get {guids names : List Bytes} {p : Nat} (h : lib.Named state guids names)
    (hguid : guids[p]? = some guid) :
    ∃ name object, names[p]? = some name ∧ state guid = some object ∧
      lib.distinguishedNameKey name = lib.distinguishedNameKey object.dn := by
  induction h generalizing p with
  | nil => cases hguid
  | cons hhead _ ih =>
      cases p with
      | zero =>
          cases hguid
          obtain ⟨object, hobject, hkey⟩ := hhead
          exact ⟨_, object, rfl, hobject, hkey⟩
      | succ p => exact ih hguid

theorem Named.mem {guids names : List Bytes} {name : Bytes} (h : lib.Named state guids names)
    (hname : name ∈ names) :
    ∃ guid object, guid ∈ guids ∧ state guid = some object ∧
      lib.distinguishedNameKey name = lib.distinguishedNameKey object.dn := by
  induction h with
  | nil => cases hname
  | cons hhead _ ih =>
      rcases List.mem_cons.mp hname with rfl | hname
      · obtain ⟨object, hobject, hkey⟩ := hhead
        exact ⟨_, object, List.mem_cons_self, hobject, hkey⟩
      · obtain ⟨guid, object, hguid, hfound⟩ := ih hname
        exact ⟨guid, object, List.mem_cons_of_mem _ hguid, hfound⟩

/-- As long as the group does not change, the ranges reach every member from the first position
on, under the name it has when its range is read. -/
theorem Retrieved.covers (h : lib.Evolves selects history moment server) {version : Bytes}
    {next : Nat} {entry : Entry} {ranges : List (List Bytes)} {group : DirectoryObject}
    (hranges : lib.Retrieved server version guid n entry next ranges)
    (hserver : server n request = some ⟨[entry], []⟩)
    (hfirst : next = 0 → ascii "member;range=0-999".toList ∈ request.attributes)
    (hgroup : ∀ k, n ≤ k → k < n + ranges.length → history (moment k) guid = some group) {p : Nat}
    {member : Bytes} (hp : next ≤ p) (hmember : group.members[p]? = some member) :
    ∃ k name object, n ≤ k ∧ k < n + ranges.length ∧ name ∈ ranges.flatten ∧
      history (moment k) member = some object ∧
      lib.distinguishedNameKey name = lib.distinguishedNameKey object.dn := by
  induction hranges generalizing request with
  | last hshows hrange =>
      rename_i n entry next values
      obtain ⟨object, hobject, hdescribes⟩ := h.entry hserver hshows.2
      cases (hgroup n (Nat.le_refl _) (Nat.lt_succ_self _)).symm.trans hobject
      obtain ⟨names, hnamed, hparts, habsent⟩ := hdescribes.members
      obtain ⟨-, hall⟩ := hrange.of_parts hparts fun hzero => habsent (hfirst hzero)
      obtain ⟨name, object, hname, hobject', hkey⟩ := hnamed.get hmember
      refine ⟨n, name, object, Nat.le_refl _, Nat.lt_succ_self _, ?_, hobject', hkey⟩
      rw [List.flatten_singleton, hall rfl]
      refine List.mem_of_getElem? (i := p - next) ?_
      rw [List.getElem?_drop, Nat.add_sub_cancel' hp, hname]
  | more hshows hrange hnext hrest ih =>
      rename_i n entry entry' next values rest
      obtain ⟨object, hobject, hdescribes⟩ := h.entry hserver hshows.2
      rw [List.length_cons] at hgroup ⊢
      cases (hgroup n (Nat.le_refl _) (by omega)).symm.trans hobject
      obtain ⟨names, hnamed, hparts, habsent⟩ := hdescribes.members
      obtain ⟨hinitial, -⟩ := hrange.of_parts hparts fun hzero => habsent (hfirst hzero)
      have hpos := List.length_pos_iff.mpr hrange.ne_nil
      by_cases hhere : p < next + values.length
      · obtain ⟨name, object, hname, hobject', hkey⟩ := hnamed.get hmember
        refine ⟨n, name, object, Nat.le_refl _, by omega, ?_, hobject', hkey⟩
        obtain ⟨tail, htail⟩ := hinitial
        have hvalue : (values ++ tail)[p - next]? = values[p - next]? :=
          List.getElem?_append_left (by omega)
        refine List.mem_append_left _ (List.mem_of_getElem? (i := p - next) ?_)
        rw [← hvalue, htail, List.getElem?_drop, Nat.add_sub_cancel' hp, hname]
      · obtain ⟨k, name, object, hk, hk', hname, hfound⟩ := ih hnext (fun hzero => by omega)
          (fun k hk hk' => hgroup k (by omega) (by omega)) (by omega)
        exact ⟨k, name, object, by omega, by omega, List.mem_append_right _ hname, hfound⟩

/-- What a reading of a group says of the directory: the group is not there, or it stays as it
is from the first to the last search, every name is that of a member and every member has its
name among them. -/
theorem Evolves.group (h : lib.Evolves selects history moment server) {id : Bytes} {m : Nat}
    {members : List Bytes} {present : Bool}
    (hread : (lib.readGroup base id).Returns server n (members, present) m) :
    ∃ guid, guidBytes id = .ok guid ∧ n < m ∧
      ((members = [] ∧ m = n + 1 ∧ server n (lib.findRequest base guid groupClass
          [objectGUID, uSNChanged, ascii "member;range=0-999".toList]) = some ⟨[], []⟩) ∨
        ∃ group, (∀ t, moment n ≤ t → t ≤ moment (m - 1) → history t guid = some group) ∧
          (∀ name ∈ members, ∃ k member object, n ≤ k ∧ k < m ∧ member ∈ group.members ∧
            history (moment k) member = some object ∧
            lib.distinguishedNameKey name = lib.distinguishedNameKey object.dn) ∧
          ∀ member ∈ group.members, ∃ k name object, n ≤ k ∧ k < m ∧ name ∈ members ∧
            history (moment k) member = some object ∧
            lib.distinguishedNameKey name = lib.distinguishedNameKey object.dn) := by
  obtain ⟨guid, hguid, ⟨-, hmembers, rfl, hserver⟩ | ⟨-, -, version, entry, ranges, final,
    hserver, hranges, rfl, rfl, hfinal, hshowsFinal⟩⟩ := readGroup_returns hread
  · exact ⟨guid, hguid, Nat.lt_succ_self n, .inl ⟨hmembers, rfl, hserver⟩⟩
  refine ⟨guid, hguid, by omega, .inr ?_⟩
  have hshows : lib.Shows version guid entry := by
    cases hranges with
    | last hshows | more hshows => exact hshows
  obtain ⟨group, hgroup, hdescribes⟩ := h.entry hserver hshows.2
  obtain ⟨group', hgroup', hdescribes'⟩ := h.entry hfinal hshowsFinal.2
  have hversion : group.version = group'.version := by
    rw [← hdescribes.version, ← hdescribes'.version, hshows.1, hshowsFinal.1]
  have hstays : ∀ t, moment n ≤ t → t ≤ moment (n + ranges.length) →
      history t guid = some group :=
    fun t hn hm => h.versions _ t _ guid group group' hn hm hgroup hgroup' hversion
  have hreading : ∀ k, n ≤ k → k < n + ranges.length → history (moment k) guid = some group :=
    fun k hn hm => hstays _ (h.ordered hn) (h.ordered (Nat.le_of_lt hm))
  refine ⟨group, hstays, ?_, ?_⟩
  · intro name hname
    obtain ⟨k, request, entry', next, values, last, hk, hk', hserver', hshows', hrange, hvalue⟩ :=
      hranges.mem hserver hname
    obtain ⟨object, hobject, hentry⟩ := h.entry hserver' hshows'.2
    cases (hreading k hk hk').symm.trans hobject
    obtain ⟨names, hnamed, hparts, -⟩ := hentry.members
    have hmem : name ∈ names := by
      cases hrange with
      | absent => cases hvalue
      | plain hattr hholds | bounded hattr hholds | terminal hattr hholds =>
          obtain ⟨first, stop, marked, hpart⟩ := hparts _ hattr hholds
          rw [hpart.values_eq] at hvalue
          exact List.mem_of_mem_drop (List.mem_of_mem_take hvalue)
    obtain ⟨member, object, hmember, hfound⟩ := hnamed.mem hmem
    exact ⟨k, member, object, hk, by omega, hmember, hfound⟩
  · intro member hmember
    obtain ⟨p, hp⟩ := List.mem_iff_getElem?.mp hmember
    have hasked : ascii "member;range=0-999".toList ∈ (lib.findRequest base guid groupClass
        [objectGUID, uSNChanged, ascii "member;range=0-999".toList]).attributes :=
      List.mem_cons_of_mem _ (List.mem_cons_of_mem _ List.mem_cons_self)
    obtain ⟨k, name, object, hk, hk', hfound⟩ := Retrieved.covers h hranges hserver
      (fun _ => hasked) hreading (Nat.zero_le p) hp
    exact ⟨k, name, object, hk, by omega, hfound⟩

theorem parseUint_numberText {limit : Nat} {number : Option Nat}
    (h : parseUint limit (numberText number) = some n) : number = some n := by
  cases number with
  | none => cases h
  | some n' =>
      rw [numberText, parseUint, decimal_decimalDigits] at h
      exact (Option.filter_eq_some_iff.mp h).1

theorem Describes.eligible {entry : Entry} {now : Int}
    (h : lib.Describes state request guid object entry)
    (hcontrol : userAccountControl ∈ request.attributes)
    (hexpires : accountExpires ∈ request.attributes)
    (heligible : lib.eligible entry now = .ok true) :
    object.NotDisabled ∧ object.NotExpired now := by
  rw [LdapLibrary.eligible, h.control hcontrol, h.expires hexpires] at heligible
  simp only [bind_ok_iff, need_ok_iff] at heligible
  obtain ⟨flags, hflags, heligible⟩ := heligible
  split at heligible
  · rw [pure_ok_iff] at heligible
    cases heligible
  · rename_i hflag
    simp only [bind_ok_iff, need_ok_iff, ensure_ok_iff] at heligible
    obtain ⟨-, -, value, hvalue, heligible⟩ := heligible
    refine ⟨⟨flags, parseUint_numberText hflags, not_not.mp hflag⟩, value,
      parseUint_numberText hvalue, ?_⟩
    split at heligible
    · rename_i hnever
      exact hnever.imp_right .inl
    · split at heligible
      · rw [pure_ok_iff] at heligible
        cases heligible
      · simp only [bind_ok_iff, ensure_ok_iff, pure_ok_iff, decide_eq_true_eq] at heligible
        obtain ⟨-, -, hlater⟩ := heligible
        refine .inr (.inr ?_)
        omega

theorem getElem?_zipIdx_some {α : Type} {l : List α} {i : Nat} {x : α} (h : l[i]? = some x) :
    (l.zipIdx n)[i]? = some (x, n + i) := by
  rw [List.getElem?_zipIdx, h]
  rfl

theorem GroupsRead.ordered (h : lib.Evolves selects history moment server)
    {bindings : List (DirectoryBinding × Nat)} {users : Bytes → Option Bytes}
    (hgroups : lib.GroupsRead server base users n starts bindings k groups) {j l : Nat}
    (hjl : j ≤ l) (hl : l ≤ bindings.length) : starts j ≤ starts l := by
  induction l with
  | zero => rw [Nat.le_zero.mp hjl]
  | succ l ih =>
      rcases Nat.eq_or_lt_of_le hjl with rfl | hlt
      · exact Nat.le_refl _
      · obtain ⟨members, present, ids, hread, -⟩ := hgroups.read l _ (List.getElem?_eq_getElem hl)
        obtain ⟨-, -, hstep, -⟩ := h.group hread
        exact Nat.le_trans (ih (Nat.le_of_lt_succ hlt) (by omega)) (Nat.le_of_lt hstep)

/-- An account that has a name in the reading is there under this name until it is looked up
for the last time. -/
theorem AccountsRead.stays (h : lib.Evolves selects history moment server)
    (haccounts : lib.AccountsRead server base started mapping.identities.zipIdx
      mapping.identities.length reading)
    (hfinal : ∀ i identity, mapping.identities[i]? = some identity → ∃ found,
      lib.Looked server base userClass finalAttributes (n + i) identity.directoryId found ∧
      lib.confirmAccount reading identity.directoryId found = .ok ()) {id : Bytes}
    (hkey : reading.usersByDN key = some id) :
    ∃ i identity guid object, mapping.identities[i]? = some identity ∧
      identity.directoryId = id ∧ guidBytes id = .ok guid ∧
      lib.distinguishedNameKey object.dn = .ok key ∧
      ∀ t, moment i ≤ t → t ≤ moment (n + i) → history t guid = some object := by
  obtain ⟨i, pair, entry, hpair, rfl, hentry, hname, hnames, hversion, hnonempty⟩ :=
    haccounts.byName key id hkey
  rw [List.getElem?_zipIdx] at hpair
  obtain ⟨identity, hidentity, rfl⟩ := Option.map_eq_some_iff.mp hpair
  obtain ⟨found, hlooked, hconfirm⟩ := hfinal i identity hidentity
  obtain ⟨final, rfl, hsame⟩ := confirmAccount_ok hconfirm hnonempty
  obtain ⟨guid, object, hguid, hdn, hstays⟩ := h.unchanged hentry hlooked (hsame.trans hversion)
  exact ⟨i, identity, guid, object, hidentity, rfl, hguid, hdn ▸ nameKey_ok_iff.mp hname, hstays⟩

theorem AccountsRead.named (h : lib.Evolves selects history moment server)
    (haccounts : lib.AccountsRead server base started mapping.identities.zipIdx
      mapping.identities.length reading) {i : Nat} {identity : DirectoryIdentity}
    (hidentity : mapping.identities[i]? = some identity)
    (hguid : guidBytes identity.directoryId = .ok guid)
    (hobject : history (moment i) guid = some object)
    (hselects : selects (lib.findRequest base guid userClass firstAttributes) guid object) :
    ∃ key, lib.distinguishedNameKey object.dn = .ok key ∧
      reading.usersByDN key = some identity.directoryId := by
  have hpair := getElem?_zipIdx_some (n := 0) hidentity
  obtain ⟨found, hlooked⟩ := haccounts.looked i _ hpair
  obtain ⟨guid', hguid', hfound⟩ := hlooked
  cases hguid.symm.trans hguid'
  cases found with
  | none => exact absurd hselects (h.absent (foundObject_none hfound) hobject)
  | some entry =>
      obtain ⟨hserver, hraw, -⟩ := foundObject_some_iff.mp hfound
      obtain ⟨object', hobject', hdescribes⟩ := h.entry hserver hraw
      cases hobject.symm.trans hobject'
      obtain ⟨key, hkey, huser⟩ := haccounts.recorded i _ entry hpair ⟨guid, hguid, hfound⟩
      exact ⟨key, hdescribes.name ▸ nameKey_ok_iff.mp hkey, huser⟩

end Times

/-- If a reading of a directory returns a snapshot, then its searches are one for each account,
those for the groups in their order, and one for each account again, and:
an account that is listed for a group is one object from its first to its last lookup and a
member of the group at the last search of the group;
an account object that stays as it is during the whole reading and is a member of a group while
the group is read is listed for it;
and an account is reported as enabled only if its object is, and has not expired before. -/
theorem readSnapshot_faithful {T : Type} [LinearOrder T] {lib : LdapLibrary}
    {selects : SearchRequest → Bytes → DirectoryObject → Prop} {history : T → DirectoryState}
    {moment : Nat → T} {digest : DirectoryMapping → Except ReadError Bytes} {epoch : Int}
    {context : Nat → Option String} {snapshot : DirectorySnapshot} {m : Nat}
    (hevolves : lib.Evolves selects history moment server)
    (hvalid : validateMapping mapping = .ok ())
    (h : (lib.readSnapshot base mapping digest epoch started context).Returns server 0 snapshot
      m) :
    ∃ starts : Nat → Nat, starts 0 = mapping.identities.length ∧
      m = starts mapping.bindings.length + mapping.identities.length ∧
      (∀ j binding, mapping.bindings[j]? = some binding → ∃ members present directoryIds,
        (lib.readGroup base binding.groupId).Returns server (starts j) (members, present)
          (starts (j + 1)) ∧
        snapshot.groups[j]? = some ⟨binding.groupId, present, directoryIds⟩) ∧
      (∀ j binding observed id, mapping.bindings[j]? = some binding →
        snapshot.groups[j]? = some observed → id ∈ observed.directoryIds →
        ∃ i identity guid object groupGuid group, mapping.identities[i]? = some identity ∧
          identity.directoryId = id ∧ guidBytes id = .ok guid ∧
          guidBytes binding.groupId = .ok groupGuid ∧
          (∀ t, moment i ≤ t → t ≤ moment (starts mapping.bindings.length + i) →
            history t guid = some object) ∧
          history (moment (starts (j + 1) - 1)) groupGuid = some group ∧
          guid ∈ group.members) ∧
      (∀ (i : Nat) (identity : DirectoryIdentity) (guid : Bytes) (object : DirectoryObject)
        (j : Nat) (binding : DirectoryBinding) (observed : DirectoryGroupObservation)
        (groupGuid : Bytes) (group : DirectoryObject) (t : T),
        mapping.identities[i]? = some identity → guidBytes identity.directoryId = .ok guid →
        (∀ s, moment 0 ≤ s → s ≤ moment (m - 1) → history s guid = some object) →
        selects (lib.findRequest base guid userClass firstAttributes) guid object →
        mapping.bindings[j]? = some binding → snapshot.groups[j]? = some observed →
        guidBytes binding.groupId = .ok groupGuid →
        moment (starts j) ≤ t → t ≤ moment (starts (j + 1) - 1) →
        history t groupGuid = some group →
        selects (lib.findRequest base groupGuid groupClass
          [objectGUID, uSNChanged, ascii "member;range=0-999".toList]) groupGuid group →
        guid ∈ group.members → identity.directoryId ∈ observed.directoryIds) ∧
      ∀ account ∈ snapshot.accounts, account.enabled = true →
        ∃ i identity guid object, mapping.identities[i]? = some identity ∧
          identity.directoryId = account.directoryId ∧ guidBytes account.directoryId = .ok guid ∧
          history (moment i) guid = some object ∧ object.NotDisabled ∧
          object.NotExpired started := by
  obtain ⟨reading, starts, haccounts, hgroups, hfinal, hsnapshot, rfl⟩ :=
    readSnapshot_returns hvalid h
  have hordered : ∀ {j l}, j ≤ l → l ≤ mapping.bindings.length → starts j ≤ starts l :=
    fun hjl hl => hgroups.ordered hevolves hjl (by rwa [List.length_zipIdx])
  refine ⟨starts, hgroups.first, rfl, ?_, ?_, ?_, ?_⟩
  · intro j binding hbinding
    obtain ⟨members, present, ids, hread, hobserved, -⟩ :=
      hgroups.read j _ (getElem?_zipIdx_some hbinding)
    exact ⟨members, present, ids, hread, hobserved⟩
  · intro j binding observed id hbinding hobserved hid
    have hj := (List.getElem?_eq_some_iff.mp hbinding).1
    obtain ⟨members, present, ids, hread, hobserved', hids⟩ :=
      hgroups.read j _ (getElem?_zipIdx_some hbinding)
    cases hobserved.symm.trans hobserved'
    obtain ⟨name, hname, key, hkey, huser, -⟩ := (hids id).mp hid
    obtain ⟨i, identity, guid, object, hidentity, hdirectory, hguid, hdn, hstays⟩ :=
      haccounts.stays hevolves hfinal huser
    obtain ⟨groupGuid, hgroupGuid, hlt, ⟨hnone, -⟩ | ⟨group, hgroup, hnames, -⟩⟩ :=
      hevolves.group hread
    · rw [hnone] at hname
      cases hname
    · obtain ⟨k, member, object', hk, hk', hmember, hobject', hsame⟩ := hnames name hname
      have hi := (List.getElem?_eq_some_iff.mp hidentity).1
      have hstart : mapping.identities.length ≤ starts j :=
        hgroups.first ▸ hordered (Nat.zero_le j) (Nat.le_of_lt hj)
      have hend : starts (j + 1) ≤ starts mapping.bindings.length := hordered hj (Nat.le_refl _)
      -- While the group is read, the account has the name that its member is reported under.
      have hthen := hstays (moment k) (hevolves.ordered (by omega)) (hevolves.ordered (by omega))
      rw [nameKey_ok_iff.mp hkey] at hsame
      obtain rfl := hevolves.names _ _ _ _ _ key hthen hobject' hdn hsame.symm
      exact ⟨i, identity, guid, object, groupGuid, group, hidentity, hdirectory, hguid,
        hgroupGuid, hstays, hgroup _ (hevolves.ordered (by omega)) le_rfl, hmember⟩
  · intro i identity guid object j binding observed groupGuid group t hidentity hguid hstays
      hselects hbinding hobserved hgroupGuid hstart hend hgroup hselectsGroup hmember
    have hi := (List.getElem?_eq_some_iff.mp hidentity).1
    have hj := (List.getElem?_eq_some_iff.mp hbinding).1
    obtain ⟨members, present, ids, hread, hobserved', hids⟩ :=
      hgroups.read j _ (getElem?_zipIdx_some hbinding)
    cases hobserved.symm.trans hobserved'
    have hall : ∀ k, k < starts mapping.bindings.length + mapping.identities.length →
        history (moment k) guid = some object :=
      fun k hk => hstays _ (hevolves.ordered (Nat.zero_le k)) (hevolves.ordered (by omega))
    obtain ⟨key, hdn, huser⟩ :=
      haccounts.named hevolves hidentity hguid (hall i (by omega)) hselects
    obtain ⟨groupGuid', hgroupGuid', hlt, ⟨-, hnext, hserver⟩ | ⟨group', hgroup', -, hcovered⟩⟩ :=
      hevolves.group hread
    · cases hgroupGuid.symm.trans hgroupGuid'
      obtain rfl : t = moment (starts j) := by
        refine le_antisymm ?_ hstart
        rwa [hnext, Nat.add_sub_cancel] at hend
      exact absurd hselectsGroup (hevolves.absent hserver hgroup)
    · cases hgroupGuid.symm.trans hgroupGuid'
      cases hgroup.symm.trans (hgroup' t hstart hend)
      obtain ⟨k, name, object', hk, hk', hname, hobject', hsame⟩ := hcovered guid hmember
      have hlast : starts (j + 1) ≤ starts mapping.bindings.length := hordered hj (Nat.le_refl _)
      cases (hall k (by omega)).symm.trans hobject'
      refine (hids _).mpr ⟨name, hname, key, nameKey_ok_iff.mpr (hsame.trans hdn), huser, ?_⟩
      rintro hnil
      rw [hnil] at hguid
      cases hguid
  · intro account haccount henabled
    rw [hsnapshot] at haccount
    obtain ⟨i, pair, entry, hpair, hdirectory, hlooked, heligible⟩ :=
      haccounts.enabled account haccount henabled
    rw [List.getElem?_zipIdx] at hpair
    obtain ⟨identity, hidentity, rfl⟩ := Option.map_eq_some_iff.mp hpair
    obtain ⟨guid, hguid, hfound⟩ := hlooked
    obtain ⟨hserver, hraw, -⟩ := foundObject_some_iff.mp hfound
    obtain ⟨object, hobject, hdescribes⟩ := hevolves.entry hserver hraw
    have hasked : userAccountControl ∈ firstAttributes ∧ accountExpires ∈ firstAttributes := by
      decide
    obtain ⟨hcontrol, hexpires⟩ := hdescribes.eligible hasked.1 hasked.2 heligible
    exact ⟨i, identity, guid, object, hidentity, hdirectory, hguid, hobject, hcontrol, hexpires⟩

end LdapLibrary

namespace Sample

def userID : Bytes := ascii "00112233-4455-6677-8899-aabbccddeeff".toList

def userGUID : Bytes :=
  [0x33, 0x22, 0x11, 0x00, 0x55, 0x44, 0x77, 0x66, 0x88, 0x99, 0xaa, 0xbb, 0xcc, 0xdd, 0xee, 0xff]

def userDN : Bytes := ascii "CN=Alice,DC=test".toList

def mappingOfOne : DirectoryMapping where
  sourceId := ascii "corporate".toList
  revision := 1
  namespaces := [ascii "22222222-2222-4222-8222-222222222222".toList]
  approvedTransitions := []
  bindings := [⟨groupID, ascii "22222222-2222-4222-8222-222222222222".toList,
    ascii "viewer".toList⟩]
  identities := [⟨userID, ascii "33333333-3333-4333-8333-333333333333".toList,
    ascii ['i'], ascii ['s'], [], []⟩]

def alice : DirectoryObject := ⟨userDN, ascii ['8'], some 512, some 0, []⟩

def roleGroup : DirectoryObject := ⟨groupDN, ascii ['4', '2'], none, none, [userGUID]⟩

def directoryOfTwo : DirectoryState := fun guid =>
  if guid = userGUID then some alice else if guid = groupGUID then some roleGroup else none

def aliceEntry : Entry :=
  ⟨userDN, [⟨objectGUID, [userGUID]⟩, ⟨uSNChanged, [ascii ['8']]⟩,
    ⟨userAccountControl, [ascii "512".toList]⟩, ⟨accountExpires, [ascii ['0']]⟩]⟩

def roleEntry : Entry := groupEntry "member;range=0-*".toList [userDN]

def userFilter : Bytes :=
  (plainLibrary.findRequest groupDN userGUID userClass []).filter

def groupFilter : Bytes :=
  (plainLibrary.findRequest groupDN groupGUID groupClass []).filter

def answerOfTwo (request : SearchRequest) : Response :=
  if request.filter = userFilter then some ⟨[aliceEntry], []⟩
  else if request.filter = groupFilter ∨ request = LdapLibrary.rangeRequest groupDN 0 then
    some ⟨[roleEntry], []⟩
  else none

def selectsOfTwo (request : SearchRequest) (guid : Bytes) (_ : DirectoryObject) : Prop :=
  request.filter = userFilter ∧ guid = userGUID ∨
    request.filter = groupFilter ∧ guid = groupGUID

theorem describes_aliceEntry (request : SearchRequest) :
    plainLibrary.Describes directoryOfTwo request userGUID alice aliceEntry where
  name := rfl
  identifier := rfl
  version := rfl
  control _ := rfl
  expires _ := rfl
  members := by
    have hnone : ∀ attr ∈ aliceEntry.attributes, plainLibrary.holdsMembers attr = false := by decide
    refine ⟨[], .nil, fun attr hattr hholds => ?_, fun _ _ => rfl⟩
    rw [hnone attr hattr] at hholds
    cases hholds

theorem describes_roleEntry (request : SearchRequest) :
    plainLibrary.Describes directoryOfTwo request groupGUID roleGroup roleEntry where
  name := rfl
  identifier := rfl
  version := rfl
  control _ := rfl
  expires _ := rfl
  members := by
    have honly : ∀ attr ∈ roleEntry.attributes, plainLibrary.holdsMembers attr = true →
        attr = ⟨ascii "member;range=0-*".toList, [userDN]⟩ := by decide
    have hsome : ¬∀ attr ∈ roleEntry.attributes, plainLibrary.holdsMembers attr = false := by decide
    refine ⟨[userDN], .cons ⟨alice, rfl, rfl⟩ .nil, ?_, fun _ h => absurd h hsome⟩
    intro attr hattr hholds
    rw [honly attr hattr hholds]
    exact ⟨0, 1, true, .terminal rfl rfl⟩

theorem evolves_directoryOfTwo :
    plainLibrary.Evolves selectsOfTwo (fun _ : Nat => directoryOfTwo) id
      fun _ => answerOfTwo where
  ordered := monotone_id
  answers k request := by
    have huser : directoryOfTwo userGUID = some alice := rfl
    have hgroup : directoryOfTwo groupGUID = some roleGroup := rfl
    have hfilters : userFilter ≠ groupFilter := by decide
    rw [answerOfTwo]
    constructor
    · intro result entry hresult hentry
      split at hresult
      · cases hresult
        obtain rfl := List.mem_singleton.mp hentry
        exact ⟨userGUID, alice, huser, describes_aliceEntry request⟩
      · split at hresult
        · cases hresult
          obtain rfl := List.mem_singleton.mp hentry
          exact ⟨groupGUID, roleGroup, hgroup, describes_roleEntry request⟩
        · cases hresult
    · rintro result guid object hresult - hobject (⟨hfilter, rfl⟩ | ⟨hfilter, rfl⟩)
      · rw [if_pos hfilter] at hresult
        cases hresult
        cases huser.symm.trans hobject
        exact ⟨aliceEntry, List.mem_singleton.mpr rfl, describes_aliceEntry request⟩
      · rw [if_neg (hfilter ▸ hfilters.symm), if_pos (.inl hfilter)] at hresult
        cases hresult
        cases hgroup.symm.trans hobject
        exact ⟨roleEntry, List.mem_singleton.mpr rfl, describes_roleEntry request⟩
  versions _ _ _ _ _ _ _ _ hobject _ _ := hobject
  names _ guid guid' object object' key hobject hobject' hkey hkey' := by
    have hkeys : plainLibrary.distinguishedNameKey userDN ≠
        plainLibrary.distinguishedNameKey groupDN := by decide
    have hcases : ∀ guid object, directoryOfTwo guid = some object →
        guid = userGUID ∧ object = alice ∨ guid = groupGUID ∧ object = roleGroup := by
      intro guid object h
      rw [directoryOfTwo] at h
      split at h
      · cases h
        exact .inl ⟨‹_›, rfl⟩
      · split at h
        · cases h
          exact .inr ⟨‹_›, rfl⟩
        · cases h
    rcases hcases guid object hobject with ⟨rfl, rfl⟩ | ⟨rfl, rfl⟩
    · rcases hcases guid' object' hobject' with ⟨rfl, rfl⟩ | ⟨rfl, rfl⟩
      · rfl
      · exact absurd (hkey.trans hkey'.symm) hkeys
    · rcases hcases guid' object' hobject' with ⟨rfl, rfl⟩ | ⟨rfl, rfl⟩
      · exact absurd (hkey'.trans hkey.symm) hkeys
      · rfl

theorem serves_answerOfTwo :
    plainLibrary.Serves (fun _ => answerOfTwo) groupDN groupGUID groupDN (ascii ['4', '2'])
      [userDN] := by
  have hrange : plainLibrary.AnswersRange [userDN] 0 roleEntry :=
    ⟨⟨ascii "member;range=0-*".toList, [userDN]⟩, 1, rfl, .terminal rfl rfl, by decide, by decide⟩
  refine ⟨fun _ => ⟨roleEntry, rfl, rfl, by decide, hrange⟩, ?_,
    fun _ => ⟨roleEntry, rfl, rfl, by decide⟩⟩
  intro _ next hnext
  obtain rfl : next = 0 := Nat.lt_one_iff.mp hnext
  exact ⟨roleEntry, rfl, rfl, by decide, hrange⟩

def snapshotOfTwo : DirectorySnapshot where
  sourceId := ascii "corporate".toList
  revision := 1
  digest := []
  recoveryEpoch := 3
  verifiedAt := 0
  accounts := [⟨userID, true, true⟩]
  groups := [⟨groupID, true, [userID]⟩]
  ignoredDirectMembers := 0

section Reading

variable (hkey : plainLibrary.nameKey userDN = .ok key)

def readingOfTwo (key : Bytes) : AccountReading where
  usersByDN := Function.update (fun _ => none) key (some userID)
  userVersions := Function.update (fun _ => []) userID (ascii ['8'])
  userNames := Function.update (fun _ => []) userID key
  accounts := [⟨userID, true, true⟩]

theorem findObject_alice (attributes : List Bytes) (k : Nat) :
    (plainLibrary.findObject groupDN userID userClass attributes).Returns (fun _ => answerOfTwo) k
      (some aliceEntry) (k + 1) := by
  have huser : guidBytes userID = .ok userGUID := rfl
  have hanswer : answerOfTwo (plainLibrary.findRequest groupDN userGUID userClass attributes) =
      some ⟨[aliceEntry], []⟩ := if_pos rfl
  exact LdapLibrary.findObject_returns.mpr ⟨userGUID, huser, rfl,
    LdapLibrary.foundObject_some_iff.mpr ⟨hanswer, rfl, _, _, rfl, rfl, .inl rfl⟩⟩

include hkey

theorem recordAccount_alice :
    plainLibrary.recordAccount 0 ⟨fun _ => none, fun _ => [], fun _ => [], []⟩ userID
      (some aliceEntry) = .ok (readingOfTwo key) := by
  have hversion : parseUint 18446744073709551616
      (plainLibrary.attributeValue aliceEntry uSNChanged) ≠ none := by decide
  have heligible : plainLibrary.eligible aliceEntry 0 = .ok true := by decide
  have hname : plainLibrary.nameKey aliceEntry.dn = .ok key := hkey
  rw [LdapLibrary.recordAccount]
  dsimp only
  rw [ensure_of_true hversion, ok_bind, heligible, ok_bind, hname, ok_bind, ensure_of_true rfl,
    ok_bind]
  rfl

theorem recordGroup_role :
    plainLibrary.recordGroup (readingOfTwo key).usersByDN ⟨0, 0, []⟩ groupID [userDN] true =
      .ok ⟨1, 0, [⟨groupID, true, [userID]⟩]⟩ := by
  have hmatch : plainLibrary.matchMember (readingOfTwo key).usersByDN ([], 0) userDN =
      .ok ([userID], 0) := by
    have huser : (readingOfTwo key).usersByDN key = some userID := by simp [readingOfTwo]
    rw [LdapLibrary.matchMember, hkey, ok_bind, huser]
    rfl
  rw [LdapLibrary.recordGroup, ensure_of_true (by decide), ok_bind, List.foldlM_cons, hmatch]
  rfl

theorem confirmAccount_alice :
    plainLibrary.confirmAccount (readingOfTwo key) userID (some aliceEntry) = .ok () := by
  have hname : plainLibrary.nameKey aliceEntry.dn = .ok key := hkey
  have hversion : plainLibrary.attributeValue aliceEntry uSNChanged = ascii ['8'] := rfl
  have hnames : (readingOfTwo key).userNames userID = key := by simp [readingOfTwo]
  have hversions : (readingOfTwo key).userVersions userID = ascii ['8'] := by simp [readingOfTwo]
  rw [LdapLibrary.confirmAccount, hname, hversion, hnames, hversions]
  exact (bind_ok_iff _ _ _).mpr ⟨key, rfl, ensure_of_true ⟨rfl, rfl⟩ _⟩

end Reading

theorem readSnapshot_answerOfTwo : ∃ m, (plainLibrary.readSnapshot groupDN mappingOfOne
    (fun _ => .ok []) 3 0 fun _ => none).Returns (fun _ => answerOfTwo) 0 snapshotOfTwo m := by
  obtain ⟨key, hkey⟩ : ∃ key, plainLibrary.nameKey userDN = .ok key := ⟨_, rfl⟩
  have hgroup : guidBytes groupID = .ok groupGUID := rfl
  obtain ⟨m, hm⟩ := serves_answerOfTwo.readGroup hgroup ⟨_, _, rfl, rfl, .inl rfl⟩
    (by decide) (by decide) 1
  refine ⟨m + 1, ?_⟩
  simp only [LdapLibrary.readSnapshot, mappingOfOne, List.zipIdx_cons, List.zipIdx_nil,
    List.foldlM_cons, List.foldlM_nil, LdapLibrary.readAccount, LdapLibrary.readBinding,
    LdapLibrary.verifyAccount, Dialogue.returns_bind, Dialogue.returns_ofExcept,
    Dialogue.returns_pure, checkContext, true_and]
  refine ⟨[], 0, ⟨rfl, rfl⟩, readingOfTwo key, 1, ?_, ⟨1, 0, [⟨groupID, true, [userID]⟩]⟩, m, ?_,
    (), m + 1, ?_, ?_⟩
  · exact ⟨_, 1, ⟨(), 0, rfl, some aliceEntry, 1, findObject_alice _ 0, recordAccount_alice hkey,
      rfl⟩, rfl, rfl⟩
  · exact ⟨_, m, ⟨(), 1, rfl, ([userDN], true), m, hm, recordGroup_role hkey, rfl⟩, rfl, rfl⟩
  · exact ⟨(), m + 1, ⟨(), m, rfl, some aliceEntry, m + 1, findObject_alice _ m,
      confirmAccount_alice hkey, rfl⟩, rfl⟩
  · exact ⟨(), m + 1, rfl, rfl, rfl⟩

end Sample

/-- The user is listed for the group, and is a member of it. -/
theorem readSnapshot_faithful_member :
    ∃ group, Sample.directoryOfTwo Sample.groupGUID = some group ∧
      Sample.userGUID ∈ group.members := by
  obtain ⟨m, hm⟩ := Sample.readSnapshot_answerOfTwo
  obtain ⟨starts, -, -, -, hlisted, -⟩ := LdapLibrary.readSnapshot_faithful
    Sample.evolves_directoryOfTwo rfl hm
  obtain ⟨i, identity, guid, object, groupGuid, group, -, -, hguid, hgroupGuid, -, hgroup,
    hmember⟩ := hlisted 0 _ _ Sample.userID rfl rfl (List.mem_singleton.mpr rfl)
  have huser : guidBytes Sample.userID = .ok Sample.userGUID := rfl
  have hrole : guidBytes Sample.groupID = .ok Sample.groupGUID := rfl
  cases huser.symm.trans hguid
  cases hrole.symm.trans hgroupGuid
  exact ⟨group, hgroup, hmember⟩

end JobmanControl.Directory
