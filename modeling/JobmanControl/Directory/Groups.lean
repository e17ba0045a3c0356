import JobmanControl.Directory.Ranges

/-!
The members of a group. The reader asks for the next range until one is marked as the last, and
at the end looks the group up once more. Whatever the server answers, the reader asks a bounded
number of times and returns ranges that follow each other, all of one object in one version.
A server that answers with parts of an unchanged group gets all of its members across.
-/

namespace JobmanControl.Directory

open Relational

namespace LdapLibrary

variable (lib : LdapLibrary)

/-- The search for the thousand members from a position on, at the name of the entry before. -/
def rangeRequest (dn : Bytes) (next : Nat) : SearchRequest where
  base := dn
  scope := .baseObject
  sizeLimit := 1
  timeLimit := 5
  filter := ascii "(objectClass=group)".toList
  attributes := [objectGUID, uSNChanged,
    rangeName (decimalDigits next) (decimalDigits (next + 999))]

/-- The entry of the next range, if it is still the same version of the same object. -/
def nextEntry (version guid : Bytes) (response : Response) : Except ReadError Entry := do
  let result ← need response (.invalid "directory group range query is incomplete")
  ensure (result.referrals = [] ∧ result.entries.length = 1)
    (.invalid "directory group range query is incomplete")
  let entry ← need result.entries[0]? .outOfRange
  ensure (lib.attributeValue entry uSNChanged = version ∧
      lib.rawAttributeValue entry objectGUID = guid)
    (.invalid "directory group changed during range retrieval")
  pure entry

/-- The ranges from an entry on. Each of them but the last has a member. -/
def readRanges (version guid : Bytes) (members : List Bytes) (next : Nat) (entry : Entry) :
    Search (List Bytes) :=
  match _hrange : lib.memberRange entry next with
  | .error error => .fail error
  | .ok (values, last) =>
      if _hbound : maximumDirectMembers < (members ++ values).length then
        .fail (.invalid "directory group exceeds direct membership bound")
      else if _hlast : last = true then .done (members ++ values)
      else
        .ask (rangeRequest entry.dn (next + values.length)) fun response =>
          match lib.nextEntry version guid response with
          | .error error => .fail error
          | .ok entry => readRanges version guid (members ++ values) (next + values.length) entry
termination_by maximumDirectMembers - members.length
decreasing_by
  have hne : values ≠ [] := by
    cases last with
    | true => exact absurd rfl _hlast
    | false => exact (memberRange_ok _hrange).ne_nil
  have hpos := List.length_pos_iff.mpr hne
  simp only [List.length_append] at _hbound ⊢
  omega

def changedDuringVerification : ReadError → ReadError
  | .invalid _ => .invalid "directory group changed during verification"
  | .outOfRange => .outOfRange

/-- The direct members of a group, and whether it exists. -/
def readGroup (base id : Bytes) : Search (List Bytes × Bool) := do
  let found ← lib.findObject base id groupClass
    [objectGUID, uSNChanged, ascii "member;range=0-999".toList]
  match found with
  | none => pure ([], false)
  | some entry =>
      let version := lib.attributeValue entry uSNChanged
      if parseUint 18446744073709551616 version = none then
        .fail (.invalid "directory group version is missing")
      else
        let members ← lib.readRanges version (lib.rawAttributeValue entry objectGUID) [] 0 entry
        let final ← (lib.findObject base id groupClass [objectGUID, uSNChanged]).mapError
          changedDuringVerification
        match final with
        | none => .fail (.invalid "directory group changed during verification")
        | some final =>
            if lib.attributeValue final uSNChanged = version then pure (members, true)
            else .fail (.invalid "directory group changed during verification")

/-- The entry is of this object in this version. -/
def Shows (version guid : Bytes) (entry : Entry) : Prop :=
  lib.attributeValue entry uSNChanged = version ∧ lib.rawAttributeValue entry objectGUID = guid

instance (version guid : Bytes) (entry : Entry) : Decidable (lib.Shows version guid entry) :=
  inferInstanceAs (Decidable (_ ∧ _))

/-- Ranges that follow each other from a position on. The first is read from an entry that was
the answer to search `n`, each other one from the answer to the search after it, and all
entries show one version of one object. -/
inductive Retrieved (server : Nat → SearchRequest → Response) (version guid : Bytes) :
    Nat → Entry → Nat → List (List Bytes) → Prop
  | last {n : Nat} {entry : Entry} {next : Nat} {values : List Bytes} :
      lib.Shows version guid entry → lib.RangeOf entry next values true →
      Retrieved server version guid n entry next [values]
  | more {n : Nat} {entry entry' : Entry} {next : Nat} {values : List Bytes}
      {rest : List (List Bytes)} :
      lib.Shows version guid entry → lib.RangeOf entry next values false →
      server (n + 1) (rangeRequest entry.dn (next + values.length)) = some ⟨[entry'], []⟩ →
      Retrieved server version guid (n + 1) entry' (next + values.length) rest →
      Retrieved server version guid n entry next (values :: rest)

variable {lib}

variable {server : Nat → SearchRequest → Response} {base id version guid : Bytes}
  {members : List Bytes} {next n m : Nat} {entry : Entry}

theorem nextEntry_ok_iff {response : Response} :
    lib.nextEntry version guid response = .ok entry ↔
      response = some ⟨[entry], []⟩ ∧ lib.Shows version guid entry := by
  constructor
  · intro h
    simp only [nextEntry, bind_ok_iff, need_ok_iff, ensure_ok_iff, pure_ok_iff] at h
    obtain ⟨⟨entries, referrals⟩, rfl, -, ⟨rfl, hlength⟩, entry', hentry, -, hshows, rfl⟩ := h
    obtain ⟨entry'', rfl⟩ := List.length_eq_one_iff.mp hlength
    cases hentry
    exact ⟨rfl, hshows⟩
  · rintro ⟨rfl, hshows⟩
    have hfirst : [entry][0]? = some entry := rfl
    have hversion : lib.attributeValue entry uSNChanged = version ∧
        lib.rawAttributeValue entry objectGUID = guid := hshows
    rw [nextEntry, need_of_eq_some rfl, ok_bind, ensure_of_true ⟨rfl, rfl⟩, ok_bind]
    dsimp only
    rw [need_of_eq_some hfirst, ok_bind, ensure_of_true hversion, ok_bind]
    rfl

theorem nextEntry_inRange (version guid : Bytes) (response : Response) :
    lib.nextEntry version guid response ≠ .error .outOfRange := by
  intro h
  simp only [nextEntry, bind_error_iff, need_error_iff, need_ok_iff, ensure_error_iff,
    ensure_ok_iff, pure_error_iff, reduceCtorEq, and_false, and_true, false_or, or_false,
    exists_false, List.getElem?_eq_none_iff] at h
  obtain ⟨result, -, -, ⟨-, hlength⟩, h⟩ := h
  omega

variable {values : List Bytes} {last : Bool}

theorem readRanges_error {error : ReadError} (h : lib.memberRange entry next = .error error) :
    lib.readRanges version guid members next entry = .fail error := by
  rw [readRanges]
  split
  · rename_i herror
    cases herror.symm.trans h
    rfl
  · rename_i hok
    cases hok.symm.trans h

theorem readRanges_ok (h : lib.memberRange entry next = .ok (values, last)) :
    lib.readRanges version guid members next entry =
      if maximumDirectMembers < (members ++ values).length then
        .fail (.invalid "directory group exceeds direct membership bound")
      else if last = true then .done (members ++ values)
      else
        .question (rangeRequest entry.dn (next + values.length)) >>= fun response =>
          .ofExcept (lib.nextEntry version guid response) >>= fun entry =>
            lib.readRanges version guid (members ++ values) (next + values.length) entry := by
  rw [readRanges]
  split
  · rename_i herror
    cases herror.symm.trans h
  · rename_i values' last' hok
    cases hok.symm.trans h
    by_cases hbound : maximumDirectMembers < (members ++ values).length
    · rw [dif_pos hbound, if_pos hbound]
    · rw [dif_neg hbound, if_neg hbound]
      by_cases hlast : last = true
      · rw [dif_pos hlast, if_pos hlast]
      · rw [dif_neg hlast, if_neg hlast]
        refine congrArg (Dialogue.ask _) (funext fun response => ?_)
        change _ = Dialogue.ofExcept (lib.nextEntry version guid response) >>= _
        cases lib.nextEntry version guid response <;> rfl

theorem readRanges_induction (lib : LdapLibrary) {P : List Bytes → Nat → Entry → Prop}
    (step : ∀ members next entry,
      (∀ values, lib.memberRange entry next = .ok (values, false) →
        (members ++ values).length ≤ maximumDirectMembers → values ≠ [] →
        ∀ entry', P (members ++ values) (next + values.length) entry') → P members next entry)
    (members : List Bytes) (next : Nat) (entry : Entry) : P members next entry := by
  induction hsize : maximumDirectMembers - members.length using Nat.strongRecOn
    generalizing members next entry with
  | ind size ih =>
      refine step members next entry fun values hrange hbound hne entry' => ?_
      refine ih _ ?_ (members ++ values) _ entry' rfl
      have hpos := List.length_pos_iff.mpr hne
      rw [List.length_append] at hbound ⊢
      omega

theorem readRanges_within (members : List Bytes) (next : Nat) (entry : Entry) :
    (lib.readRanges version guid members next entry).Within
      (maximumDirectMembers - members.length) := by
  induction members, next, entry using readRanges_induction lib with
  | step members next entry ih =>
      cases hrange : lib.memberRange entry next with
      | error error =>
          rw [readRanges_error hrange]
          exact Dialogue.within_fail _ _
      | ok range =>
          obtain ⟨values, last⟩ := range
          rw [readRanges_ok hrange]
          by_cases hbound : maximumDirectMembers < (members ++ values).length
          · rw [if_pos hbound]
            exact Dialogue.within_fail _ _
          · rw [if_neg hbound]
            cases last with
            | true => exact Dialogue.within_done _ _
            | false =>
                have hne := (memberRange_ok hrange).ne_nil
                have hpos := List.length_pos_iff.mpr hne
                have hrest := fun entry' => ih values hrange (Nat.le_of_not_lt hbound) hne entry'
                refine ((Dialogue.within_question _).bind fun response =>
                  (Dialogue.within_ofExcept _ 0).bind hrest).mono ?_
                rw [List.length_append] at hbound ⊢
                omega

theorem readRanges_inRange (members : List Bytes) (next : Nat) (entry : Entry) :
    ¬(lib.readRanges version guid members next entry).Fails server n .outOfRange := by
  induction members, next, entry using readRanges_induction lib generalizing n with
  | step members next entry ih =>
      cases hrange : lib.memberRange entry next with
      | error error =>
          rw [readRanges_error hrange, Dialogue.fails_fail]
          rintro rfl
          exact memberRange_inRange entry next hrange
      | ok range =>
          obtain ⟨values, last⟩ := range
          rw [readRanges_ok hrange]
          by_cases hbound : maximumDirectMembers < (members ++ values).length
          · rw [if_pos hbound, Dialogue.fails_fail]
            exact fun h => by cases h
          · rw [if_neg hbound]
            cases last with
            | true => exact Dialogue.fails_done
            | false =>
                simp only [Bool.false_eq_true, if_false, Dialogue.fails_bind,
                  Dialogue.fails_question, Dialogue.fails_ofExcept, false_or]
                rintro ⟨response, -, -, h | ⟨entry', k, -, h⟩⟩
                · exact nextEntry_inRange version guid response h
                · exact ih values hrange (Nat.le_of_not_lt hbound) (memberRange_ok hrange).ne_nil
                    entry' h

theorem readRanges_returns {result : List Bytes} (hshows : lib.Shows version guid entry)
    (h : (lib.readRanges version guid members next entry).Returns server (n + 1) result m) :
    ∃ ranges, lib.Retrieved server version guid n entry next ranges ∧
      result = members ++ ranges.flatten ∧ result.length ≤ maximumDirectMembers ∧
      m = n + ranges.length := by
  induction members, next, entry using readRanges_induction lib generalizing n with
  | step members next entry ih =>
      cases hrange : lib.memberRange entry next with
      | error error =>
          rw [readRanges_error hrange] at h
          exact absurd h Dialogue.returns_fail
      | ok range =>
          obtain ⟨values, last⟩ := range
          rw [readRanges_ok hrange] at h
          by_cases hbound : maximumDirectMembers < (members ++ values).length
          · rw [if_pos hbound] at h
            exact absurd h Dialogue.returns_fail
          · rw [if_neg hbound] at h
            cases last with
            | true =>
                obtain ⟨rfl, rfl⟩ := Dialogue.returns_done.mp h
                refine ⟨[values], .last hshows (memberRange_ok hrange), ?_,
                  Nat.le_of_not_lt hbound, rfl⟩
                rw [List.flatten_singleton]
            | false =>
                have hof := memberRange_ok hrange
                simp only [Bool.false_eq_true, if_false, Dialogue.returns_bind,
                  Dialogue.returns_question, Dialogue.returns_ofExcept, nextEntry_ok_iff] at h
                obtain ⟨_, _, ⟨rfl, rfl⟩, entry', _, ⟨⟨hserver, hshows'⟩, rfl⟩, h⟩ := h
                obtain ⟨rest, hrest, rfl, hlength, rfl⟩ :=
                  ih values hrange (Nat.le_of_not_lt hbound) hof.ne_nil entry' hshows' h
                refine ⟨values :: rest, .more hshows hof hserver hrest, ?_, hlength, ?_⟩
                · rw [List.flatten_cons, List.append_assoc]
                · rw [List.length_cons]
                  omega

/-! Whole groups. -/

theorem readGroup_within (base id : Bytes) :
    (lib.readGroup base id).Within (maximumDirectMembers + 2) := by
  refine (findObject_within.bind (c := maximumDirectMembers + 1) fun found => ?_).mono (by omega)
  cases found with
  | none => exact Dialogue.within_done _ _
  | some entry =>
      dsimp only
      split
      · exact Dialogue.within_fail _ _
      · refine ((readRanges_within [] 0 entry).bind fun members =>
          (findObject_within.mapError changedDuringVerification).bind (c := 0) fun final => ?_).mono
            (by rw [List.length_nil]; omega)
        cases final with
        | none => exact Dialogue.within_fail _ _
        | some final =>
            dsimp only
            split
            · exact Dialogue.within_done _ _
            · exact Dialogue.within_fail _ _

theorem readGroup_inRange : ¬(lib.readGroup base id).Fails server n .outOfRange := by
  rw [readGroup, Dialogue.fails_bind]
  rintro (h | ⟨found, k, -, h⟩)
  · exact findObject_inRange h
  · cases found with
    | none => exact Dialogue.fails_done h
    | some entry =>
        dsimp only at h
        split at h
        · cases Dialogue.fails_fail.mp h
        · simp only [Dialogue.fails_bind, Dialogue.fails_mapError] at h
          obtain h | ⟨members, j, -, ⟨error, herror, hchanged⟩ | ⟨final, i, -, h⟩⟩ := h
          · exact readRanges_inRange [] 0 entry h
          · cases error with
            | invalid message => cases hchanged
            | outOfRange => exact findObject_inRange herror
          · cases final with
            | none => cases Dialogue.fails_fail.mp h
            | some final =>
                dsimp only at h
                split at h
                · exact Dialogue.fails_done h
                · cases Dialogue.fails_fail.mp h

theorem readGroup_returns {present : Bool}
    (h : (lib.readGroup base id).Returns server n (members, present) m) :
    ∃ guid, guidBytes id = .ok guid ∧
      ((present = false ∧ members = [] ∧ m = n + 1 ∧
          server n (lib.findRequest base guid groupClass
            [objectGUID, uSNChanged, ascii "member;range=0-999".toList]) = some ⟨[], []⟩) ∨
        present = true ∧ members.length ≤ maximumDirectMembers ∧
          ∃ version entry ranges final,
            server n (lib.findRequest base guid groupClass
              [objectGUID, uSNChanged, ascii "member;range=0-999".toList]) = some ⟨[entry], []⟩ ∧
            lib.Retrieved server version guid n entry 0 ranges ∧ members = ranges.flatten ∧
            m = n + ranges.length + 1 ∧
            server (n + ranges.length) (lib.findRequest base guid groupClass
              [objectGUID, uSNChanged]) = some ⟨[final], []⟩ ∧
            lib.Shows version guid final) := by
  rw [readGroup, Dialogue.returns_bind] at h
  obtain ⟨found, _, hfind, h⟩ := h
  obtain ⟨guid, hguid, rfl, hfound⟩ := findObject_returns.mp hfind
  refine ⟨guid, hguid, ?_⟩
  cases found with
  | none =>
      obtain ⟨heq, rfl⟩ := Dialogue.returns_done.mp h
      cases heq
      exact .inl ⟨rfl, rfl, rfl, foundObject_none hfound⟩
  | some entry =>
      obtain ⟨hserver, hraw, -⟩ := foundObject_some_iff.mp hfound
      dsimp only at h
      split at h
      · exact absurd h Dialogue.returns_fail
      · simp only [Dialogue.returns_bind, Dialogue.returns_mapError, findObject_returns] at h
        obtain ⟨result, _, hranges, final, _, ⟨guid', hguid', rfl, hfinal⟩, h⟩ := h
        cases hguid.symm.trans hguid'
        obtain ⟨ranges, hretrieved, rfl, hlength, rfl⟩ := readRanges_returns ⟨rfl, rfl⟩ hranges
        cases final with
        | none => exact absurd h Dialogue.returns_fail
        | some final =>
            obtain ⟨hserver', hraw', -⟩ := foundObject_some_iff.mp hfinal
            dsimp only at h
            split at h
            · rename_i hversion
              obtain ⟨heq, rfl⟩ := Dialogue.returns_done.mp h
              cases heq
              rw [hraw] at hretrieved
              exact .inr ⟨rfl, hlength, _, entry, ranges, final, hserver, hretrieved, rfl, rfl,
                hserver', hversion, hraw'⟩
            · exact absurd h Dialogue.returns_fail

/-! Servers that tell the truth. -/

variable (lib)

/-- The entry gives an initial part, not empty, of the thousand members that were asked for,
and marks the last one. -/
def AnswersRange (members : List Bytes) (next : Nat) (entry : Entry) : Prop :=
  ∃ attr stop, entry.attributes.filter lib.holdsMembers = [attr] ∧
    lib.Part members attr next stop (decide (stop = members.length)) ∧
    next < stop ∧ stop ≤ next + 1000

/-- The server has a group with these members that does not change. -/
structure Serves (server : Nat → SearchRequest → Response) (base guid dn version : Bytes)
    (members : List Bytes) : Prop where
  first : ∀ n, ∃ entry, server n (lib.findRequest base guid groupClass
      [objectGUID, uSNChanged, ascii "member;range=0-999".toList]) = some ⟨[entry], []⟩ ∧
    entry.dn = dn ∧ lib.Shows version guid entry ∧ lib.AnswersRange members 0 entry
  range : ∀ n next, next < members.length → ∃ entry,
    server n (rangeRequest dn next) = some ⟨[entry], []⟩ ∧
    entry.dn = dn ∧ lib.Shows version guid entry ∧ lib.AnswersRange members next entry
  final : ∀ n, ∃ entry, server n (lib.findRequest base guid groupClass
      [objectGUID, uSNChanged]) = some ⟨[entry], []⟩ ∧
    entry.dn = dn ∧ lib.Shows version guid entry

variable {lib}

theorem memberRange_of_answer (h : lib.AnswersRange members next entry)
    (hsmall : members.length ≤ maximumDirectMembers) :
    ∃ stop, next < stop ∧ stop ≤ members.length ∧
      lib.memberRange entry next =
        .ok ((members.drop next).take (stop - next), decide (stop = members.length)) := by
  obtain ⟨attr, stop, hfilter, hpart, hlt, -⟩ := h
  refine ⟨stop, hlt, hpart.stop_le, ?_⟩
  have hfound : entry.attributes.foldlM lib.findMembers none = .ok (some attr) :=
    foldlM_findMembers_iff.mpr hfilter.symm
  rw [memberRange, hfound, ok_bind]
  dsimp only
  rw [hpart.attributeRange hlt (by unfold maximumDirectMembers at hsmall; omega), hpart.values_eq]

variable {dn : Bytes}

/-- From the members before a position and an answer for this position, the loop goes on to all
members. -/
theorem Serves.readRanges (h : lib.Serves server base guid dn version members)
    (hsmall : members.length ≤ maximumDirectMembers) (n next : Nat) (entry : Entry)
    (hentry : entry.dn = dn) (hanswer : lib.AnswersRange members next entry) :
    ∃ m, (lib.readRanges version guid (members.take next) next entry).Returns server n members
      m := by
  induction hsize : members.length - next using Nat.strongRecOn generalizing n next entry with
  | ind size ih =>
      obtain ⟨stop, hlt, hstop, hrange⟩ := memberRange_of_answer hanswer hsmall
      have htaken : members.take next ++ (members.drop next).take (stop - next) =
          members.take stop := by
        rw [← List.take_add, Nat.add_sub_cancel' (Nat.le_of_lt hlt)]
      have hvalues : ((members.drop next).take (stop - next)).length = stop - next := by
        rw [List.length_take, List.length_drop]
        omega
      have hbound : ¬maximumDirectMembers < (members.take stop).length := by
        rw [List.length_take]
        omega
      rw [readRanges_ok hrange, htaken, if_neg hbound]
      by_cases hlast : stop = members.length
      · rw [if_pos (decide_eq_true hlast), hlast, List.take_length]
        exact ⟨n, Dialogue.returns_done.mpr ⟨rfl, rfl⟩⟩
      · rw [if_neg (by simp [hlast]), hvalues, Nat.add_sub_cancel' (Nat.le_of_lt hlt), hentry]
        obtain ⟨entry', hserver, hentry', hshows, hanswer'⟩ := h.range n stop (by omega)
        obtain ⟨m, hm⟩ := ih _ (by omega) (n + 1) stop entry' hentry' hanswer' rfl
        refine ⟨m, Dialogue.returns_bind.mpr ⟨_, n + 1, Dialogue.returns_question.mpr ⟨rfl, rfl⟩,
          Dialogue.returns_bind.mpr ⟨entry', n + 1, ?_, hm⟩⟩⟩
        exact Dialogue.returns_ofExcept.mpr ⟨nextEntry_ok_iff.mpr ⟨hserver, hshows⟩, rfl⟩

theorem Serves.readGroup (h : lib.Serves server base guid dn version members)
    (hguid : guidBytes id = .ok guid) (hinside : lib.Inside base dn)
    (hversion : parseUint 18446744073709551616 version ≠ none)
    (hsmall : members.length ≤ maximumDirectMembers) (n : Nat) :
    ∃ m, (lib.readGroup base id).Returns server n (members, true) m := by
  obtain ⟨entry, hserver, hdn, hshows, hanswer⟩ := h.first n
  obtain ⟨m, hm⟩ := h.readRanges hsmall (n + 1) 0 entry hdn hanswer
  obtain ⟨final, hfinal, hdn', hshows'⟩ := h.final m
  refine ⟨m + 1, Dialogue.returns_bind.mpr ⟨some entry, n + 1,
    findObject_returns.mpr ⟨guid, hguid, rfl,
      foundObject_some_iff.mpr ⟨hserver, hshows.2, hdn.symm ▸ hinside⟩⟩, ?_⟩⟩
  dsimp only
  rw [hshows.1, hshows.2, if_neg hversion]
  refine Dialogue.returns_bind.mpr ⟨members, m, hm, Dialogue.returns_bind.mpr ⟨some final, m + 1,
    Dialogue.returns_mapError.mpr (findObject_returns.mpr ⟨guid, hguid, rfl,
      foundObject_some_iff.mpr ⟨hfinal, hshows'.2, hdn'.symm ▸ hinside⟩⟩), ?_⟩⟩
  dsimp only
  rw [if_pos hshows'.1]
  exact Dialogue.returns_done.mpr ⟨rfl, rfl⟩

/-- A reading of a group against any server asks a bounded number of times and stays in range.
What it returns are ranges of members that follow each other from the first one on, all from
entries of the group in the version that the final lookup found. From a server that gives the
members of an unchanged group in parts it returns them all. -/
theorem readGroup_contiguous (lib : LdapLibrary) (server : Nat → SearchRequest → Response)
    (base id : Bytes) :
    ((lib.readGroup base id).run server 0).2 ≤ maximumDirectMembers + 2 ∧
    ((lib.readGroup base id).run server 0).1 ≠ .error .outOfRange ∧
    (∀ members present, ((lib.readGroup base id).run server 0).1 = .ok (members, present) →
      present = false ∧ members = [] ∨
      present = true ∧ members.length ≤ maximumDirectMembers ∧
        ∃ guid version entry ranges final, guidBytes id = .ok guid ∧ members = ranges.flatten ∧
          server 0 (lib.findRequest base guid groupClass
            [objectGUID, uSNChanged, ascii "member;range=0-999".toList]) = some ⟨[entry], []⟩ ∧
          lib.Retrieved server version guid 0 entry 0 ranges ∧
          server ranges.length (lib.findRequest base guid groupClass
            [objectGUID, uSNChanged]) = some ⟨[final], []⟩ ∧
          lib.Shows version guid final) ∧
    ∀ guid dn version members, guidBytes id = .ok guid → lib.Inside base dn →
      parseUint 18446744073709551616 version ≠ none →
      1 ≤ members.length → members.length ≤ maximumDirectMembers →
      lib.Serves server base guid dn version members →
      ((lib.readGroup base id).run server 0).1 = .ok (members, true) := by
  refine ⟨?_, readGroup_inRange, ?_, ?_⟩
  · have hwithin : ((lib.readGroup base id).run server 0).2 ≤ 0 + (maximumDirectMembers + 2) :=
      readGroup_within base id server 0
    rwa [Nat.zero_add] at hwithin
  · intro members present h
    obtain ⟨guid, hguid, ⟨rfl, rfl, -, -⟩ | ⟨rfl, hlength, version, entry, ranges, final, hentry,
      hranges, rfl, -, hfinal, hshows⟩⟩ := readGroup_returns (Prod.ext h rfl)
    · exact .inl ⟨rfl, rfl⟩
    · rw [Nat.zero_add] at hfinal
      exact .inr ⟨rfl, hlength, guid, version, entry, ranges, final, hguid, rfl, hentry, hranges,
        hfinal, hshows⟩
  · intro guid dn version members hguid hinside hversion _ hsmall hserves
    obtain ⟨m, hm⟩ := hserves.readGroup hguid hinside hversion hsmall 0
    exact congrArg Prod.fst hm

end LdapLibrary

namespace Sample

def groupID : Bytes := ascii "11111111-2222-4333-8444-555555555555".toList

def groupGUID : Bytes :=
  [17, 17, 17, 17, 34, 34, 51, 67, 132, 68, 85, 85, 85, 85, 85, 85]

def groupDN : Bytes := ascii "CN=Role,DC=test".toList

def threeMembers : List Bytes := [ascii ['a'], ascii ['b'], ascii ['c']]

def plainLibrary : LdapLibrary where
  parseDN value := some ⟨[⟨[⟨[], value⟩]⟩]⟩
  toLower value := value.map fun b => if 65 ≤ b.toNat ∧ b.toNat ≤ 90 then b + 32 else b
  attributeValue entry name :=
    ((entry.attributes.find? (·.name = name)).bind (·.values.head?)).getD []
  rawAttributeValue entry name :=
    ((entry.attributes.find? (·.name = name)).bind (·.values.head?)).getD []
  equalFold _ _ := true
  ancestorOfFold _ _ := false
  escapeFilter value := value

def groupEntry (name : List Char) (values : List Bytes) : Entry :=
  ⟨groupDN, [⟨objectGUID, [groupGUID]⟩, ⟨uSNChanged, [ascii ['4', '2']]⟩, ⟨memberName, []⟩,
    ⟨ascii name, values⟩]⟩

def pagedAnswer (request : SearchRequest) : Response :=
  let range := request.attributes[2]?
  let entry :=
    if range = some (ascii "member;range=0-999".toList) then
      groupEntry "Member;Range=0-1".toList [ascii ['a'], ascii ['b']]
    else if range = some (ascii "member;range=1-1000".toList) then
      groupEntry "member;range=1-*".toList [ascii ['b'], ascii ['c']]
    else if range = some (ascii "member;range=2-1001".toList) then
      groupEntry "member;range=2-*".toList [ascii ['c']]
    else groupEntry "cn".toList []
  some ⟨[entry], []⟩

theorem answersRange_first : plainLibrary.AnswersRange threeMembers 0
    (groupEntry "Member;Range=0-1".toList [ascii ['a'], ascii ['b']]) :=
  ⟨⟨ascii "Member;Range=0-1".toList, [ascii ['a'], ascii ['b']]⟩, 2, rfl,
    @LdapLibrary.Part.bounded _ _ _ 0 1 (by decide) (by decide) rfl rfl, by decide, by decide⟩

theorem answersRange_second : plainLibrary.AnswersRange threeMembers 1
    (groupEntry "member;range=1-*".toList [ascii ['b'], ascii ['c']]) :=
  ⟨⟨ascii "member;range=1-*".toList, [ascii ['b'], ascii ['c']]⟩, 3, rfl,
    @LdapLibrary.Part.terminal _ threeMembers _ 1 rfl rfl, by decide, by decide⟩

theorem answersRange_third : plainLibrary.AnswersRange threeMembers 2
    (groupEntry "member;range=2-*".toList [ascii ['c']]) :=
  ⟨⟨ascii "member;range=2-*".toList, [ascii ['c']]⟩, 3, rfl,
    @LdapLibrary.Part.terminal _ threeMembers _ 2 rfl rfl, by decide, by decide⟩

theorem serves_pagedAnswer :
    plainLibrary.Serves (fun _ => pagedAnswer) groupDN groupGUID groupDN (ascii ['4', '2'])
      threeMembers where
  first _ := ⟨_, rfl, rfl, by decide, answersRange_first⟩
  range _ next hnext := by
    have hcases : next = 0 ∨ next = 1 ∨ next = 2 := by
      have : threeMembers.length = 3 := rfl
      omega
    rcases hcases with rfl | rfl | rfl
    · exact ⟨_, rfl, rfl, by decide, answersRange_first⟩
    · exact ⟨_, rfl, rfl, by decide, answersRange_second⟩
    · exact ⟨_, rfl, rfl, by decide, answersRange_third⟩
  final _ := ⟨groupEntry "cn".toList [], rfl, rfl, by decide⟩

end Sample

/-- Three members are read from a server that gives two at a time. -/
theorem readGroup_contiguous_paged :
    guidBytes Sample.groupID = .ok Sample.groupGUID ∧
    ((Sample.plainLibrary.readGroup Sample.groupDN Sample.groupID).run
      (fun _ => Sample.pagedAnswer) 0).1 = .ok (Sample.threeMembers, true) := by
  have hguid : guidBytes Sample.groupID = .ok Sample.groupGUID := rfl
  exact ⟨hguid, (LdapLibrary.readGroup_contiguous Sample.plainLibrary _ _ _).2.2.2 _
    Sample.groupDN (ascii ['4', '2']) _ hguid ⟨_, _, rfl, rfl, .inl rfl⟩ (by decide)
    (by decide) (by decide) Sample.serves_pagedAnswer⟩

end JobmanControl.Directory