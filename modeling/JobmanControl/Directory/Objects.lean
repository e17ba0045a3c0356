import JobmanControl.Directory.Names
import JobmanControl.Library.Dialogue
import JobmanControl.Library.Transaction

/-!
Searches of a directory. What a server answers can be anything: a failure, no entry, several
of them, or one of another object. An object is looked up by its identifier and accepted only
if the answer is complete, the entry carries the identifier and its name is below the
configured base.
-/

namespace JobmanControl.Directory

open Relational

inductive ReadError
  | invalid (message : String)
  /-- An index or a slice outside of its bounds. -/
  | outOfRange
  deriving DecidableEq, Repr

structure EntryAttribute where
  name : Bytes
  values : List Bytes
  deriving DecidableEq, Repr

structure Entry where
  dn : Bytes
  attributes : List EntryAttribute
  deriving DecidableEq, Repr

inductive Scope
  | baseObject
  | wholeSubtree
  deriving DecidableEq, Repr

structure SearchRequest where
  base : Bytes
  scope : Scope
  sizeLimit : Nat
  timeLimit : Nat
  filter : Bytes
  attributes : List Bytes
  deriving DecidableEq, Repr

structure SearchResult where
  entries : List Entry
  referrals : List Bytes
  deriving DecidableEq, Repr

/-- A search gives no result if it fails. -/
abbrev Response := Option SearchResult

/-- Programs that search. -/
abbrev Search := Dialogue ReadError SearchRequest Response

/-- What the LDAP library does with entries, names and filters: the first value of an attribute
whose name is given up to case, as text and as bytes, `DN.EqualFold`, `DN.AncestorOfFold` and
`ldap.EscapeFilter`. -/
structure LdapLibrary extends NameLibrary where
  attributeValue : Entry → Bytes → Bytes
  rawAttributeValue : Entry → Bytes → Bytes
  equalFold : DN → DN → Bool
  ancestorOfFold : DN → DN → Bool
  escapeFilter : Bytes → Bytes

def objectGUID : Bytes := ascii "objectGUID".toList

def uSNChanged : Bytes := ascii "uSNChanged".toList

/-! Identifiers. -/

def dashAt (i : Nat) : Bool := i = 8 || i = 13 || i = 18 || i = 23

def isHexDigit (b : UInt8) : Bool :=
  (48 ≤ b.toNat && b.toNat ≤ 57) || (97 ≤ b.toNat && b.toNat ≤ 102)

/-- `domain.IsID`. -/
def isID (value : Bytes) : Bool :=
  value.length = 36 && value.zipIdx.all fun (b, i) => if dashAt i then b = 45 else isHexDigit b

def fromHexChar (b : UInt8) : Option Nat :=
  if 48 ≤ b.toNat ∧ b.toNat ≤ 57 then some (b.toNat - 48)
  else if 97 ≤ b.toNat ∧ b.toNat ≤ 102 then some (b.toNat - 87)
  else if 65 ≤ b.toNat ∧ b.toNat ≤ 70 then some (b.toNat - 55)
  else none

/-- `hex.DecodeString`. -/
def decodeHex : Bytes → Option Bytes
  | [] => some []
  | [_] => none
  | high :: low :: rest => do
      let h ← fromHexChar high
      let l ← fromHexChar low
      let bytes ← decodeHex rest
      some ((16 * h + l).toUInt8 :: bytes)

/-- The bytes of `bytes[i:j]` in the other order. -/
def swapped (i j : Nat) (bytes : Bytes) : Except ReadError Bytes := do
  ensure (i ≤ j ∧ j ≤ bytes.length) .outOfRange
  pure (bytes.take i ++ ((bytes.take j).drop i).reverse ++ bytes.drop j)

def guidBytes (value : Bytes) : Except ReadError Bytes := do
  ensure (isID value = true) (.invalid "directory object ID is invalid")
  let bytes ← need (decodeHex (value.filter (· ≠ 45))) (.invalid "directory object ID is invalid")
  let bytes ← swapped 0 4 bytes
  let bytes ← swapped 4 6 bytes
  swapped 6 8 bytes

theorem decodeHex_length {value bytes : Bytes} (h : decodeHex value = some bytes) :
    value.length = 2 * bytes.length := by
  induction value using decodeHex.induct generalizing bytes with
  | case1 =>
      cases h
      rfl
  | case2 b => cases h
  | case3 high low rest ih =>
      simp only [decodeHex, Option.bind_eq_bind, Option.bind_eq_some_iff] at h
      obtain ⟨_, -, _, -, tail, htail, hbytes⟩ := h
      have hlength := ih htail
      cases hbytes
      simp only [List.length_cons]
      omega

theorem isID_digits {value : Bytes} (h : isID value = true) :
    (value.filter (· ≠ 45)).length = 32 := by
  simp only [isID, Bool.and_eq_true, decide_eq_true_eq, List.all_eq_true, Prod.forall] at h
  obtain ⟨hlength, hall⟩ := h
  have hdash : ∀ pair ∈ value.zipIdx, (decide (pair.1 ≠ 45)) = !dashAt pair.2 := by
    rintro ⟨b, i⟩ hmem
    have hb := hall b i hmem
    cases hi : dashAt i with
    | true =>
        rw [hi, if_pos rfl, decide_eq_true_eq] at hb
        simp [hb]
    | false =>
        rw [hi, if_neg Bool.false_ne_true] at hb
        have hne : b ≠ 45 := by
          rintro rfl
          revert hb
          decide
        simp [hne]
  have hpositions : (value.filter (· ≠ 45)).length =
      ((List.range' 0 36).filter fun i => !dashAt i).length := by
    rw [← hlength, ← List.zipIdx_map_snd 0 value, List.filter_map, List.length_map]
    nth_rewrite 1 [← List.zipIdx_map_fst 0 value]
    rw [List.filter_map, List.length_map]
    exact congrArg List.length (List.filter_congr hdash)
  rw [hpositions]
  decide

theorem swapped_ok (i j : Nat) (bytes : Bytes) (hij : i ≤ j) (hj : j ≤ bytes.length) :
    ∃ result, swapped i j bytes = .ok result ∧ result.length = bytes.length := by
  refine ⟨_, by rw [swapped, ensure_of_true ⟨hij, hj⟩, ok_bind]; rfl, ?_⟩
  simp only [List.length_append, List.length_take, List.length_reverse, List.length_drop]
  omega

theorem guidBytes_inRange (value : Bytes) : guidBytes value ≠ .error .outOfRange := by
  intro h
  simp only [guidBytes, bind_error_iff, ensure_error_iff, ensure_ok_iff, need_error_iff,
    need_ok_iff, reduceCtorEq, and_false, false_or] at h
  obtain ⟨-, hid, bytes, hbytes, h⟩ := h
  have hlength : bytes.length = 16 := by
    have hhex := decodeHex_length hbytes
    rw [isID_digits hid] at hhex
    omega
  obtain ⟨first, hfirst, hlengthFirst⟩ := swapped_ok 0 4 bytes (by omega) (by omega)
  obtain ⟨second, hsecond, hlengthSecond⟩ := swapped_ok 4 6 first (by omega) (by omega)
  obtain ⟨third, hthird, -⟩ := swapped_ok 6 8 second (by omega) (by omega)
  simp only [hfirst, hsecond, hthird, Except.ok.injEq, reduceCtorEq, exists_eq_left', or_self] at h

/-! Lookups. -/

namespace LdapLibrary

variable (lib : LdapLibrary)

/-- The filter begins with the class that is looked for. -/
def findRequest (base guid opening : Bytes) (attributes : List Bytes) : SearchRequest where
  base := base
  scope := .wholeSubtree
  sizeLimit := 2
  timeLimit := 5
  filter := opening ++ ascii "(objectGUID=".toList ++ lib.escapeFilter guid ++ ascii "))".toList
  attributes := attributes

def foundObject (base guid : Bytes) (response : Response) : Except ReadError (Option Entry) := do
  let result ← need response (.invalid "directory object query is incomplete")
  ensure (result.referrals = [] ∧ result.entries.length ≤ 1)
    (.invalid "directory object query is incomplete")
  if result.entries.length = 0 then pure none
  else
    let entry ← need result.entries[0]? .outOfRange
    ensure (lib.rawAttributeValue entry objectGUID = guid)
      (.invalid "directory object identity changed")
    let parsed ← need (lib.parseDN entry.dn)
      (.invalid "directory object distinguished name is invalid")
    let root ← need (lib.parseDN base) (.invalid "directory object is outside configured base")
    ensure (lib.equalFold root parsed = true ∨ lib.ancestorOfFold root parsed = true)
      (.invalid "directory object is outside configured base")
    pure (some entry)

def findObject (base id opening : Bytes) (attributes : List Bytes) : Search (Option Entry) := do
  let guid ← .ofExcept (guidBytes id)
  let response ← .question (lib.findRequest base guid opening attributes)
  .ofExcept (lib.foundObject base guid response)

/-- The name is the base or below it. -/
def Inside (base dn : Bytes) : Prop :=
  ∃ parsed root, lib.parseDN dn = some parsed ∧ lib.parseDN base = some root ∧
    (lib.equalFold root parsed = true ∨ lib.ancestorOfFold root parsed = true)

variable {lib}

theorem foundObject_some_iff {base guid : Bytes} {response : Response} {entry : Entry} :
    lib.foundObject base guid response = .ok (some entry) ↔
      response = some ⟨[entry], []⟩ ∧ lib.rawAttributeValue entry objectGUID = guid ∧
        lib.Inside base entry.dn := by
  constructor
  · intro h
    simp only [foundObject, bind_ok_iff, need_ok_iff, ensure_ok_iff] at h
    obtain ⟨⟨entries, referrals⟩, rfl, -, ⟨rfl, hlength⟩, h⟩ := h
    split at h
    · rw [pure_ok_iff] at h
      cases h
    · rename_i hentries
      obtain ⟨entry', rfl⟩ : ∃ entry', entries = [entry'] := by
        refine List.length_eq_one_iff.mp ?_
        dsimp only at hlength hentries
        omega
      simp only [bind_ok_iff, need_ok_iff, ensure_ok_iff, pure_ok_iff, Option.some.injEq] at h
      obtain ⟨_, hentry, -, hguid, parsed, hparsed, root, hroot, -, hinside, rfl⟩ := h
      cases hentry
      exact ⟨rfl, hguid, parsed, root, hparsed, hroot, hinside⟩
  · rintro ⟨rfl, hguid, parsed, root, hparsed, hroot, hinside⟩
    rw [foundObject, need_of_eq_some rfl, ok_bind, ensure_of_true ⟨rfl, Nat.le_refl 1⟩, ok_bind]
    have hfirst : [entry][0]? = some entry := rfl
    dsimp only
    rw [if_neg (by simp), need_of_eq_some hfirst, ok_bind, ensure_of_true hguid, ok_bind,
      need_of_eq_some hparsed, ok_bind, need_of_eq_some hroot, ok_bind, ensure_of_true hinside,
      ok_bind]
    rfl

theorem foundObject_none {base guid : Bytes} {response : Response}
    (h : lib.foundObject base guid response = .ok none) : response = some ⟨[], []⟩ := by
  simp only [foundObject, bind_ok_iff, need_ok_iff, ensure_ok_iff] at h
  obtain ⟨⟨entries, referrals⟩, rfl, -, ⟨rfl, hlength⟩, h⟩ := h
  split at h
  · rename_i hentries
    obtain rfl : entries = [] := List.eq_nil_of_length_eq_zero hentries
    rfl
  · simp only [bind_ok_iff, need_ok_iff, ensure_ok_iff, pure_ok_iff, reduceCtorEq, and_false,
      exists_false] at h

theorem foundObject_inRange (base guid : Bytes) (response : Response) :
    lib.foundObject base guid response ≠ .error .outOfRange := by
  intro h
  simp only [foundObject, bind_error_iff, need_error_iff, need_ok_iff, ensure_error_iff,
    ensure_ok_iff, reduceCtorEq, and_false, false_or] at h
  obtain ⟨⟨entries, referrals⟩, -, -, -, h⟩ := h
  split at h
  · rw [pure_error_iff] at h
    exact h
  · rename_i hentries
    simp only [bind_error_iff, need_error_iff, need_ok_iff, ensure_error_iff, ensure_ok_iff,
      pure_error_iff, reduceCtorEq, and_false, and_true, or_false, exists_false,
      List.getElem?_eq_none_iff] at h
    dsimp only at hentries
    omega

section Runs

variable {server : Nat → SearchRequest → Response} {base id opening : Bytes}
  {attributes : List Bytes} {n m : Nat}

theorem findObject_returns {found : Option Entry} :
    (lib.findObject base id opening attributes).Returns server n found m ↔
      ∃ guid, guidBytes id = .ok guid ∧ m = n + 1 ∧
        lib.foundObject base guid (server n (lib.findRequest base guid opening attributes)) =
          .ok found := by
  simp only [findObject, Dialogue.returns_bind, Dialogue.returns_ofExcept,
    Dialogue.returns_question]
  constructor
  · rintro ⟨guid, _, ⟨hguid, rfl⟩, _, _, ⟨rfl, rfl⟩, hfound, rfl⟩
    exact ⟨guid, hguid, rfl, hfound⟩
  · rintro ⟨guid, hguid, rfl, hfound⟩
    exact ⟨guid, n, ⟨hguid, rfl⟩, _, n + 1, ⟨rfl, rfl⟩, hfound, rfl⟩

theorem findObject_inRange :
    ¬(lib.findObject base id opening attributes).Fails server n .outOfRange := by
  simp only [findObject, Dialogue.fails_bind, Dialogue.fails_ofExcept, Dialogue.fails_question,
    false_or]
  rintro (h | ⟨guid, -, -, response, -, -, h⟩)
  · exact guidBytes_inRange id h
  · exact foundObject_inRange base guid response h

theorem findObject_within : (lib.findObject base id opening attributes).Within 1 :=
  (Dialogue.within_ofExcept _ 0).bind fun _ =>
    (Dialogue.within_question _).bind fun _ => Dialogue.within_ofExcept _ 0

end Runs

end LdapLibrary

end JobmanControl.Directory
