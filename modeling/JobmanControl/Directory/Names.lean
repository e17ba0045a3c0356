import Mathlib.Data.List.Perm.Basic
import Mathlib.Data.Set.List
import JobmanControl.Library.PrefixCode
import JobmanControl.Library.Query

/-!
Distinguished names as keys. A name is a list of relative names, each a set of attribute
types with values. Its key writes every part with its length in front and sorts the parts
of a relative name as they are written. Two names have one key exactly when they are the
same up to case and to the order within a relative name.
-/

namespace JobmanControl.Directory

open Relational PrefixCode

/-- A Go string: any sequence of bytes. -/
abbrev Bytes := List UInt8

def ascii (text : List Char) : Bytes := text.map fun c => c.toNat.toUInt8

structure AttributeTypeAndValue where
  type : Bytes
  value : Bytes
  deriving DecidableEq, Repr

structure RelativeDN where
  attributes : List AttributeTypeAndValue
  deriving DecidableEq, Repr

structure DN where
  rdns : List RelativeDN
  deriving DecidableEq, Repr

/-- What the LDAP library and the Go library do with names: `ldap.ParseDN` and
`strings.ToLower`. -/
structure NameLibrary where
  parseDN : Bytes → Option DN
  toLower : Bytes → Bytes

/-- `fmt.Sprintf("%d:", n)`. -/
def lengthPrefix (n : Nat) : Bytes := ascii (Nat.toDigits 10 n) ++ ascii [':']

/-- The order of Go strings. -/
def stringLe : Bytes → Bytes → Bool
  | [], _ => true
  | _ :: _, [] => false
  | a :: as, b :: bs => a.toNat < b.toNat || (a.toNat = b.toNat && stringLe as bs)

namespace NameLibrary

variable (lib : NameLibrary)

def lowered (pair : AttributeTypeAndValue) : Bytes × Bytes :=
  (lib.toLower pair.type, lib.toLower pair.value)

/-- `fmt.Sprintf("%d:%s%d:%s", len(a), a, len(b), b)`. -/
def attributeKey (pair : AttributeTypeAndValue) : Bytes :=
  let a := lib.toLower pair.type
  let b := lib.toLower pair.value
  lengthPrefix a.length ++ a ++ (lengthPrefix b.length ++ b)

def relativeKey (rdn : RelativeDN) : Bytes :=
  let attributes := orderBy stringLe (rdn.attributes.map lib.attributeKey)
  lengthPrefix attributes.length ++ attributes.flatten

def distinguishedNameKey (value : Bytes) : Except String Bytes :=
  match lib.parseDN value with
  | some dn =>
      if dn.rdns = [] then .error "directory member distinguished name is invalid"
      else .ok (dn.rdns.flatMap lib.relativeKey)
  | none => .error "directory member distinguished name is invalid"

/-- The relative names have the same attributes after lower-casing, each as often. -/
def SameRelative (rdn rdn' : RelativeDN) : Prop :=
  (rdn.attributes.map lib.lowered).Perm (rdn'.attributes.map lib.lowered)

instance (rdn rdn' : RelativeDN) : Decidable (lib.SameRelative rdn rdn') :=
  inferInstanceAs (Decidable (List.Perm _ _))

/-- The names are the same, relative name by relative name. -/
def SameName (dn dn' : DN) : Prop := List.Forall₂ lib.SameRelative dn.rdns dn'.rdns

end NameLibrary

/-! The order of strings. -/

theorem stringLe_total (a b : Bytes) : stringLe a b = true ∨ stringLe b a = true := by
  induction a generalizing b with
  | nil => exact Or.inl rfl
  | cons x a ih =>
      cases b with
      | nil => exact Or.inr rfl
      | cons y b =>
          have hrest := ih b
          simp only [stringLe, Bool.or_eq_true, Bool.and_eq_true, decide_eq_true_eq]
          rcases Nat.lt_trichotomy x.toNat y.toNat with hlt | heq | hlt
          · exact Or.inl (Or.inl hlt)
          · exact hrest.imp (fun h => Or.inr ⟨heq, h⟩) fun h => Or.inr ⟨heq.symm, h⟩
          · exact Or.inr (Or.inl hlt)

theorem stringLe_trans (a b c : Bytes) (hab : stringLe a b = true) (hbc : stringLe b c = true) :
    stringLe a c = true := by
  induction a generalizing b c with
  | nil => rfl
  | cons x a ih =>
      cases b with
      | nil => cases hab
      | cons y b =>
          cases c with
          | nil => cases hbc
          | cons z c =>
              have hrest := ih b c
              simp only [stringLe, Bool.or_eq_true, Bool.and_eq_true,
                decide_eq_true_eq] at hab hbc ⊢
              rcases hab with hxy | ⟨hxy, hab⟩
              · rcases hbc with hyz | ⟨hyz, -⟩
                · exact Or.inl (Nat.lt_trans hxy hyz)
                · exact Or.inl (hyz ▸ hxy)
              · rcases hbc with hyz | ⟨hyz, hbc⟩
                · exact Or.inl (hxy ▸ hyz)
                · exact Or.inr ⟨hxy.trans hyz, hrest hab hbc⟩

theorem stringLe_antisymm (a b : Bytes) (hab : stringLe a b = true) (hba : stringLe b a = true) :
    a = b := by
  induction a generalizing b with
  | nil =>
      cases b with
      | nil => rfl
      | cons y b => cases hba
  | cons x a ih =>
      cases b with
      | nil => cases hab
      | cons y b =>
          simp only [stringLe, Bool.or_eq_true, Bool.and_eq_true, decide_eq_true_eq] at hab hba
          have hxy : x.toNat = y.toNat := by
            rcases hab with hlt | ⟨heq, -⟩
            · rcases hba with hlt' | ⟨heq, -⟩
              · exact absurd hlt (Nat.lt_asymm hlt')
              · exact heq.symm
            · exact heq
          have hab' : stringLe a b = true := by
            rcases hab with hlt | ⟨-, hab⟩
            · exact absurd hxy (Nat.ne_of_lt hlt)
            · exact hab
          have hba' : stringLe b a = true := by
            rcases hba with hlt | ⟨-, hba⟩
            · exact absurd hxy.symm (Nat.ne_of_lt hlt)
            · exact hba
          rw [UInt8.toNat_inj.mp hxy, ih b hab' hba']

/-! The parts of a key can be read back. -/

theorem ascii_injective_of_lt {l l' : List Char} (h : ∀ c ∈ l, c.toNat < 256)
    (h' : ∀ c ∈ l', c.toNat < 256) (heq : ascii l = ascii l') : l = l' := by
  induction l generalizing l' with
  | nil => exact (List.map_eq_nil_iff.mp heq.symm).symm
  | cons c l ih =>
      cases l' with
      | nil => cases heq
      | cons c' l' =>
          obtain ⟨hhead, hrest⟩ := List.cons.inj heq
          obtain ⟨hc, hl⟩ := List.forall_mem_cons.mp h
          obtain ⟨hc', hl'⟩ := List.forall_mem_cons.mp h'
          have hcode : c.toNat = c'.toNat := by
            have := congrArg UInt8.toNat hhead
            simp only [Nat.toUInt8, UInt8.toNat_ofNat'] at this
            omega
          rw [Char.toNat_inj.mp hcode, ih hl hl' hrest]

theorem isDigit_toNat {c : Char} (h : c.isDigit = true) : 48 ≤ c.toNat ∧ c.toNat ≤ 57 := by
  simp only [Char.isDigit, Bool.and_eq_true, decide_eq_true_eq] at h
  exact h

theorem readable_lengthPrefix : Readable lengthPrefix := by
  have hdigits : ∀ n, ∀ c ∈ Nat.toDigits 10 n, 48 ≤ c.toNat ∧ c.toNat ≤ 57 := fun n c hc =>
    isDigit_toNat (Nat.isDigit_of_mem_toDigits (by decide) (by decide) hc)
  refine readable_terminated 58 ?_ ?_
  · intro n n' heq
    have hchars := ascii_injective_of_lt (fun c hc => by have := hdigits n c hc; omega)
      (fun c hc => by have := hdigits n' c hc; omega) heq
    rw [← Nat.ofDigitChars_ten_toDigits (n := n), hchars, Nat.ofDigitChars_ten_toDigits]
  · intro n hstop
    obtain ⟨c, hc, hcode⟩ := List.mem_map.mp hstop
    have hrange := hdigits n c hc
    have := congrArg UInt8.toNat hcode
    simp only [Nat.toUInt8, UInt8.toNat_ofNat'] at this
    have h58 : UInt8.toNat 58 = 58 := rfl
    omega

theorem lengthPrefix_ne_nil (n : Nat) : lengthPrefix n ≠ [] := by
  simp [lengthPrefix, ascii]

section Keys

variable (lib : NameLibrary)

def pairKey (pair : Bytes × Bytes) : Bytes :=
  lengthPrefix pair.1.length ++ pair.1 ++ (lengthPrefix pair.2.length ++ pair.2)

theorem readable_pairKey : Readable pairKey :=
  readable_lengthPrefix.sized.pair readable_lengthPrefix.sized

theorem exists_pairs (rdn : RelativeDN) :
    ∃ pairs : List (Bytes × Bytes),
      orderBy stringLe (rdn.attributes.map lib.attributeKey) = pairs.map pairKey := by
  have hmem : ∀ key ∈ orderBy stringLe (rdn.attributes.map lib.attributeKey),
      key ∈ Set.range pairKey := by
    intro key hkey
    obtain ⟨pair, -, rfl⟩ := List.mem_map.mp ((mem_orderBy _ _ _).mp hkey)
    exact ⟨lib.lowered pair, rfl⟩
  obtain ⟨pairs, hpairs⟩ := (Set.range_list_map pairKey).symm.subset hmem
  exact ⟨pairs, hpairs.symm⟩

/-- The key of a relative name in front of a text determines the relative name, up to case
and order. -/
theorem relativeKey_append_inj {rdn rdn' : RelativeDN} {s s' : Bytes}
    (h : lib.relativeKey rdn ++ s = lib.relativeKey rdn' ++ s') :
    lib.SameRelative rdn rdn' ∧ s = s' := by
  obtain ⟨pairs, hpairs⟩ := exists_pairs lib rdn
  obtain ⟨pairs', hpairs'⟩ := exists_pairs lib rdn'
  have hkey : ∀ (rdn : RelativeDN) (pairs : List (Bytes × Bytes)),
      orderBy stringLe (rdn.attributes.map lib.attributeKey) = pairs.map pairKey →
      lib.relativeKey rdn = lengthPrefix pairs.length ++ pairs.flatMap pairKey := by
    intro rdn pairs hsorted
    rw [NameLibrary.relativeKey, hsorted, List.length_map, List.flatMap_def]
  rw [hkey rdn pairs hpairs, hkey rdn' pairs' hpairs'] at h
  obtain ⟨rfl, rfl⟩ := readable_lengthPrefix.counted readable_pairKey _ _ _ _ h
  refine ⟨?_, rfl⟩
  have hperm := (orderBy_eq_iff_perm stringLe_total stringLe_trans stringLe_antisymm _ _).mp
    (hpairs.trans hpairs'.symm)
  have hmap : ∀ rdn : RelativeDN, rdn.attributes.map lib.attributeKey =
      (rdn.attributes.map lib.lowered).map pairKey := by
    intro rdn
    rw [List.map_map]
    rfl
  rw [hmap, hmap] at hperm
  exact (List.map_perm_map_iff readable_pairKey.injective).mp hperm

theorem relativeKey_eq_of_same {rdn rdn' : RelativeDN} (h : lib.SameRelative rdn rdn') :
    lib.relativeKey rdn = lib.relativeKey rdn' := by
  have hperm : (rdn.attributes.map lib.attributeKey).Perm
      (rdn'.attributes.map lib.attributeKey) := by
    have := h.map pairKey
    rwa [List.map_map, List.map_map] at this
  rw [NameLibrary.relativeKey, NameLibrary.relativeKey,
    (orderBy_eq_iff_perm stringLe_total stringLe_trans stringLe_antisymm _ _).mpr hperm]

theorem flatMap_relativeKey_eq_iff (rdns rdns' : List RelativeDN) :
    rdns.flatMap lib.relativeKey = rdns'.flatMap lib.relativeKey ↔
      List.Forall₂ lib.SameRelative rdns rdns' := by
  induction rdns generalizing rdns' with
  | nil =>
      cases rdns' with
      | nil => simp
      | cons rdn' rdns' => simp [NameLibrary.relativeKey, lengthPrefix_ne_nil]
  | cons rdn rdns ih =>
      cases rdns' with
      | nil => simp [NameLibrary.relativeKey, lengthPrefix_ne_nil]
      | cons rdn' rdns' =>
          simp only [List.flatMap_cons, List.forall₂_cons]
          constructor
          · intro h
            obtain ⟨hsame, hrest⟩ := relativeKey_append_inj lib h
            exact ⟨hsame, (ih rdns').mp hrest⟩
          · rintro ⟨hsame, hrest⟩
            rw [relativeKey_eq_of_same lib hsame, (ih rdns').mpr hrest]

end Keys

/-- Two parsed names have one key exactly when they are the same name, up to case and to the
order within each relative name. -/
theorem distinguishedNameKey_eq_iff (lib : NameLibrary) {value value' : Bytes} {dn dn' : DN}
    (h : lib.parseDN value = some dn) (h' : lib.parseDN value' = some dn') :
    lib.distinguishedNameKey value = lib.distinguishedNameKey value' ↔ lib.SameName dn dn' := by
  simp only [NameLibrary.distinguishedNameKey, NameLibrary.SameName, h, h']
  by_cases hempty : dn.rdns = []
  · by_cases hempty' : dn'.rdns = []
    · simp [hempty, hempty']
    · obtain ⟨rdn', rdns', hcons⟩ := List.exists_cons_of_ne_nil hempty'
      simp [hempty, hcons]
  · by_cases hempty' : dn'.rdns = []
    · obtain ⟨rdn, rdns, hcons⟩ := List.exists_cons_of_ne_nil hempty
      simp [hempty', hcons]
    · rw [if_neg hempty, if_neg hempty', Except.ok.injEq, flatMap_relativeKey_eq_iff]

namespace Sample

def twoAttributes (first second : AttributeTypeAndValue) : DN := ⟨[⟨[first, second]⟩]⟩

/-- Two spellings of one name, and lower-casing in ASCII. -/
def spellings : NameLibrary where
  parseDN value :=
    if value = ascii "CN=A+OU=b".toList then
      some (twoAttributes ⟨ascii ['C', 'N'], ascii ['A']⟩ ⟨ascii ['O', 'U'], ascii ['b']⟩)
    else if value = ascii "ou=B+cn=a".toList then
      some (twoAttributes ⟨ascii ['o', 'u'], ascii ['B']⟩ ⟨ascii ['c', 'n'], ascii ['a']⟩)
    else none
  toLower value := value.map fun b => if 65 ≤ b.toNat ∧ b.toNat ≤ 90 then b + 32 else b

end Sample

theorem distinguishedNameKey_eq_spellings :
    Sample.spellings.distinguishedNameKey (ascii "CN=A+OU=b".toList) =
      Sample.spellings.distinguishedNameKey (ascii "ou=B+cn=a".toList) := by
  have hfirst : Sample.spellings.parseDN (ascii "CN=A+OU=b".toList) = some (Sample.twoAttributes
      ⟨ascii ['C', 'N'], ascii ['A']⟩ ⟨ascii ['O', 'U'], ascii ['b']⟩) := by decide
  have hsecond : Sample.spellings.parseDN (ascii "ou=B+cn=a".toList) = some (Sample.twoAttributes
      ⟨ascii ['o', 'u'], ascii ['B']⟩ ⟨ascii ['c', 'n'], ascii ['a']⟩) := by decide
  exact (distinguishedNameKey_eq_iff Sample.spellings hfirst hsecond).mpr
    (.cons (by decide) .nil)

end JobmanControl.Directory
