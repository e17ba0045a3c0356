import JobmanControl.Directory.Objects

/-!
Ranges of members. A server may give the members of a group in parts, each under a name that
says which positions it has. The reader takes the only attribute with members, and accepts it
if it starts where the members in hand end.
-/

namespace JobmanControl.Directory

open Relational

def maximumDirectMembers : Nat := 100000

/-! Numbers in texts. -/

def decimalDigits (n : Nat) : Bytes := ascii (Nat.toDigits 10 n)

/-- The number that a text of digits stands for. -/
def decimal (digits : Bytes) : Option Nat :=
  if digits ≠ [] ∧ digits.all (fun b => 48 ≤ b.toNat ∧ b.toNat ≤ 57) then
    some (digits.foldl (fun n b => 10 * n + (b.toNat - 48)) 0)
  else none

/-- `strconv.ParseUint` of a type with these many values. -/
def parseUint (limit : Nat) (value : Bytes) : Option Nat := (decimal value).filter (· < limit)

/-- `strconv.Atoi`: a sign is allowed, and the number has to be in the range of the type. -/
def atoi (value : Bytes) : Option Int :=
  if value.head? = some 45 then
    ((decimal value.tail).filter (· ≤ 9223372036854775808)).map fun n : Nat => -(n : Int)
  else
    let digits := if value.head? = some 43 then value.tail else value
    ((decimal digits).filter (· < 9223372036854775808)).map fun n : Nat => (n : Int)

variable {n start first stop : Nat} {entry : Entry} {values members : List Bytes}
  {attr : EntryAttribute} {marked : Bool}

theorem decimalDigits_range {b : UInt8} (h : b ∈ decimalDigits n) :
    48 ≤ b.toNat ∧ b.toNat ≤ 57 := by
  obtain ⟨c, hc, rfl⟩ := List.mem_map.mp h
  have hrange := isDigit_toNat (Nat.isDigit_of_mem_toDigits (by decide) (by decide) hc)
  simp only [Nat.toUInt8, UInt8.toNat_ofNat']
  omega

theorem decimal_decimalDigits (n : Nat) : decimal (decimalDigits n) = some n := by
  have hne : decimalDigits n ≠ [] := fun h => Nat.toDigits_ne_nil (List.map_eq_nil_iff.mp h)
  have hvalue : ∀ (l : List Char), (∀ c ∈ l, 48 ≤ c.toNat ∧ c.toNat ≤ 57) → ∀ m,
      (ascii l).foldl (fun n b => 10 * n + (b.toNat - 48)) m = Nat.ofDigitChars 10 l m := by
    intro l hl
    induction l with
    | nil => exact fun m => rfl
    | cons c l ih =>
        intro m
        obtain ⟨hc, hl⟩ := List.forall_mem_cons.mp hl
        have hcode : c.toNat.toUInt8.toNat = c.toNat := by
          simp only [Nat.toUInt8, UInt8.toNat_ofNat']
          omega
        calc (ascii (c :: l)).foldl (fun n b => 10 * n + (b.toNat - 48)) m
            = (ascii l).foldl (fun n b => 10 * n + (b.toNat - 48))
                (10 * m + (c.toNat.toUInt8.toNat - 48)) := rfl
          _ = Nat.ofDigitChars 10 l (10 * m + (c.toNat - 48)) := by rw [hcode, ih hl]
  have hdigits : (decimalDigits n).all (fun b => 48 ≤ b.toNat ∧ b.toNat ≤ 57) = true :=
    List.all_eq_true.mpr fun b hb => decide_eq_true (decimalDigits_range hb)
  rw [decimal, if_pos ⟨hne, hdigits⟩, decimalDigits,
    hvalue _ fun c hc => isDigit_toNat (Nat.isDigit_of_mem_toDigits (by decide) (by decide) hc),
    Nat.ofDigitChars_ten_toDigits]

theorem atoi_decimalDigits_filter (n : Nat) : atoi (decimalDigits n) =
    ((some n).filter (· < 9223372036854775808)).map fun n : Nat => (n : Int) := by
  have hhead : ∀ b : UInt8, b.toNat < 48 → (decimalDigits n).head? ≠ some b := by
    intro b hb hsome
    have hrange := decimalDigits_range (List.mem_of_mem_head? hsome)
    omega
  rw [atoi, if_neg (hhead 45 (by decide))]
  dsimp only
  rw [if_neg (hhead 43 (by decide)), decimal_decimalDigits]

theorem atoi_decimalDigits (h : n < 9223372036854775808) :
    atoi (decimalDigits n) = some (n : Int) := by
  rw [atoi_decimalDigits_filter, Option.filter_some, if_pos (decide_eq_true h)]
  rfl

theorem eq_of_atoi_decimalDigits {i : Int} (h : atoi (decimalDigits n) = some i) : i = n := by
  rw [atoi_decimalDigits_filter] at h
  obtain ⟨n', hn', rfl⟩ := Option.map_eq_some_iff.mp h
  cases (Option.filter_eq_some_iff.mp hn').1
  rfl

theorem atoi_lt {value : Bytes} {i : Int} (h : atoi value = some i) : i < 9223372036854775808 := by
  rw [atoi] at h
  split at h
  · obtain ⟨n, -, rfl⟩ := Option.map_eq_some_iff.mp h
    omega
  · obtain ⟨n, hn, rfl⟩ := Option.map_eq_some_iff.mp h
    have := (Option.filter_eq_some_iff.mp hn).2
    rw [decide_eq_true_eq] at this
    omega

/-! Ranges of members. -/

def memberName : Bytes := ascii "member".toList

def rangeOpening : Bytes := ascii "member;range=".toList

def rangeName (first last : Bytes) : Bytes := rangeOpening ++ (first ++ 45 :: last)

def groupClass : Bytes := ascii "(&(objectClass=group)".toList

namespace LdapLibrary

variable (lib : LdapLibrary)

/-- An attribute with members. An empty plain one may stand beside a range. -/
def holdsMembers (attr : EntryAttribute) : Bool :=
  let name := lib.toLower attr.name
  (name = memberName || rangeOpening.isPrefixOf name) &&
    !(name = memberName && attr.values = [])

def findMembers (found : Option EntryAttribute) (attr : EntryAttribute) :
    Except ReadError (Option EntryAttribute) :=
  if lib.holdsMembers attr then
    if found = none then .ok (some attr)
    else .error (.invalid "directory returned ambiguous member ranges")
  else .ok found

def rangeParts (attr : EntryAttribute) : List Bytes :=
  ((lib.toLower attr.name).drop rangeOpening.length).splitOn 45

/-- What an attribute gives for the range that starts here, and whether it is the last one. -/
def attributeRange (attr : EntryAttribute) (start : Nat) :
    Except ReadError (List Bytes × Bool) :=
  if lib.toLower attr.name = memberName then do
    ensure (start = 0) (.invalid "directory member range restarted")
    pure (attr.values, true)
  else do
    ensure ((lib.rangeParts attr).length = 2) (.invalid "directory member range is malformed")
    let firstPart ← need (lib.rangeParts attr)[0]? .outOfRange
    ensure (atoi firstPart = some (start : Int)) (.invalid "directory member range has a gap")
    let lastPart ← need (lib.rangeParts attr)[1]? .outOfRange
    if lastPart = [42] then pure (attr.values, true)
    else
      let last ← need (atoi lastPart) (.invalid "directory member range is incomplete")
      ensure ((start : Int) ≤ last ∧
          (last - start + 1).bmod 18446744073709551616 = attr.values.length ∧
          attr.values.length ≠ 0)
        (.invalid "directory member range is incomplete")
      pure (attr.values, false)

def memberRange (entry : Entry) (start : Nat) : Except ReadError (List Bytes × Bool) := do
  let found ← entry.attributes.foldlM lib.findMembers none
  match found with
  | none =>
      ensure (start = 0) (.invalid "directory member range is missing")
      pure ([], true)
  | some attr => lib.attributeRange attr start

/-- What an entry says of its members from a position on, and whether they are all. -/
inductive RangeOf (entry : Entry) : Nat → List Bytes → Bool → Prop
  | absent : (∀ attr ∈ entry.attributes, lib.holdsMembers attr = false) → RangeOf entry 0 [] true
  | plain {attr : EntryAttribute} : attr ∈ entry.attributes → lib.holdsMembers attr = true →
      lib.toLower attr.name = memberName → RangeOf entry 0 attr.values true
  | bounded {attr : EntryAttribute} {f l : Bytes} {first : Nat} {last : Int} :
      attr ∈ entry.attributes → lib.holdsMembers attr = true →
      lib.toLower attr.name ≠ memberName → lib.rangeParts attr = [f, l] →
      atoi f = some (first : Int) → l ≠ [42] → atoi l = some last →
      last - first + 1 = attr.values.length → attr.values ≠ [] →
      RangeOf entry first attr.values false
  | terminal {attr : EntryAttribute} {f : Bytes} {first : Nat} :
      attr ∈ entry.attributes → lib.holdsMembers attr = true →
      lib.toLower attr.name ≠ memberName → lib.rangeParts attr = [f, [42]] →
      atoi f = some (first : Int) → RangeOf entry first attr.values true

variable {lib}

/-- The loop finds the only attribute with members, if there is one. -/
theorem foldlM_findMembers_iff {attrs : List EntryAttribute}
    {found found' : Option EntryAttribute} : attrs.foldlM lib.findMembers found = .ok found' ↔
      found'.toList = found.toList ++ attrs.filter lib.holdsMembers := by
  induction attrs generalizing found with
  | nil =>
      rw [List.foldlM_nil, pure_ok_iff, List.filter_nil, List.append_nil]
      cases found <;> cases found' <;> simp [eq_comm]
  | cons attr attrs ih =>
      rw [List.foldlM_cons, findMembers]
      cases hholds : lib.holdsMembers attr with
      | false =>
          rw [if_neg Bool.false_ne_true, ok_bind, ih, List.filter_cons_of_neg (by simp [hholds])]
      | true =>
          rw [if_pos rfl, List.filter_cons_of_pos hholds]
          cases found with
          | none => rw [if_pos rfl, ok_bind, ih, Option.toList_none, Option.toList_some]; rfl
          | some other =>
              rw [if_neg (by simp), error_bind]
              constructor
              · exact fun h => by cases h
              · intro h
                have hlength := congrArg List.length h
                have hle : found'.toList.length ≤ 1 := by cases found' <;> simp
                simp only [Option.toList_some, List.length_append, List.length_cons,
                  List.length_nil] at hlength
                omega

theorem foldlM_findMembers_inRange (attrs : List EntryAttribute) (found : Option EntryAttribute) :
    attrs.foldlM lib.findMembers found ≠ .error .outOfRange := by
  induction attrs generalizing found with
  | nil => simp [pure_error_iff]
  | cons attr attrs ih =>
      rw [List.foldlM_cons, Ne, bind_error_iff]
      rintro (h | ⟨next, -, h⟩)
      · rw [findMembers] at h
        split at h
        · split at h <;> cases h
        · cases h
      · exact ih next h

theorem attributeRange_inRange (attr : EntryAttribute) (start : Nat) :
    lib.attributeRange attr start ≠ .error .outOfRange := by
  intro h
  rw [attributeRange] at h
  split at h
  · simp only [bind_error_iff, ensure_error_iff, pure_error_iff, reduceCtorEq, and_false,
      exists_false, or_false] at h
  · simp only [bind_error_iff, ensure_error_iff, ensure_ok_iff, need_error_iff, need_ok_iff,
      reduceCtorEq, and_false, and_true, false_or, List.getElem?_eq_none_iff] at h
    obtain ⟨-, hparts, h | ⟨firstPart, -, -, -, h | ⟨lastPart, -, h⟩⟩⟩ := h
    · omega
    · omega
    · split at h
      · rw [pure_error_iff] at h
        exact h
      · simp only [bind_error_iff, need_error_iff, ensure_error_iff, pure_error_iff, reduceCtorEq,
          and_false, exists_false, or_false] at h

theorem memberRange_inRange (entry : Entry) (start : Nat) :
    lib.memberRange entry start ≠ .error .outOfRange := by
  rw [memberRange, Ne, bind_error_iff]
  rintro (h | ⟨found, -, h⟩)
  · exact foldlM_findMembers_inRange _ _ h
  · cases found with
    | none =>
        simp only [bind_error_iff, ensure_error_iff, pure_error_iff, reduceCtorEq, and_false,
          exists_false, or_false] at h
    | some attr => exact attributeRange_inRange attr start h

theorem bmod_count {last : Int} {count : Nat} (hle : (start : Int) ≤ last)
    (hlast : last < 9223372036854775808)
    (h : (last - start + 1).bmod 18446744073709551616 = count) : last - start + 1 = count := by
  rw [Int.bmod_def] at h
  split at h <;> omega

theorem memberRange_ok {last : Bool} (h : lib.memberRange entry start = .ok (values, last)) :
    lib.RangeOf entry start values last := by
  rw [memberRange, bind_ok_iff] at h
  obtain ⟨found, hfound, h⟩ := h
  rw [foldlM_findMembers_iff, Option.toList_none, List.nil_append] at hfound
  cases found with
  | none =>
      simp only [bind_ok_iff, ensure_ok_iff, pure_ok_iff, Prod.mk.injEq] at h
      obtain ⟨-, rfl, rfl, rfl⟩ := h
      refine .absent fun attr hattr => ?_
      have hnone := List.filter_eq_nil_iff.mp hfound.symm attr hattr
      exact Bool.eq_false_of_not_eq_true hnone
  | some attr =>
      obtain ⟨hattr, hholds⟩ : attr ∈ entry.attributes ∧ lib.holdsMembers attr = true := by
        refine List.mem_filter.mp ?_
        rw [← hfound]
        exact List.mem_singleton.mpr rfl
      dsimp only at h
      rw [attributeRange] at h
      split at h
      · rename_i hplain
        simp only [bind_ok_iff, ensure_ok_iff, pure_ok_iff, Prod.mk.injEq] at h
        obtain ⟨-, rfl, rfl, rfl⟩ := h
        exact .plain hattr hholds hplain
      · rename_i hplain
        simp only [bind_ok_iff, ensure_ok_iff, need_ok_iff] at h
        obtain ⟨-, hlength, f, hf, -, hfirst, l, hl, h⟩ := h
        obtain ⟨f', l', hparts⟩ := List.length_eq_two.mp hlength
        rw [hparts] at hf hl
        cases hf
        cases hl
        split at h
        · rename_i hstar
          rw [pure_ok_iff, Prod.mk.injEq] at h
          obtain ⟨rfl, rfl⟩ := h
          exact .terminal hattr hholds hplain (hstar ▸ hparts) hfirst
        · rename_i hstar
          simp only [bind_ok_iff, ensure_ok_iff, need_ok_iff, pure_ok_iff, Prod.mk.injEq] at h
          obtain ⟨number, hnumber, -, ⟨hle, hcount, hne⟩, rfl, rfl⟩ := h
          exact .bounded hattr hholds hplain hparts hfirst hstar hnumber
            (bmod_count hle (atoi_lt hnumber) hcount) fun hnil => hne (by rw [hnil]; rfl)

theorem RangeOf.ne_nil (h : lib.RangeOf entry start values false) : values ≠ [] := by
  cases h with
  | bounded _ _ _ _ _ _ _ _ hne => exact hne

/-! Parts of a list of members. -/

variable (lib)

/-- The attribute gives a list of members from `first` up to `stop`, and says whether these are
the last ones. -/
inductive Part (members : List Bytes) (attr : EntryAttribute) : Nat → Nat → Bool → Prop
  | plain : lib.toLower attr.name = memberName → attr.values = members →
      Part members attr 0 members.length true
  | bounded {first last : Nat} : first ≤ last → last < members.length →
      lib.toLower attr.name = rangeName (decimalDigits first) (decimalDigits last) →
      attr.values = (members.drop first).take (last + 1 - first) →
      Part members attr first (last + 1) false
  | terminal {first : Nat} :
      lib.toLower attr.name = rangeName (decimalDigits first) [42] →
      attr.values = members.drop first → Part members attr first members.length true

variable {lib}

theorem decimalDigits_noDash (n : Nat) : ¬(45 : UInt8) ∈ decimalDigits n := by
  intro h
  have hrange := decimalDigits_range h
  revert hrange
  decide

theorem decimalDigits_ne_star (n : Nat) : decimalDigits n ≠ [42] := by
  intro heq
  have hrange := decimalDigits_range (n := n) (b := 42) (heq ▸ List.mem_singleton.mpr rfl)
  revert hrange
  decide

theorem rangeName_ne (f l : Bytes) : rangeName f l ≠ memberName := by
  intro h
  have hlength := congrArg List.length h
  have hopening : rangeOpening.length = 13 := rfl
  have hmember : memberName.length = 6 := rfl
  rw [rangeName, List.length_append, hopening, hmember] at hlength
  omega

theorem rangeParts_of_name {f l : Bytes} (h : lib.toLower attr.name = rangeName f l) (hf : ¬45 ∈ f)
    (hl : ¬45 ∈ l) : lib.rangeParts attr = [f, l] := by
  have hdash : [(45 : UInt8)].intercalate [f, l] = f ++ 45 :: l := by
    simp only [List.intercalate_cons_cons, List.intercalate_singleton, List.append_assoc,
      List.cons_append, List.nil_append]
  rw [rangeParts, h, rangeName, List.drop_left, ← hdash]
  refine List.splitOn_intercalate 45 ?_ (List.cons_ne_nil _ _)
  intro part hpart
  rcases List.mem_cons.mp hpart with rfl | hpart
  · exact hf
  · exact List.mem_singleton.mp hpart ▸ hl

theorem attributeRange_of_parts {f l : Bytes} (hname : lib.toLower attr.name ≠ memberName)
    (hparts : lib.rangeParts attr = [f, l]) (hfirst : atoi f = some (start : Int)) :
    lib.attributeRange attr start =
      (if l = [42] then pure (attr.values, true)
      else do
        let last ← need (atoi l) (.invalid "directory member range is incomplete")
        ensure ((start : Int) ≤ last ∧
            (last - start + 1).bmod 18446744073709551616 = attr.values.length ∧
            attr.values.length ≠ 0)
          (.invalid "directory member range is incomplete")
        pure (attr.values, false)) := by
  have hlength : [f, l].length = 2 := rfl
  have hfirstPart : [f, l][0]? = some f := rfl
  have hlastPart : [f, l][1]? = some l := rfl
  rw [attributeRange, if_neg hname, hparts, ensure_of_true hlength, ok_bind,
    need_of_eq_some hfirstPart, ok_bind, ensure_of_true hfirst, ok_bind,
    need_of_eq_some hlastPart, ok_bind]

theorem Part.attributeRange (h : lib.Part members attr first stop marked) (hlt : first < stop)
    (hsmall : members.length < 9223372036854775808) :
    lib.attributeRange attr first = .ok (attr.values, marked) := by
  cases h with
  | plain hname hvalues => rw [LdapLibrary.attributeRange, if_pos hname, ensure_of_true rfl]; rfl
  | bounded hle hlast hname hvalues =>
      rename_i last
      have hparts := rangeParts_of_name hname (decimalDigits_noDash first)
        (decimalDigits_noDash last)
      have hfirst := atoi_decimalDigits (n := first) (by omega)
      have hnumber := atoi_decimalDigits (n := last) (by omega)
      have hlength : attr.values.length = last + 1 - first := by
        rw [hvalues, List.length_take, List.length_drop]
        omega
      have hcount : ((last : Int) - first + 1).bmod 18446744073709551616 = attr.values.length := by
        rw [hlength, Int.bmod_eq_of_le (by omega) (by omega)]
        omega
      rw [attributeRange_of_parts (hname ▸ rangeName_ne _ _) hparts hfirst,
        if_neg (decimalDigits_ne_star last), need_of_eq_some hnumber, ok_bind,
        ensure_of_true ⟨by omega, hcount, by omega⟩]
      rfl
  | terminal hname hvalues =>
      have hparts := rangeParts_of_name hname (decimalDigits_noDash first) (by decide)
      have hfirst := atoi_decimalDigits (n := first) (by omega)
      rw [attributeRange_of_parts (hname ▸ rangeName_ne _ _) hparts hfirst, if_pos rfl]
      rfl

theorem Part.values_eq (h : lib.Part members attr first stop marked) :
    attr.values = (members.drop first).take (stop - first) := by
  cases h with
  | plain _ hvalues => rw [hvalues, Nat.sub_zero, List.drop_zero, List.take_length]
  | bounded _ _ _ hvalues => exact hvalues
  | terminal _ hvalues =>
      rw [hvalues, List.take_of_length_le]
      rw [List.length_drop]

theorem Part.stop_le (h : lib.Part members attr first stop marked) : stop ≤ members.length := by
  cases h with
  | plain | terminal => exact Nat.le_refl _
  | bounded _ hlast => exact hlast

/-- A range of an entry whose attributes give parts of a list is a part of this list, and its
whole rest if it is marked as the last one. -/
theorem RangeOf.of_parts {names : List Bytes} {last : Bool}
    (h : lib.RangeOf entry start values last)
    (hparts : ∀ attr ∈ entry.attributes, lib.holdsMembers attr = true →
      ∃ first stop marked, lib.Part names attr first stop marked) (habsent : start = 0 →
      (∀ attr ∈ entry.attributes, lib.holdsMembers attr = false) → names = []) :
    values <+: names.drop start ∧ (last = true → values = names.drop start) := by
  cases h with
  | absent hnone => simp [habsent rfl hnone]
  | plain hattr hholds hname =>
      obtain ⟨first, stop, marked, hpart⟩ := hparts _ hattr hholds
      cases hpart with
      | plain _ hvalues => rw [hvalues, List.drop_zero]; exact ⟨List.prefix_rfl, fun _ => rfl⟩
      | bounded _ _ hrange => exact absurd (hrange.symm.trans hname) (rangeName_ne _ _)
      | terminal hrange => exact absurd (hrange.symm.trans hname) (rangeName_ne _ _)
  | bounded hattr hholds hname hsplit hfirst hstar _ _ _ =>
      obtain ⟨first, stop, marked, hpart⟩ := hparts _ hattr hholds
      cases hpart with
      | plain hplain => exact absurd hplain hname
      | bounded _ _ hrange hvalues =>
          rw [rangeParts_of_name hrange (decimalDigits_noDash _) (decimalDigits_noDash _)] at hsplit
          cases hsplit
          obtain rfl := Int.ofNat.inj (eq_of_atoi_decimalDigits hfirst)
          rw [hvalues]
          exact ⟨List.take_prefix _ _, fun hlast => by cases hlast⟩
      | terminal hrange =>
          rw [rangeParts_of_name hrange (decimalDigits_noDash _) (by decide)] at hsplit
          cases hsplit
          exact absurd rfl hstar
  | terminal hattr hholds hname hsplit hfirst =>
      obtain ⟨first, stop, marked, hpart⟩ := hparts _ hattr hholds
      cases hpart with
      | plain hplain => exact absurd hplain hname
      | bounded _ _ hrange =>
          rw [rangeParts_of_name hrange (decimalDigits_noDash _) (decimalDigits_noDash _)] at hsplit
          injection hsplit with _ hsplit
          injection hsplit with hsplit _
          exact absurd hsplit (decimalDigits_ne_star _)
      | terminal hrange hvalues =>
          rw [rangeParts_of_name hrange (decimalDigits_noDash _) (by decide)] at hsplit
          cases hsplit
          obtain rfl := Int.ofNat.inj (eq_of_atoi_decimalDigits hfirst)
          rw [hvalues]
          exact ⟨List.prefix_rfl, fun _ => rfl⟩

end LdapLibrary

end JobmanControl.Directory
