import JobmanControl.Directory.Names
import JobmanControl.Library.Transaction

/-!
The bytes a directory server sends. A response is checked before the LDAP library sees it:
its elements have one-octet tags and definite lengths, they are nested at most 16 deep and
there are at most 16384 of them.
-/

namespace JobmanControl.Directory

open Relational

inductive FrameError
  | invalid (message : String)
  /-- An index or a slice outside of its bounds. -/
  | outOfRange
  /-- The reader below has failed or has ended. -/
  | stream
  deriving DecidableEq, Repr

def maximumDirectoryBytes : Nat := 33554432

def maximumDirectoryPacket : Nat := 2097152

def index (data : Bytes) (i : Nat) : Except FrameError UInt8 := need data[i]? .outOfRange

def slice (data : Bytes) (i j : Nat) : Except FrameError Bytes := do
  ensure (i ≤ j ∧ j ≤ data.length) .outOfRange
  pure ((data.take j).drop i)

def appendOctet (length : Nat) (value : UInt8) : Except FrameError Nat := do
  ensure (length ≤ maximumDirectoryPacket >>> 8)
    (.invalid "directory response exceeds packet bound")
  pure (length <<< 8 ||| value.toNat)

/-- The length of the contents and the offset they start at. -/
def directoryBERLength (data : Bytes) : Except FrameError (Nat × Nat) := do
  ensure (2 ≤ data.length) (.invalid "directory response tag is invalid")
  let tag ← index data 0
  ensure (tag &&& 0x1f ≠ 0x1f) (.invalid "directory response tag is invalid")
  let first ← index data 1
  if first &&& 0x80 = 0 then pure (first.toNat, 2)
  else
    let count := (first &&& 0x7f).toNat
    ensure (1 ≤ count ∧ count ≤ 4 ∧ 2 + count ≤ data.length)
      (.invalid "directory response length is invalid")
    let octets ← slice data 2 (2 + count)
    let length ← octets.foldlM appendOctet 0
    pure (length, 2 + count)

/-- The first element of the data: its tag, its contents and what follows it. -/
def readElement (data : Bytes) : Except FrameError (UInt8 × Bytes × Bytes) := do
  let (length, offset) ← directoryBERLength data
  ensure ((length : Int) ≤ (data.length : Int) - offset)
    (.invalid "directory response crosses a packet boundary")
  let tag ← index data 0
  let content ← slice data offset (offset + length)
  let rest ← slice data (offset + length) data.length
  pure (tag, content, rest)

variable {data header rest content : Bytes} {i n depth nodes : Nat} {tag : UInt8}

theorem index_ok_iff {b : UInt8} : index data i = .ok b ↔ data[i]? = some b := by
  rw [index, need_ok_iff]

theorem slice_ok_iff {j : Nat} {part : Bytes} :
    slice data i j = .ok part ↔ i ≤ j ∧ j ≤ data.length ∧ part = (data.take j).drop i := by
  simp only [slice, bind_ok_iff, ensure_ok_iff, pure_ok_iff]
  constructor
  · rintro ⟨_, ⟨hij, hj⟩, rfl⟩
    exact ⟨hij, hj, rfl⟩
  · rintro ⟨hij, hj, rfl⟩
    exact ⟨(), ⟨hij, hj⟩, rfl⟩

/-! What the bytes have to be. -/

def bigEndian (octets : Bytes) : Nat := octets.foldl (fun n b => 256 * n + b.toNat) 0

/-- Octets that give a definite length: one in short form, or their number and one to four
in long form. -/
inductive DefiniteLength : Bytes → Nat → Prop
  | short (b : UInt8) : b.toNat < 128 → DefiniteLength [b] b.toNat
  | long (b : UInt8) (octets : Bytes) : 1 ≤ octets.length → octets.length ≤ 4 →
      b.toNat = 128 + octets.length → DefiniteLength (b :: octets) (bigEndian octets)

def SingleOctetTag (tag : UInt8) : Prop := tag &&& 0x1f ≠ 0x1f

def Constructed (tag : UInt8) : Prop := tag &&& 0x20 ≠ 0

instance (tag : UInt8) : Decidable (Constructed tag) := inferInstanceAs (Decidable (_ ≠ _))

/-- The data is a concatenation of elements: how many there are in all, and how many
constructed ones are nested in one another. -/
inductive Elements : Nat → Nat → Bytes → Prop
  | nil : Elements 0 0 []
  | primitive {n d : Nat} {tag : UInt8} {header content rest : Bytes} : SingleOctetTag tag →
      ¬Constructed tag → DefiniteLength header content.length → Elements n d rest →
      Elements (1 + n) d (tag :: (header ++ (content ++ rest)))
  | constructed {m e n d : Nat} {tag : UInt8} {header content rest : Bytes} :
      SingleOctetTag tag → Constructed tag → DefiniteLength header content.length →
      Elements m e content → Elements n d rest →
      Elements (1 + m + n) (max (e + 1) d) (tag :: (header ++ (content ++ rest)))

/-! Lengths. -/

theorem appendOctet_ok_iff {length : Nat} {b : UInt8} :
    appendOctet n b = .ok length ↔ n ≤ 8192 ∧ length = 256 * n + b.toNat := by
  have hvalue : n <<< 8 ||| b.toNat = 256 * n + b.toNat := by
    rw [← Nat.shiftLeft_add_eq_or_of_lt b.toNat_lt, Nat.shiftLeft_eq]
    omega
  have hbound : maximumDirectoryPacket >>> 8 = 8192 := rfl
  simp only [appendOctet, bind_ok_iff, ensure_ok_iff, pure_ok_iff, hbound, hvalue, exists_const]
  rw [eq_comm (a := length)]

theorem le_foldl_octets (octets : Bytes) (n : Nat) :
    n ≤ octets.foldl (fun n b => 256 * n + b.toNat) n := by
  induction octets generalizing n with
  | nil => exact Nat.le_refl n
  | cons b octets ih =>
      have hrest := ih (256 * n + b.toNat)
      rw [List.foldl_cons]
      omega

theorem foldlM_appendOctet {octets : Bytes} {length : Nat}
    (h : octets.foldlM appendOctet n = .ok length) :
    length = octets.foldl (fun n b => 256 * n + b.toNat) n := by
  induction octets generalizing n with
  | nil =>
      rw [List.foldlM_nil, pure_ok_iff] at h
      exact h.symm
  | cons b octets ih =>
      simp only [List.foldlM_cons, bind_ok_iff, appendOctet_ok_iff] at h
      obtain ⟨next, ⟨-, rfl⟩, hrest⟩ := h
      exact ih hrest

theorem foldlM_appendOctet_of_le {octets : Bytes}
    (h : octets.foldl (fun n b => 256 * n + b.toNat) n ≤ maximumDirectoryPacket) :
    octets.foldlM appendOctet n = .ok (octets.foldl (fun n b => 256 * n + b.toNat) n) := by
  induction octets generalizing n with
  | nil => rfl
  | cons b octets ih =>
      rw [List.foldl_cons] at h ⊢
      have hbound : n ≤ 8192 := by
        have hrest := le_foldl_octets octets (256 * n + b.toNat)
        unfold maximumDirectoryPacket at h
        omega
      rw [List.foldlM_cons, bind_ok_iff]
      exact ⟨_, appendOctet_ok_iff.mpr ⟨hbound, rfl⟩, ih h⟩

theorem shortForm_iff (b : UInt8) : b &&& 0x80 = 0 ↔ b.toNat < 128 := by
  have hall : ∀ v : BitVec 8, v &&& 0x80 = 0 ↔ v.toNat < 128 := by decide
  rw [← UInt8.toBitVec_inj]
  exact hall b.toBitVec

theorem longForm_count (b : UInt8) : (b &&& 0x7f).toNat = b.toNat % 128 :=
  (UInt8.toNat_and b 0x7f).trans (Nat.and_two_pow_sub_one_eq_mod b.toNat 7)

theorem DefiniteLength.length_pos (h : DefiniteLength header n) : 1 ≤ header.length := by
  cases h with
  | short | long => exact Nat.succ_le_succ (Nat.zero_le _)

theorem directoryBERLength_of_definite (htag : SingleOctetTag tag) (h : DefiniteLength header n)
    (hn : n ≤ maximumDirectoryPacket) :
    directoryBERLength (tag :: (header ++ rest)) = .ok (n, 1 + header.length) := by
  have hlength : 2 ≤ (tag :: (header ++ rest)).length := by
    have := h.length_pos
    simp only [List.length_cons, List.length_append]
    omega
  have htag' : tag &&& 0x1f ≠ 0x1f := htag
  rw [directoryBERLength, ensure_of_true hlength, ok_bind, index_ok_iff.mpr rfl, ok_bind,
    ensure_of_true htag', ok_bind]
  cases h with
  | short b hb =>
      rw [index_ok_iff.mpr rfl, ok_bind, if_pos ((shortForm_iff b).mpr hb)]
      rfl
  | long b octets hmin hmax hb =>
      have hcount : (b &&& 0x7f).toNat = octets.length := by
        rw [longForm_count]
        omega
      have hlong : ¬b &&& 0x80 = 0 := by
        rw [shortForm_iff]
        omega
      have hfits : 1 ≤ octets.length ∧ octets.length ≤ 4 ∧
          2 + octets.length ≤ (tag :: (b :: octets ++ rest)).length := by
        refine ⟨hmin, hmax, ?_⟩
        simp only [List.cons_append, List.length_cons, List.length_append]
        omega
      have hoctets : slice (tag :: (b :: octets ++ rest)) 2 (2 + octets.length) = .ok octets := by
        refine slice_ok_iff.mpr ⟨by omega, hfits.2.2, ?_⟩
        rw [Nat.add_comm]
        simp
      rw [index_ok_iff.mpr rfl, ok_bind, if_neg hlong]
      dsimp only
      rw [hcount, ensure_of_true hfits, ok_bind, hoctets, ok_bind, foldlM_appendOctet_of_le hn,
        ok_bind, List.length_cons]
      exact congrArg (fun k => Except.ok (bigEndian octets, k)) (by omega)

theorem directoryBERLength_ok {offset : Nat} (h : directoryBERLength data = .ok (n, offset)) :
    ∃ tag header rest, data = tag :: (header ++ rest) ∧ SingleOctetTag tag ∧
      DefiniteLength header n ∧ offset = 1 + header.length := by
  simp only [directoryBERLength, bind_ok_iff, ensure_ok_iff, index_ok_iff] at h
  obtain ⟨-, hlength, tag, htag, -, hsingle, first, hfirst, h⟩ := h
  obtain ⟨tag', first', tail, rfl⟩ : ∃ tag' first' tail, data = tag' :: first' :: tail := by
    cases data with
    | nil => cases htag
    | cons tag' data =>
        cases data with
        | nil => cases hfirst
        | cons first' tail => exact ⟨tag', first', tail, rfl⟩
  cases htag
  cases hfirst
  split at h
  · rename_i hshort
    rw [pure_ok_iff, Prod.mk.injEq] at h
    obtain ⟨rfl, rfl⟩ := h
    exact ⟨tag, [first], tail, rfl, hsingle, .short first ((shortForm_iff first).mp hshort), rfl⟩
  · rename_i hlong
    simp only [bind_ok_iff, ensure_ok_iff, slice_ok_iff, pure_ok_iff, Prod.mk.injEq] at h
    obtain ⟨-, ⟨hmin, hmax, hfits⟩, octets, ⟨-, -, hoctets⟩, length, hvalue, rfl, rfl⟩ := h
    have hcount := longForm_count first
    rw [shortForm_iff] at hlong
    have hoctets' : octets = tail.take (first &&& 0x7f).toNat := by
      rw [hoctets, Nat.add_comm]
      simp
    have hlengthOctets : octets.length = (first &&& 0x7f).toNat := by
      rw [hoctets', List.length_take]
      simp only [List.length_cons] at hfits
      omega
    have hfirst : first.toNat = 128 + octets.length := by
      have := first.toNat_lt
      omega
    refine ⟨tag, first :: octets, tail.drop octets.length, ?_, hsingle, ?_, ?_⟩
    · rw [hlengthOctets, hoctets', List.cons_append, List.take_append_drop]
    · rw [foldlM_appendOctet hvalue]
      exact .long first octets (by omega) (by omega) hfirst
    · rw [List.length_cons]
      omega

theorem slice_content (tag : UInt8) (header tail : Bytes) (n : Nat) :
    ((tag :: (header ++ tail)).take (1 + header.length + n)).drop (1 + header.length) =
      tail.take n := by
  rw [List.drop_take, Nat.add_sub_cancel_left, Nat.add_comm 1, List.drop_succ_cons, List.drop_left]

theorem slice_rest (tag : UInt8) (header tail : Bytes) (n : Nat) :
    ((tag :: (header ++ tail)).take (tag :: (header ++ tail)).length).drop
      (1 + header.length + n) = tail.drop n := by
  rw [List.take_length, ← List.drop_drop, Nat.add_comm 1, List.drop_succ_cons, List.drop_left]

theorem readElement_ok (h : readElement data = .ok (tag, content, rest)) :
    ∃ header, data = tag :: (header ++ (content ++ rest)) ∧ SingleOctetTag tag ∧
      DefiniteLength header content.length := by
  simp only [readElement, bind_ok_iff, ensure_ok_iff, index_ok_iff, slice_ok_iff, pure_ok_iff,
    Prod.exists, Prod.mk.injEq] at h
  obtain ⟨n, offset, hread, -, hfits, tag', htag, content', ⟨-, hend, hcontent⟩, rest',
    ⟨-, -, hrest⟩, rfl, rfl, rfl⟩ := h
  obtain ⟨tag, header, tail, rfl, hsingle, hlength, rfl⟩ := directoryBERLength_ok hread
  cases htag
  rw [slice_content] at hcontent
  rw [slice_rest] at hrest
  have hn : content'.length = n := by
    rw [hcontent, List.length_take]
    simp only [List.length_cons, List.length_append] at hend
    omega
  refine ⟨header, ?_, hsingle, hn.symm ▸ hlength⟩
  rw [hcontent, hrest, List.take_append_drop]

theorem readElement_of_definite (htag : SingleOctetTag tag)
    (h : DefiniteLength header content.length) (hlength : content.length ≤ maximumDirectoryPacket) :
    readElement (tag :: (header ++ (content ++ rest))) = .ok (tag, content, rest) := by
  rw [readElement, directoryBERLength_of_definite htag h hlength, ok_bind]
  dsimp only
  rw [ensure_of_true, ok_bind, index_ok_iff.mpr rfl, ok_bind]
  · refine (bind_ok_iff _ _ _).mpr ⟨content, slice_ok_iff.mpr ⟨by omega, ?_, ?_⟩,
      (bind_ok_iff _ _ _).mpr ⟨rest, slice_ok_iff.mpr ⟨?_, Nat.le_refl _, ?_⟩, rfl⟩⟩
    · simp only [List.length_cons, List.length_append]
      omega
    · rw [slice_content, List.take_left]
    · simp only [List.length_cons, List.length_append]
      omega
    · rw [slice_rest, List.drop_left]
  · simp only [List.length_cons, List.length_append]
    omega

theorem readElement_shorter (h : readElement data = .ok (tag, content, rest)) :
    content.length < data.length ∧ rest.length < data.length := by
  obtain ⟨header, rfl, -, -⟩ := readElement_ok h
  simp only [List.length_cons, List.length_append]
  omega

def validateDirectoryBER (data : Bytes) (depth nodes : Nat) : Except FrameError Nat :=
  if 16 < depth then .error (.invalid "directory response nesting exceeds bound")
  else if data = [] then .ok nodes
  else if 16384 < nodes + 1 then
    .error (.invalid "directory response element count exceeds bound")
  else
    match helement : readElement data with
    | .error error => .error error
    | .ok (tag, content, rest) =>
        have := readElement_shorter helement
        let inner :=
          if tag &&& 0x20 ≠ 0 then validateDirectoryBER content (depth + 1) (nodes + 1)
          else .ok (nodes + 1)
        match inner with
        | .error error => .error error
        | .ok nodes => validateDirectoryBER rest depth nodes
termination_by data.length

theorem validateDirectoryBER_element (hdepth : depth ≤ 16) (hdata : data ≠ [])
    (hnodes : nodes < 16384) (h : readElement data = .ok (tag, content, rest)) :
    validateDirectoryBER data depth nodes =
      (if Constructed tag then validateDirectoryBER content (depth + 1) (nodes + 1)
        else .ok (nodes + 1)) >>= validateDirectoryBER rest depth := by
  rw [validateDirectoryBER, if_neg (by omega), if_neg hdata, if_neg (by omega)]
  split
  · rename_i error herror
    cases herror.symm.trans h
  · rename_i tag' content' rest' helement
    cases helement.symm.trans h
    by_cases htag : Constructed tag
    · have hbit : tag &&& 0x20 ≠ 0 := htag
      rw [if_pos htag]
      dsimp only
      rw [if_pos hbit]
      cases validateDirectoryBER content (depth + 1) (nodes + 1) <;> rfl
    · have hbit : ¬tag &&& 0x20 ≠ 0 := htag
      rw [if_neg htag]
      dsimp only
      rw [if_neg hbit]
      rfl

theorem Elements.validate {d : Nat} (h : Elements n d data)
    (hlength : data.length ≤ maximumDirectoryPacket) (hdepth : depth + d ≤ 16)
    (hnodes : nodes + n ≤ 16384) : validateDirectoryBER data depth nodes = .ok (nodes + n) := by
  induction h generalizing depth nodes with
  | nil => rw [validateDirectoryBER, if_neg (by omega), if_pos rfl, Nat.add_zero]
  | primitive htag hprimitive hheader hrest ih =>
      simp only [List.length_cons, List.length_append] at hlength
      rw [validateDirectoryBER_element (by omega) (List.cons_ne_nil _ _) (by omega)
        (readElement_of_definite htag hheader (by omega)), if_neg hprimitive, ok_bind,
        ih (by omega) hdepth (by omega), Nat.add_assoc]
  | constructed htag hconstructed hheader hcontent hrest ihcontent ihrest =>
      simp only [List.length_cons, List.length_append] at hlength
      rw [validateDirectoryBER_element (by omega) (List.cons_ne_nil _ _) (by omega)
        (readElement_of_definite htag hheader (by omega)), if_pos hconstructed,
        ihcontent (by omega) (by omega) (by omega), ok_bind,
        ihrest (by omega) (by omega) (by omega)]
      exact congrArg Except.ok (by omega)

theorem validateDirectoryBER_elements (data : Bytes) {nodes' : Nat} (hnodes : nodes ≤ 16384)
    (h : validateDirectoryBER data depth nodes = .ok nodes') :
    ∃ n d, Elements n d data ∧ nodes' = nodes + n ∧ depth + d ≤ 16 ∧ nodes + n ≤ 16384 := by
  -- Contents and rest are both shorter than the data they are part of.
  induction hsize : data.length using Nat.strongRecOn generalizing data depth nodes nodes' with
  | ind size ih =>
      by_cases hdepth : 16 < depth
      · rw [validateDirectoryBER, if_pos hdepth] at h
        cases h
      by_cases hdata : data = []
      · subst hdata
        rw [validateDirectoryBER, if_neg hdepth, if_pos rfl] at h
        cases h
        exact ⟨0, 0, .nil, rfl, by omega, hnodes⟩
      by_cases hcount : 16384 < nodes + 1
      · rw [validateDirectoryBER, if_neg hdepth, if_neg hdata, if_pos hcount] at h
        cases h
      cases helement : readElement data with
      | error error =>
          rw [validateDirectoryBER, if_neg hdepth, if_neg hdata, if_neg hcount] at h
          split at h
          · cases h
          · rename_i hok
            cases helement.symm.trans hok
      | ok element =>
          obtain ⟨tag, content, rest⟩ := element
          rw [validateDirectoryBER_element (by omega) hdata (by omega) helement, bind_ok_iff] at h
          obtain ⟨between, hinner, hrest⟩ := h
          obtain ⟨hcontentSize, hrestSize⟩ := readElement_shorter helement
          obtain ⟨header, rfl, htag, hheader⟩ := readElement_ok helement
          split at hinner
          · rename_i hconstructed
            obtain ⟨m, e, hcontent, rfl, hdepthContent, hnodesContent⟩ :=
              ih _ (hsize ▸ hcontentSize) content (by omega) hinner rfl
            obtain ⟨n, d, htail, rfl, hdepthRest, hnodesRest⟩ :=
              ih _ (hsize ▸ hrestSize) rest (by omega) hrest rfl
            exact ⟨_, _, .constructed htag hconstructed hheader hcontent htail, by omega, by omega,
              by omega⟩
          · rename_i hprimitive
            cases hinner
            obtain ⟨n, d, htail, rfl, hdepthRest, hnodesRest⟩ :=
              ih _ (hsize ▸ hrestSize) rest (by omega) hrest rfl
            exact ⟨_, _, .primitive htag hprimitive hheader htail, by omega, by omega, by omega⟩

/-- Data of admissible size is accepted exactly if it is a concatenation of elements within
the two bounds. -/
theorem validateDirectoryBER_ok_iff (hlength : data.length ≤ maximumDirectoryPacket) :
    (∃ nodes, validateDirectoryBER data 0 0 = .ok nodes) ↔
      ∃ n d, Elements n d data ∧ n ≤ 16384 ∧ d ≤ 16 := by
  constructor
  · rintro ⟨nodes, h⟩
    obtain ⟨n, d, helements, -, hdepth, hnodes⟩ :=
      validateDirectoryBER_elements data (Nat.zero_le _) h
    exact ⟨n, d, helements, by omega, by omega⟩
  · rintro ⟨n, d, helements, hnodes, hdepth⟩
    exact ⟨0 + n, helements.validate hlength (by omega) (by omega)⟩

/-! No access is out of range. -/

theorem foldlM_appendOctet_inRange (octets : Bytes) (n : Nat) :
    octets.foldlM appendOctet n ≠ .error .outOfRange := by
  induction octets generalizing n with
  | nil => simp only [List.foldlM_nil, ne_eq, pure_error_iff, not_false_eq_true]
  | cons b octets ih =>
      rw [List.foldlM_cons, Ne, bind_error_iff]
      rintro (h | ⟨next, -, h⟩)
      · simp only [appendOctet, bind_error_iff, ensure_error_iff, pure_error_iff, reduceCtorEq,
          and_false, exists_false, or_false] at h
      · exact ih next h

theorem slice_inRange {j : Nat} (hij : i ≤ j) (hj : j ≤ data.length) :
    slice data i j ≠ .error .outOfRange := by
  rw [slice_ok_iff.mpr ⟨hij, hj, rfl⟩]
  exact fun h => by cases h

theorem index_inRange (hi : i < data.length) : index data i ≠ .error .outOfRange := by
  rw [index_ok_iff.mpr (List.getElem?_eq_getElem hi)]
  exact fun h => by cases h

theorem directoryBERLength_inRange (data : Bytes) :
    directoryBERLength data ≠ .error .outOfRange := by
  intro h
  simp only [directoryBERLength, bind_error_iff, ensure_error_iff, ensure_ok_iff, reduceCtorEq,
    and_false, false_or] at h
  obtain ⟨-, hlength, h | ⟨tag, -, -, -, h | ⟨first, -, h⟩⟩⟩ := h
  · exact index_inRange (by omega) h
  · exact index_inRange (by omega) h
  split at h
  · rw [pure_error_iff] at h
    exact h
  · simp only [bind_error_iff, ensure_error_iff, ensure_ok_iff, reduceCtorEq, and_false,
      false_or, pure_error_iff, exists_false, or_false] at h
    obtain ⟨-, ⟨-, -, hfits⟩, h | ⟨octets, -, h⟩⟩ := h
    · exact slice_inRange (by omega) hfits h
    · exact foldlM_appendOctet_inRange octets 0 h

theorem readElement_inRange (data : Bytes) : readElement data ≠ .error .outOfRange := by
  intro h
  rw [readElement, bind_error_iff] at h
  obtain h | ⟨⟨n, offset⟩, hread, h⟩ := h
  · exact directoryBERLength_inRange data h
  obtain ⟨tag, header, rest, rfl, -, -, rfl⟩ := directoryBERLength_ok hread
  simp only [bind_error_iff, ensure_error_iff, ensure_ok_iff, reduceCtorEq, and_false, false_or,
    pure_error_iff, exists_false, or_false] at h
  obtain ⟨-, hfits, h | ⟨-, -, h | ⟨-, -, h⟩⟩⟩ := h
  · exact index_inRange (Nat.zero_lt_succ _) h
  · exact slice_inRange (by omega) (by omega) h
  · exact slice_inRange (by omega) (Nat.le_refl _) h

theorem validateDirectoryBER_inRange (data : Bytes) (depth nodes : Nat) :
    validateDirectoryBER data depth nodes ≠ .error .outOfRange := by
  fun_induction validateDirectoryBER data depth nodes with
  | case1 | case2 | case3 => exact fun h => by cases h
  | case4 data depth nodes hdepth hdata hnodes error herror =>
      intro h
      cases h
      exact readElement_inRange data herror
  | case5 data depth nodes hdepth hdata hnodes tag content rest helement hshorter inner error
      hinner ih =>
      intro h
      cases h
      simp only [inner] at hinner
      split at hinner
      · exact ih hinner
      · cases hinner
  | case6 data depth nodes hdepth hdata hnodes tag content rest helement hshorter inner nodes'
      hinner ihcontent ihrest => exact ihrest

end JobmanControl.Directory
