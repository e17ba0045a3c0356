import JobmanControl.Directory.Framing

/-!
The connection to a directory server. It reads one frame at a time from the transport, checks
it as a whole, takes its size from the budget of the connection and only then hands out its
bytes, in buffers of any size.
-/

namespace JobmanControl.Directory

open Relational

/-- `io.ReadFull`: the `n` bytes at the position the reader has come to, and the position after
them. A byte that never comes is `none`. -/
def readFull (incoming : Nat → Option UInt8) (position n : Nat) :
    Except FrameError (Bytes × Nat) := do
  let bytes ← need ((List.range' position n).mapM incoming) .stream
  pure (bytes, position + n)

/-- The tag and the length octets of the next frame. -/
def readHeader (incoming : Nat → Option UInt8) (budget : Int) (position : Nat) :
    Except FrameError (Bytes × Nat) := do
  ensure (2 ≤ budget) (.invalid "directory response byte budget exhausted")
  let (header, position) ← readFull incoming position 2
  let tag ← index header 0
  ensure (tag = 0x30) (.invalid "directory response is not an LDAP message")
  let first ← index header 1
  if first &&& 0x80 ≠ 0 then
    let count := (first &&& 0x7f).toNat
    ensure (1 ≤ count ∧ count ≤ 4 ∧ 2 + (count : Int) ≤ budget)
      (.invalid "directory response length is invalid")
    let (octets, position) ← readFull incoming position count
    pure (header ++ octets, position)
  else pure (header, position)

def readDirectoryFrame (incoming : Nat → Option UInt8) (budget : Int) (position : Nat) :
    Except FrameError (Bytes × Nat) := do
  let (header, position) ← readHeader incoming budget position
  let (length, offset) ← directoryBERLength header
  ensure ((length : Int) ≤ maximumDirectoryPacket - offset ∧ (length : Int) ≤ budget - offset)
    (.invalid "directory response exceeds byte limit")
  let (content, position) ← readFull incoming position length
  let frame := header.take offset ++ content
  let _ ← validateDirectoryBER frame 0 0
  pure (frame, position)

structure BoundedLDAPConnection where
  /-- How many bytes were read from the transport. -/
  position : Nat
  remaining : Int
  pending : Bytes
  deriving DecidableEq, Repr

namespace BoundedLDAPConnection

def opened : BoundedLDAPConnection := ⟨0, maximumDirectoryBytes, []⟩

/-- The next frame is only read once the last one is handed out. -/
def fill (incoming : Nat → Option UInt8) (connection : BoundedLDAPConnection) :
    Except FrameError BoundedLDAPConnection :=
  if connection.pending = [] then do
    let (frame, position) ←
      readDirectoryFrame incoming connection.remaining connection.position
    pure ⟨position, connection.remaining - frame.length, frame⟩
  else pure connection

def read (incoming : Nat → Option UInt8) (connection : BoundedLDAPConnection) (size : Nat) :
    Except FrameError (Bytes × BoundedLDAPConnection) :=
  if size = 0 then pure ([], connection)
  else do
    let filled ← connection.fill incoming
    pure (filled.pending.take size, { filled with pending := filled.pending.drop size })

/-- What calls with buffers of these sizes hand out up to the first error, and the connection
after them. -/
def delivered (incoming : Nat → Option UInt8) :
    BoundedLDAPConnection → List Nat → Bytes × BoundedLDAPConnection
  | connection, [] => ([], connection)
  | connection, size :: sizes =>
      match connection.read incoming size with
      | .error _ => ([], connection)
      | .ok (part, next) =>
          let (rest, last) := delivered incoming next sizes
          (part ++ rest, last)

end BoundedLDAPConnection

/-! Parts of a stream. -/

def Carries (incoming : Nat → Option UInt8) (position : Nat) (bytes : Bytes) : Prop :=
  (List.range' position bytes.length).map incoming = bytes.map some

variable {incoming : Nat → Option UInt8} {position position' : Nat} {handed : Bytes}
  {connection : BoundedLDAPConnection}

theorem carries_append {a b : Bytes} :
    Carries incoming position (a ++ b) ↔
      Carries incoming position a ∧ Carries incoming (position + a.length) b := by
  have hsplit : List.range' position (a ++ b).length =
      List.range' position a.length ++ List.range' (position + a.length) b.length := by
    rw [List.length_append, List.range'_append_1]
  rw [Carries, hsplit, List.map_append, List.map_append]
  constructor
  · intro h
    exact List.append_inj h (by simp)
  · rintro ⟨ha, hb⟩
    exact congrArg₂ (· ++ ·) ha hb

theorem mapM_eq_some_iff {α β : Type} {f : α → Option β} {l : List α} {l' : List β} :
    l.mapM f = some l' ↔ l.map f = l'.map some := by
  induction l generalizing l' with
  | nil => cases l' <;> simp
  | cons a l ih =>
      rw [List.mapM_cons]
      cases l' with
      | nil => simp [Option.bind_eq_some_iff]
      | cons b l' => simp [Option.bind_eq_some_iff, ih]

theorem readFull_ok_iff {n : Nat} {bytes : Bytes} :
    readFull incoming position n = .ok (bytes, position') ↔
      Carries incoming position bytes ∧ bytes.length = n ∧ position' = position + n := by
  simp only [readFull, bind_ok_iff, need_ok_iff, mapM_eq_some_iff, pure_ok_iff, Prod.mk.injEq]
  constructor
  · rintro ⟨_, hbytes, rfl, rfl⟩
    have hlength := congrArg List.length hbytes
    simp only [List.length_map, List.length_range'] at hlength
    subst hlength
    exact ⟨hbytes, rfl, rfl⟩
  · rintro ⟨hbytes, rfl, rfl⟩
    exact ⟨bytes, hbytes, rfl, rfl⟩

/-! Frames. -/

theorem readHeader_ok {budget : Int} {header : Bytes}
    (h : readHeader incoming budget position = .ok (header, position')) :
    ∃ first octets, header = 0x30 :: first :: octets ∧ Carries incoming position header ∧
      position' = position + header.length ∧
      octets.length = if first.toNat < 128 then 0 else first.toNat % 128 := by
  simp only [readHeader, bind_ok_iff, ensure_ok_iff, Prod.exists, readFull_ok_iff,
    index_ok_iff] at h
  obtain ⟨-, -, start, _, ⟨hstart, hlength, rfl⟩, tag, htag, -, rfl, first, hfirst, h⟩ := h
  obtain ⟨tag', first', rfl⟩ := List.length_eq_two.mp hlength
  cases htag
  cases hfirst
  split at h
  · rename_i hlong
    simp only [bind_ok_iff, ensure_ok_iff, Prod.exists, readFull_ok_iff, pure_ok_iff,
      Prod.mk.injEq] at h
    obtain ⟨-, -, octets, _, ⟨hoctets, hcount, rfl⟩, rfl, rfl⟩ := h
    rw [Ne, shortForm_iff] at hlong
    rw [longForm_count] at hcount
    refine ⟨first, octets, rfl, carries_append.mpr ⟨hstart, hoctets⟩, ?_, ?_⟩
    · rw [longForm_count, List.length_append, hlength]
      omega
    · rw [if_neg hlong, hcount]
  · rename_i hshort
    rw [pure_ok_iff, Prod.mk.injEq] at h
    obtain ⟨rfl, rfl⟩ := h
    rw [Ne, not_not, shortForm_iff] at hshort
    exact ⟨first, [], rfl, hstart, rfl, (if_pos hshort).symm⟩

theorem DefiniteLength.rest_nil {header rest octets : Bytes} {first : UInt8} {n : Nat}
    (h : DefiniteLength header n) (heq : first :: octets = header ++ rest)
    (hlength : octets.length = if first.toNat < 128 then 0 else first.toNat % 128) :
    rest = [] := by
  cases h with
  | short b hb =>
      obtain ⟨rfl, rfl⟩ := List.cons.inj heq
      rw [if_pos hb] at hlength
      exact List.eq_nil_of_length_eq_zero hlength
  | long b os hmin hmax hb =>
      rw [List.cons_append] at heq
      obtain ⟨rfl, rfl⟩ := List.cons.inj heq
      rw [if_neg (by omega), List.length_append] at hlength
      exact List.eq_nil_of_length_eq_zero (by omega)

/-- A complete message that the check accepts. -/
structure AcceptedFrame (frame : Bytes) : Prop where
  complete : ∃ header content, frame = 0x30 :: (header ++ content) ∧
    DefiniteLength header content.length
  bounded : frame.length ≤ maximumDirectoryPacket
  accepted : ∃ nodes, validateDirectoryBER frame 0 0 = .ok nodes

theorem readDirectoryFrame_ok {budget : Int} {frame : Bytes}
    (h : readDirectoryFrame incoming budget position = .ok (frame, position')) :
    AcceptedFrame frame ∧ Carries incoming position frame ∧
      position' = position + frame.length ∧ (frame.length : Int) ≤ budget := by
  simp only [readDirectoryFrame, bind_ok_iff, Prod.exists, ensure_ok_iff, readFull_ok_iff,
    pure_ok_iff, Prod.mk.injEq] at h
  obtain ⟨header, _, hheader, n, offset, hread, -, ⟨hpacket, hbudget⟩, content, _,
    ⟨hcontent, hlength, rfl⟩, nodes, haccepted, rfl, rfl⟩ := h
  obtain ⟨first, octets, rfl, hcarried, rfl, hoctets⟩ := readHeader_ok hheader
  obtain ⟨tag, lengthOctets, rest, heq, -, hdefinite, rfl⟩ := directoryBERLength_ok hread
  obtain ⟨rfl, htail⟩ := List.cons.inj heq
  obtain rfl := hdefinite.rest_nil htail hoctets
  rw [List.append_nil] at htail
  have hoffset : 1 + lengthOctets.length = (0x30 :: first :: octets : Bytes).length := by
    rw [htail]
    simp only [List.length_cons]
    omega
  rw [hoffset, List.take_length] at haccepted ⊢
  rw [hoffset] at hpacket hbudget
  subst hlength
  refine ⟨⟨⟨lengthOctets, content, ?_, hdefinite⟩, ?_, nodes, haccepted⟩,
    carries_append.mpr ⟨hcarried, hcontent⟩, ?_, ?_⟩
  · rw [htail, List.cons_append]
  · rw [List.length_append]
    omega
  · rw [List.length_append]
    omega
  · rw [List.length_append]
    omega

/-! Runs. -/

/-- What was handed out and what is still to be handed out are the frames that were read: the
beginning of the stream, paid from the budget. -/
def Conforms (incoming : Nat → Option UInt8) (handed : Bytes) (connection : BoundedLDAPConnection) :
    Prop :=
  ∃ frames : List Bytes, (∀ frame ∈ frames, AcceptedFrame frame) ∧
    Carries incoming 0 frames.flatten ∧ connection.position = frames.flatten.length ∧
    connection.remaining = (maximumDirectoryBytes : Int) - frames.flatten.length ∧
    0 ≤ connection.remaining ∧ handed ++ connection.pending = frames.flatten

namespace BoundedLDAPConnection

theorem conforms_opened (incoming : Nat → Option UInt8) : Conforms incoming [] opened :=
  ⟨[], List.forall_mem_nil _, rfl, rfl, rfl, by decide, rfl⟩

theorem fill_conforms {filled : BoundedLDAPConnection} (h : Conforms incoming handed connection)
    (hfill : connection.fill incoming = .ok filled) : Conforms incoming handed filled := by
  rw [fill] at hfill
  split at hfill
  · rename_i hpending
    simp only [bind_ok_iff, Prod.exists, pure_ok_iff] at hfill
    obtain ⟨frame, position, hframe, rfl⟩ := hfill
    obtain ⟨haccepted, hcarried, rfl, hbudget⟩ := readDirectoryFrame_ok hframe
    obtain ⟨frames, hframes, hstream, hposition, hremaining, -, hhanded⟩ := h
    rw [hpending, List.append_nil] at hhanded
    rw [hposition] at hcarried
    have hflatten : (frames ++ [frame]).flatten = frames.flatten ++ frame := by simp
    refine ⟨frames ++ [frame], ?_, ?_, ?_, ?_, Int.sub_nonneg_of_le hbudget, ?_⟩
    · intro f hf
      rcases List.mem_append.mp hf with hf | hf
      · exact hframes f hf
      · rw [List.mem_singleton] at hf
        exact hf ▸ haccepted
    · rw [hflatten]
      exact carries_append.mpr ⟨hstream, by rwa [Nat.zero_add]⟩
    · rw [hflatten, List.length_append, hposition]
    · rw [hflatten, List.length_append, Int.natCast_add, ← Int.sub_sub, ← hremaining]
    · rw [hflatten, hhanded]
  · rw [pure_ok_iff] at hfill
    exact hfill ▸ h

theorem read_conforms {part : Bytes} {next : BoundedLDAPConnection} {size : Nat}
    (h : Conforms incoming handed connection)
    (hread : connection.read incoming size = .ok (part, next)) :
    Conforms incoming (handed ++ part) next := by
  rw [read] at hread
  split at hread
  · rw [pure_ok_iff, Prod.mk.injEq] at hread
    obtain ⟨rfl, rfl⟩ := hread
    rwa [List.append_nil]
  · simp only [bind_ok_iff, pure_ok_iff, Prod.mk.injEq] at hread
    obtain ⟨filled, hfill, rfl, rfl⟩ := hread
    obtain ⟨frames, hframes, hstream, hposition, hremaining, hpaid, hhanded⟩ :=
      fill_conforms h hfill
    refine ⟨frames, hframes, hstream, hposition, hremaining, hpaid, ?_⟩
    rw [List.append_assoc, List.take_append_drop, hhanded]

theorem delivered_conforms (h : Conforms incoming handed connection) (sizes : List Nat) :
    Conforms incoming (handed ++ (connection.delivered incoming sizes).1)
      (connection.delivered incoming sizes).2 := by
  induction sizes generalizing handed connection with
  | nil => rwa [delivered, List.append_nil]
  | cons size sizes ih =>
      rw [delivered]
      cases hread : connection.read incoming size with
      | error error => rwa [List.append_nil]
      | ok result =>
          obtain ⟨part, next⟩ := result
          have hrest := ih (read_conforms h hread)
          rwa [List.append_assoc] at hrest

end BoundedLDAPConnection

/-- Accepted data is well formed and within its bounds, the check of it stays in range, and
the connection hands out the beginning of what the server sends, frame by accepted frame and
within its budget. -/
theorem directory_responses_bounded :
    (∀ data : Bytes, data.length ≤ maximumDirectoryPacket →
      validateDirectoryBER data 0 0 ≠ .error .outOfRange ∧
      ((∃ nodes, validateDirectoryBER data 0 0 = .ok nodes) ↔
        ∃ n d, Elements n d data ∧ n ≤ 16384 ∧ d ≤ 16)) ∧
    ∀ (incoming : Nat → Option UInt8) (sizes : List Nat),
      let result := BoundedLDAPConnection.opened.delivered incoming sizes
      0 ≤ result.2.remaining ∧
      ∃ frames : List Bytes, result.1 <+: frames.flatten ∧
        Carries incoming 0 frames.flatten ∧ frames.flatten.length ≤ maximumDirectoryBytes ∧
        ∀ frame ∈ frames, AcceptedFrame frame := by
  refine ⟨fun data hlength => ⟨validateDirectoryBER_inRange data 0 0,
    validateDirectoryBER_ok_iff hlength⟩, fun incoming sizes => ?_⟩
  obtain ⟨frames, hframes, hstream, -, hremaining, hpaid, hhanded⟩ :=
    BoundedLDAPConnection.delivered_conforms
      (BoundedLDAPConnection.conforms_opened incoming) sizes
  refine ⟨hpaid, frames, ⟨_, hhanded⟩, hstream, ?_, hframes⟩
  omega

def sampleMessage : Bytes := [0x30, 5, 4, 3, 97, 98, 99]

theorem elements_sampleMessage : Elements 2 1 sampleMessage :=
  have hstring : Elements 1 0 [4, 3, 97, 98, 99] :=
    @Elements.primitive 0 0 4 [3] [97, 98, 99] [] (by unfold SingleOctetTag; decide) (by decide)
      (.short 3 (by decide)) .nil
  @Elements.constructed 1 0 0 0 0x30 [5] [4, 3, 97, 98, 99] []
    (by unfold SingleOctetTag; decide) (by decide) (.short 5 (by decide)) hstring .nil

theorem directory_responses_bounded_sample :
    sampleMessage.length ≤ maximumDirectoryPacket ∧
    (∃ nodes, validateDirectoryBER sampleMessage 0 0 = .ok nodes) ∧
    0 ≤ (BoundedLDAPConnection.opened.delivered
      (fun i => sampleMessage[i]?) [3, 0, 9]).2.remaining :=
  ⟨by decide,
    (directory_responses_bounded.1 sampleMessage (by decide)).2.mpr
      ⟨2, 1, elements_sampleMessage, by decide, by decide⟩,
    (directory_responses_bounded.2 _ [3, 0, 9]).1⟩

end JobmanControl.Directory
