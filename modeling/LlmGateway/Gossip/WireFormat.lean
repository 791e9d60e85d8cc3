import LlmGateway.Gossip.UdpTransport
import LlmGateway.Gossip.Message
import LlmGateway.Lib.Wire

/-!
# Gossip messages as datagrams

What `UdpTransport` does with the messages of `gossip.proto`: `Send` refuses what is longer than
`kMaxDatagram`, and `Receive` parses what it has read into a buffer of this size. Resolving, sending
and receiving itself are the network's. The code that `protoc` generates from `gossip.proto` is not
part of the repository: it is a `Codec`, of which only what protobuf documents is used.

1. `Codec.RoundTrips`, `Codec.Sized`: what is documented. A serialized message parses as itself, and
   its length is that of its fields in the wire format.
2. `receive_of_send`: so `Receive` returns a message that `Send` has taken.
3. `send_of_short`: with texts of at most 127 bytes and nine updates a message takes 4096 bytes at
   most, which is `kMaxDatagram`.
4. `wireCodec`: the wire format itself is such a codec.
-/

namespace LlmGateway.Gossip

open Wire

def MessageType.number : MessageType → ℕ
  | ping => 0
  | pingReq => 1
  | ack => 2

namespace MembershipUpdate

/-- The fields of the update, with their numbers in `gossip.proto`. -/
def toFields (u : MembershipUpdate) : List Field :=
  Field.text 1 u.memberId ++ Field.text 2 u.address ++ Field.uint 3 u.state.number ++
    Field.uint 4 u.incarnation ++ Field.text 5 u.modelVersion ++
    Field.uint 6 (ofInt32 u.activeRequests) ++ Field.uint 7 (ofInt32 u.maxCapacity)

/-- The numbers of the update fit into their types, and its texts satisfy `T`. -/
structure InRange (T : String → Prop) (u : MembershipUpdate) : Prop where
  memberId : T u.memberId
  address : T u.address
  modelVersion : T u.modelVersion
  incarnation : u.incarnation < 2 ^ 64
  activeRequests : -2 ^ 31 ≤ u.activeRequests ∧ u.activeRequests < 2 ^ 31
  maxCapacity : -2 ^ 31 ≤ u.maxCapacity ∧ u.maxCapacity < 2 ^ 31

end MembershipUpdate

namespace GossipMessage

def toFields (msg : GossipMessage) : List Field :=
  Field.uint 1 msg.type.number ++ Field.text 2 msg.senderId ++ Field.text 3 msg.targetId ++
    Field.uint 4 msg.sequenceNum ++
    (msg.updates.map MembershipUpdate.toFields).map (Field.message 5)

/-- The numbers of the message fit into their types, its texts satisfy `T`, and it has an update. -/
structure InRange (T : String → Prop) (msg : GossipMessage) : Prop where
  senderId : T msg.senderId
  targetId : T msg.targetId
  sequenceNum : msg.sequenceNum < 2 ^ 64
  updates : ∀ u ∈ msg.updates, u.InRange T
  some_update : msg.updates ≠ []

end GossipMessage

/-! ## The generated code -/

/-- What the code generated from `gossip.proto` does: `SerializeToString` and `ParseFromArray`. Either
may fail. -/
structure Codec where
  serializeToString : GossipMessage → Option (List UInt8)
  parseFromArray : List UInt8 → Option GossipMessage

/-- Documented of every protobuf message: no bytes parse as the message without any field set, and a
serialized message parses as itself. -/
structure Codec.RoundTrips (codec : Codec) : Prop where
  parse_nil : codec.parseFromArray [] = some { type := .ping, senderId := "", sequenceNum := 0 }
  parse_serialize : ∀ msg bytes, msg.InRange (fun _ => True) →
    codec.serializeToString msg = some bytes → codec.parseFromArray bytes = some msg

/-- Documented of the wire format: a message that is not too large for protobuf is serialized, and
takes as many bytes as its fields, each with its key; fields of value zero or empty are left out. -/
def Codec.Sized (codec : Codec) : Prop :=
  ∀ msg, msg.InRange (fun _ => True) → (encode msg.toFields).length < 2 ^ 31 →
    ∃ bytes, codec.serializeToString msg = some bytes ∧
      bytes.length = (encode msg.toFields).length

/-- `kMaxDatagram`. -/
abbrev maxDatagram : ℕ := 4096

variable (codec : Codec)

/-- The datagram that `Send` gives to the socket, if the message can be serialized and is not too
large. -/
def send (msg : GossipMessage) : Option (List UInt8) :=
  match codec.serializeToString msg with
  | none => none
  | some data => if maxDatagram < data.length then none else some data

/-- The message that `Receive` reads from a datagram, if any. -/
def receive (datagram : List UInt8) : Option GossipMessage :=
  if datagram = [] then none else codec.parseFromArray (datagram.take maxDatagram)

variable {codec : Codec} {T : String → Prop} {u : MembershipUpdate} {msg : GossipMessage}
  {datagram : List UInt8}

theorem MembershipUpdate.InRange.mono {T' : String → Prop} (h : u.InRange T)
    (hT : ∀ s, T s → T' s) : u.InRange T' :=
  { h with
    memberId := hT _ h.memberId
    address := hT _ h.address
    modelVersion := hT _ h.modelVersion }

theorem GossipMessage.InRange.any (h : msg.InRange T) : msg.InRange fun _ => True :=
  { h with
    senderId := trivial
    targetId := trivial
    updates := fun u hu => (h.updates u hu).mono fun _ _ => trivial }

theorem receive_of_send (hcodec : codec.RoundTrips) (h : msg.InRange T)
    (hs : send codec msg = some datagram) : receive codec datagram = some msg := by
  unfold send at hs
  split at hs
  · cases hs
  · rename_i data hdata
    split_ifs at hs with hlarge
    cases hs
    have hparse := hcodec.parse_serialize msg datagram h.any hdata
    have hsome : datagram ≠ [] := by
      rintro rfl
      -- no bytes are the message without any update
      rw [hcodec.parse_nil] at hparse
      cases hparse
      exact h.some_update rfl
    unfold receive
    rw [if_neg hsome, List.take_of_length_le (Nat.le_of_not_lt hlarge)]
    exact hparse

/-! ## The size of a message -/

/-- A text of at most 127 bytes: its length takes one byte. -/
def Short (s : String) : Prop := s.utf8ByteSize < 128

theorem MembershipUpdate.length_encode_le (h : u.InRange Short) :
    (encode u.toFields).length ≤ 422 := by
  have hid : (encode (Field.text 1 u.memberId)).length ≤ u.memberId.utf8ByteSize + 2 :=
    length_encode_text_le (by omega) h.memberId
  have haddress : (encode (Field.text 2 u.address)).length ≤ u.address.utf8ByteSize + 2 :=
    length_encode_text_le (by omega) h.address
  have hstate : (encode (Field.uint 3 u.state.number)).length ≤ 0 + 2 :=
    length_encode_uint_le (by omega) (by cases u.state <;> decide)
  have hincarnation : (encode (Field.uint 4 u.incarnation)).length ≤ 9 + 2 :=
    length_encode_uint_le (by omega) (by have := h.incarnation; omega)
  have hversion : (encode (Field.text 5 u.modelVersion)).length ≤ u.modelVersion.utf8ByteSize + 2 :=
    length_encode_text_le (by omega) h.modelVersion
  have hactive : (encode (Field.uint 6 (ofInt32 u.activeRequests))).length ≤ 9 + 2 :=
    length_encode_uint_le (by omega) (by have := ofInt32_lt u.activeRequests; omega)
  have hcapacity : (encode (Field.uint 7 (ofInt32 u.maxCapacity))).length ≤ 9 + 2 :=
    length_encode_uint_le (by omega) (by have := ofInt32_lt u.maxCapacity; omega)
  have h1 : u.memberId.utf8ByteSize < 128 := h.memberId
  have h2 : u.address.utf8ByteSize < 128 := h.address
  have h5 : u.modelVersion.utf8ByteSize < 128 := h.modelVersion
  simp only [toFields, encode_append, List.length_append]
  omega

/-- **The size of a message.** -/
theorem GossipMessage.length_encode_le (h : msg.InRange Short) :
    (encode msg.toFields).length ≤ 271 + 425 * msg.updates.length := by
  have hupdates : ∀ us : List MembershipUpdate, (∀ u ∈ us, u.InRange Short) →
      (encode ((us.map MembershipUpdate.toFields).map (Field.message 5))).length ≤
        425 * us.length := by
    intro us hus
    induction us with
    | nil => exact Nat.zero_le _
    | cons u us ih =>
      have hu := MembershipUpdate.length_encode_le (hus u List.mem_cons_self)
      have hmsg : (Field.message 5 u.toFields).encode.length ≤ (encode u.toFields).length + 3 :=
        length_encode_message_le (by omega) (by omega)
      have hrest := ih fun v hv => hus v (List.mem_cons_of_mem _ hv)
      rw [List.map_cons, List.map_cons, ← List.singleton_append, encode_append,
        List.length_append, List.length_cons]
      have hone : (encode [Field.message 5 u.toFields]).length =
          (Field.message 5 u.toFields).encode.length := by simp [encode]
      omega
  have htype : (encode (Field.uint 1 msg.type.number)).length ≤ 0 + 2 :=
    length_encode_uint_le (by omega) (by cases msg.type <;> decide)
  have hsender : (encode (Field.text 2 msg.senderId)).length ≤ msg.senderId.utf8ByteSize + 2 :=
    length_encode_text_le (by omega) h.senderId
  have htarget : (encode (Field.text 3 msg.targetId)).length ≤ msg.targetId.utf8ByteSize + 2 :=
    length_encode_text_le (by omega) h.targetId
  have hseq : (encode (Field.uint 4 msg.sequenceNum)).length ≤ 9 + 2 :=
    length_encode_uint_le (by omega) (by have := h.sequenceNum; omega)
  have h2 : msg.senderId.utf8ByteSize < 128 := h.senderId
  have h3 : msg.targetId.utf8ByteSize < 128 := h.targetId
  have h5 := hupdates msg.updates h.updates
  simp only [toFields, encode_append, List.length_append]
  omega

/-- A message with short texts and at most nine updates is not too large. -/
theorem send_of_short (hcodec : codec.Sized) (h : msg.InRange Short)
    (hcount : msg.updates.length ≤ 9) : ∃ datagram, send codec msg = some datagram := by
  have hlen := GossipMessage.length_encode_le h
  obtain ⟨data, hdata, hlength⟩ := hcodec msg h.any (by omega)
  refine ⟨data, ?_⟩
  unfold send
  rw [hdata]
  exact if_neg (by unfold maxDatagram; omega)

/-! ## The wire format as a codec -/

/-- The enumerator with this number. -/
def MemberState.ofNumber : ℤ → Option MemberState
  | 0 => some .alive
  | 1 => some .suspect
  | 2 => some .dead
  | _ => none

def MessageType.ofNumber : ℤ → Option MessageType
  | 0 => some .ping
  | 1 => some .pingReq
  | 2 => some .ack
  | _ => none

/-- The update with these fields. -/
def MembershipUpdate.ofFields (fs : List Field) : Option MembershipUpdate := do
  let memberId ← readText 1 fs
  let address ← readText 2 fs
  let state ← MemberState.ofNumber (toInt32 (readUint 3 fs))
  let modelVersion ← readText 5 fs
  return {
    memberId, address, state, modelVersion
    incarnation := readUint 4 fs
    activeRequests := toInt32 (readUint 6 fs)
    maxCapacity := toInt32 (readUint 7 fs) }

/-- The message with these fields. -/
def GossipMessage.ofFields (fs : List Field) : Option GossipMessage := do
  let type ← MessageType.ofNumber (toInt32 (readUint 1 fs))
  let senderId ← readText 2 fs
  let targetId ← readText 3 fs
  let updates ← readMessages 5 MembershipUpdate.ofFields fs
  return { type, senderId, targetId, sequenceNum := readUint 4 fs, updates }

/-- Fields in the order of their numbers, and an enumerator that `gossip.proto` does not have fails. -/
def wireCodec : Codec where
  serializeToString msg :=
    if (encode msg.toFields).length < 2 ^ 31 then some (encode msg.toFields) else none
  parseFromArray bytes := (decode bytes).bind GossipMessage.ofFields

theorem MemberState.ofNumber_number (s : MemberState) :
    ofNumber (toInt32 s.number) = some s := by
  cases s <;> decide

theorem MessageType.ofNumber_number (t : MessageType) : ofNumber (toInt32 t.number) = some t := by
  cases t <;> decide

theorem MembershipUpdate.ofFields_toFields (h : u.InRange T) : ofFields u.toFields = some u := by
  have hid : readText 1 u.toFields = some u.memberId := readText_eq (by simp [toFields])
  have haddress : readText 2 u.toFields = some u.address := readText_eq (by simp [toFields])
  have hstate : readUint 3 u.toFields = u.state.number := readUint_eq (by simp [toFields])
  have hincarnation : readUint 4 u.toFields = u.incarnation := readUint_eq (by simp [toFields])
  have hversion : readText 5 u.toFields = some u.modelVersion := readText_eq (by simp [toFields])
  have hactive : readUint 6 u.toFields = ofInt32 u.activeRequests :=
    readUint_eq (by simp [toFields])
  have hcapacity : readUint 7 u.toFields = ofInt32 u.maxCapacity := readUint_eq (by simp [toFields])
  simp only [ofFields, hid, haddress, hstate, hincarnation, hversion, hactive, hcapacity,
    MemberState.ofNumber_number, toInt32_ofInt32 h.activeRequests.1 h.activeRequests.2,
    toInt32_ofInt32 h.maxCapacity.1 h.maxCapacity.2]
  rfl

theorem MembershipUpdate.toFields_valid (h : u.InRange T)
    (hsize : (encode u.toFields).length < 2 ^ 31) : ∀ f ∈ u.toFields, f.Valid := by
  have hstate : u.state.number < 2 ^ 64 := by cases u.state <;> decide
  intro f hf
  simp only [toFields, List.mem_append] at hf
  rcases hf with (((((hf | hf) | hf) | hf) | hf) | hf) | hf
  · exact text_valid (by omega) (by omega) (by simp +contextual [toFields]) hsize f hf
  · exact text_valid (by omega) (by omega) (by simp +contextual [toFields]) hsize f hf
  · exact uint_valid (by omega) (by omega) hstate f hf
  · exact uint_valid (by omega) (by omega) h.incarnation f hf
  · exact text_valid (by omega) (by omega) (by simp +contextual [toFields]) hsize f hf
  · exact uint_valid (by omega) (by omega) (ofInt32_lt _) f hf
  · exact uint_valid (by omega) (by omega) (ofInt32_lt _) f hf

namespace GossipMessage

theorem mem_toFields (hu : u ∈ msg.updates) :
    ⟨5, .bytes (encode u.toFields)⟩ ∈ msg.toFields :=
  List.mem_append_right _ (List.mem_map_of_mem (List.mem_map_of_mem hu))

theorem toFields_valid (h : msg.InRange T) (hsize : (encode msg.toFields).length < 2 ^ 31) :
    ∀ f ∈ msg.toFields, f.Valid := by
  have htype : msg.type.number < 2 ^ 64 := by cases msg.type <;> decide
  intro f hf
  simp only [toFields, List.mem_append] at hf
  rcases hf with (((hf | hf) | hf) | hf) | hf
  · exact uint_valid (by omega) (by omega) htype f hf
  · exact text_valid (by omega) (by omega) (by simp +contextual [toFields]) hsize f hf
  · exact text_valid (by omega) (by omega) (by simp +contextual [toFields]) hsize f hf
  · exact uint_valid (by omega) (by omega) h.sequenceNum f hf
  · obtain ⟨gs, hgs, rfl⟩ := List.mem_map.mp hf
    obtain ⟨u, hu, rfl⟩ := List.mem_map.mp hgs
    exact ⟨by simp [Field.message], by simp [Field.message],
      Nat.lt_trans (length_lt_of_mem (mem_toFields hu)) hsize⟩

theorem ofFields_toFields (h : msg.InRange T) (hsize : (encode msg.toFields).length < 2 ^ 31) :
    ofFields msg.toFields = some msg := by
  have htype : readUint 1 msg.toFields = msg.type.number :=
    readUint_eq (by simp [toFields, -List.map_map])
  have hsender : readText 2 msg.toFields = some msg.senderId :=
    readText_eq (by simp [toFields, -List.map_map])
  have htarget : readText 3 msg.toFields = some msg.targetId :=
    readText_eq (by simp [toFields, -List.map_map])
  have hseq : readUint 4 msg.toFields = msg.sequenceNum :=
    readUint_eq (by simp [toFields, -List.map_map])
  have hupdates : readMessages 5 MembershipUpdate.ofFields msg.toFields = some msg.updates := by
    refine readMessages_eq MembershipUpdate.toFields (by simp [toFields, -List.map_map]) ?_
    intro u hu
    have hlen := length_lt_of_mem (mem_toFields hu)
    rw [decode_encode (MembershipUpdate.toFields_valid (h.updates u hu) (Nat.lt_trans hlen hsize)),
      Option.bind_some, MembershipUpdate.ofFields_toFields (h.updates u hu)]
  simp only [ofFields, htype, hsender, htarget, hseq, hupdates, MessageType.ofNumber_number]
  rfl

end GossipMessage

theorem wireCodec_sized : wireCodec.Sized := fun _ _ hsize => ⟨_, if_pos hsize, rfl⟩

/-- **The round trip** of the wire format. -/
theorem wireCodec_roundTrips : wireCodec.RoundTrips where
  parse_nil := rfl
  parse_serialize := by
    intro msg bytes h hs
    unfold wireCodec at hs ⊢
    dsimp only at hs ⊢
    split_ifs at hs with hsize
    cases hs
    rw [decode_encode (GossipMessage.toFields_valid h hsize), Option.bind_some,
      GossipMessage.ofFields_toFields h hsize]

end LlmGateway.Gossip
