import TelegramClient.VoIP.PacketHeader
import Mathlib.Algebra.Order.BigOperators.Group.List
import Mathlib.Data.List.Nodup
import Mathlib.Data.Nat.Bitwise

/-!
# What is written into a packet header is read from it

* `WellFormedExtras` : what the lists of extras have in common (`FromApi.wellFormed`);
* `headerBytes` : the bytes of a header (`writes_packetHeader`, `reads_packet`);
* **`packet_roundTrip`** : the peer reads the type, the numbers, the mask and the extras, and then is at the payload.
-/

namespace TelegramClient.VoIP
open Vector (length_toList replicate)

/-! ## The extras -/

structure WellFormedExtras (extras : List UnacknowledgedExtraData) : Prop where
  nodup : (extras.map UnacknowledgedExtraData.type).Nodup
  api : ∀ x ∈ extras, ∃ extra : ApiExtra, x.type = extra.type ∧ x.data = extra.data

variable {extras : List UnacknowledgedExtraData}

theorem mem_sendExtra {data : Bytes} {type : UInt8} {x : UnacknowledgedExtraData} (h : x ∈ sendExtra data type extras) :
    x = ⟨type, data, 0⟩ ∨ x ∈ extras := by
  induction extras with
  | nil => exact .inl (List.mem_singleton.mp h)
  | cons y ys ih =>
    rw [sendExtra] at h
    split at h
    · rcases List.mem_cons.mp h with rfl | h
      · exact .inl rfl
      · exact .inr (List.mem_cons_of_mem y h)
    · rcases List.mem_cons.mp h with rfl | h
      · exact .inr List.mem_cons_self
      · exact (ih h).imp_right (List.mem_cons_of_mem y)

theorem map_type_sendExtra (data : Bytes) (type : UInt8) (extras : List UnacknowledgedExtraData) :
    (sendExtra data type extras).map UnacknowledgedExtraData.type =
      if type ∈ extras.map UnacknowledgedExtraData.type then extras.map UnacknowledgedExtraData.type
      else extras.map UnacknowledgedExtraData.type ++ [type] := by
  induction extras with
  | nil => rfl
  | cons y ys ih =>
    rw [sendExtra]
    by_cases hy : y.type = type
    · rw [if_pos hy]
      simp [hy]
    · rw [if_neg hy, List.map_cons, ih]
      by_cases hm : type ∈ ys.map UnacknowledgedExtraData.type
      · simp [hm]
      · simp [hm, Ne.symm hy]

theorem nodup_type_sendExtra (h : (extras.map UnacknowledgedExtraData.type).Nodup) (data : Bytes) (type : UInt8) :
    ((sendExtra data type extras).map UnacknowledgedExtraData.type).Nodup := by
  rw [map_type_sendExtra]
  split
  · exact h
  case isFalse hnew =>
    refine List.nodup_append.mpr ⟨h, List.nodup_singleton _, fun a ha b hb hab => ?_⟩
    rw [hab, List.mem_singleton.mp hb] at ha
    exact hnew ha

theorem map_type_markContained (pseq : UInt32) (extras : List UnacknowledgedExtraData) :
    (markContained pseq extras).map UnacknowledgedExtraData.type = extras.map UnacknowledgedExtraData.type := by
  rw [markContained, List.map_map]
  refine List.map_congr_left fun x _ => ?_
  rw [Function.comp_apply]
  split <;> rfl

theorem FromApi.wellFormed (h : FromApi extras) : WellFormedExtras extras := by
  induction h with
  | empty => exact ⟨List.nodup_nil, fun x hx => absurd hx List.not_mem_nil⟩
  | send _ extra ih =>
    refine ⟨nodup_type_sendExtra ih.nodup extra.data extra.type, fun x hx => ?_⟩
    rcases mem_sendExtra hx with rfl | hx
    · exact ⟨extra, rfl, rfl⟩
    · exact ih.api x hx
  | written _ pseq ih =>
    refine ⟨?_, fun x hx => ?_⟩
    · rw [map_type_markContained]
      exact ih.nodup
    · obtain ⟨y, hy, rfl⟩ := List.mem_map.mp hx
      obtain ⟨extra, hty, hdata⟩ := ih.api y hy
      refine ⟨extra, ?_, ?_⟩ <;> split <;> assumption
  | acknowledged _ lastRemoteAckSeq ih =>
    refine ⟨?_, fun x hx => ih.api x (List.mem_filter.mp hx).1⟩
    exact ih.nodup.sublist (List.filter_sublist.map _)

theorem ApiExtra.length_data_le (extra : ApiExtra) (h : extra.data.length ≤ 254) : extra.data.length ≤ 18 := by
  cases extra with
  | groupCallKey key => simp [ApiExtra.data] at h
  | _ => simp [ApiExtra.data, length_leBits]

theorem ApiExtra.type_mem (extra : ApiExtra) : extra.type ∈ ([1, 3, 4, 5, 6, 7] : List UInt8) := by
  cases extra <;> simp [ApiExtra.type]

theorem WellFormedExtras.length_le (h : WellFormedExtras extras) : extras.length ≤ 6 := by
  have hsubset : extras.map UnacknowledgedExtraData.type ⊆ [1, 3, 4, 5, 6, 7] := by
    intro type hty
    obtain ⟨x, hx, rfl⟩ := List.mem_map.mp hty
    obtain ⟨extra, heq, -⟩ := h.api x hx
    exact heq ▸ extra.type_mem
  simpa using h.nodup.length_le_of_subset hsubset

/-! ## The flags -/

theorem flags_and_mask (flags : UInt32) (type : UInt8) {mask : UInt32} (h : mask.toNat < 2 ^ 24) :
    (flags ||| type.toUInt32 <<< 24) &&& mask = flags &&& mask := by
  apply UInt32.toNat_inj.mp
  rw [UInt32.toNat_and, UInt32.toNat_and, UInt32.toNat_or, UInt32.toNat_shiftLeft]
  apply Nat.eq_of_testBit_eq
  intro i
  rw [Nat.testBit_and, Nat.testBit_and, Nat.testBit_or, Nat.testBit_mod_two_pow, Nat.testBit_shiftLeft]
  by_cases hi : 24 ≤ i
  · have hzero : mask.toNat.testBit i = false :=
      Nat.testBit_lt_two_pow (lt_of_lt_of_le h (Nat.pow_le_pow_right (by decide) hi))
    rw [hzero, Bool.and_false, Bool.and_false]
  · simp [hi]

theorem type_of_flags (flags : UInt32) (type : UInt8) (h : flags.toNat < 2 ^ 24) :
    (((flags ||| type.toUInt32 <<< 24) >>> 24) &&& 0xFF).toUInt8 = type := by
  apply UInt8.toNat_inj.mp
  have hff : (0xFF : UInt32).toNat = 2 ^ 8 - 1 := rfl
  have h24 : (24 : UInt32).toNat % 32 = 24 := rfl
  rw [UInt32.toNat_toUInt8, UInt32.toNat_and, UInt32.toNat_shiftRight, UInt32.toNat_or, UInt32.toNat_shiftLeft, hff,
    h24, Nat.and_two_pow_sub_one_eq_mod, Nat.mod_mod, UInt8.toNat_toUInt32]
  apply Nat.eq_of_testBit_eq
  intro i
  have hflags : flags.toNat.testBit (24 + i) = false :=
    Nat.testBit_lt_two_pow (lt_of_lt_of_le h (Nat.pow_le_pow_right (by decide) (Nat.le_add_right 24 i)))
  rw [Nat.testBit_mod_two_pow, Nat.testBit_shiftRight, Nat.testBit_or, hflags, Nat.testBit_mod_two_pow,
    Nat.testBit_shiftLeft]
  by_cases hi : i < 8
  · have hlt : 24 + i < 32 := by omega
    simp [hi, hlt]
  · have hzero : type.toNat.testBit i = false :=
      Nat.testBit_lt_two_pow (lt_of_lt_of_le type.toNat_lt (Nat.pow_le_pow_right (by decide) (Nat.le_of_not_lt hi)))
    simp [hi, hzero]

/-- The flags of a decrypted block, without the type. -/
def blockFlags (length : Nat) : UInt32 := if 0 < length then 61 else 60

variable (type : UInt8) (length : Nat)

theorem pflags_eq : Connection.pflags type length = blockFlags length ||| type.toUInt32 <<< 24 := by
  unfold Connection.pflags blockFlags
  split <;> rfl

theorem pflags_and {mask : UInt32} (h : mask.toNat < 2 ^ 24) :
    Connection.pflags type length &&& mask = blockFlags length &&& mask := by
  rw [pflags_eq, flags_and_mask _ _ h]

theorem pflags_and_callID : Connection.pflags type length &&& PFLAG_HAS_CALL_ID ≠ 0 := by
  rw [@pflags_and type length PFLAG_HAS_CALL_ID (by decide), blockFlags]
  split <;> decide

theorem pflags_and_proto : Connection.pflags type length &&& PFLAG_HAS_PROTO ≠ 0 := by
  rw [@pflags_and type length PFLAG_HAS_PROTO (by decide), blockFlags]
  split <;> decide

theorem pflags_and_seq : Connection.pflags type length &&& PFLAG_HAS_SEQ ≠ 0 ∧
      Connection.pflags type length &&& PFLAG_HAS_RECENT_RECV ≠ 0 := by
  rw [@pflags_and type length PFLAG_HAS_SEQ (by decide), @pflags_and type length PFLAG_HAS_RECENT_RECV (by decide),
    blockFlags]
  split <;> decide

theorem pflags_and_extra : Connection.pflags type length &&& PFLAG_HAS_EXTRA = 0 := by
  rw [@pflags_and type length PFLAG_HAS_EXTRA (by decide), blockFlags]
  split <;> decide

theorem pflags_and_data : Connection.pflags type length &&& PFLAG_HAS_DATA ≠ 0 ↔ 0 < length := by
  rw [@pflags_and type length PFLAG_HAS_DATA (by decide), blockFlags]
  split
  case isTrue h => exact iff_of_true (by decide) h
  case isFalse h => exact iff_of_false (by decide) h

theorem type_of_pflags : ((Connection.pflags type length >>> 24) &&& 0xFF).toUInt8 = type := by
  rw [pflags_eq]
  refine type_of_flags _ type ?_
  unfold blockFlags
  split <;> decide

/-! ## The bytes -/

def randomBytes (random : HeaderRandom) : Bytes := 7 :: random.randBytes.toList

def extraBytes (bytes : Bytes) : Bytes := UInt8.ofNat bytes.length :: bytes

namespace Connection

def extrasBytes (c : Connection) : Bytes :=
  if 6 ≤ c.peerVersion then
    if c.currentExtras = [] then [0]
    else
      XPFLAG_HAS_EXTRA :: UInt8.ofNat c.currentExtras.length ::
        (c.currentExtras.map UnacknowledgedExtraData.bytes).flatMap extraBytes
  else []

def decryptedBlockBytes (c : Connection) (random : HeaderRandom) (pseq : UInt32) (type : UInt8) (length : Nat) :
    Bytes :=
  leBits TLID_DECRYPTED_AUDIO_BLOCK.toBitVec ++ (leBits random.randomID.toBitVec ++ (randomBytes random ++
    (leBits (pflags type length).toBitVec ++ (c.callID.toList ++ (leBits c.window.lastRemoteSeq.toBitVec ++
      (leBits pseq.toBitVec ++ (leBits (ackMask c.window.recvPacketTimes).toBitVec ++
        (leBits PROTOCOL_NAME.toBitVec ++ if 0 < length then tlLengthBytes length else []))))))))

def simpleBlockBytes (c : Connection) (random : HeaderRandom) (pseq : UInt32) (type : UInt8) (length : Nat) : Bytes :=
  leBits TLID_SIMPLE_AUDIO_BLOCK.toBitVec ++ (leBits random.randomID.toBitVec ++ (randomBytes random ++
    (tlLengthBytes (length + 13) ++ ([type] ++ (leBits c.window.lastRemoteSeq.toBitVec ++ (leBits pseq.toBitVec ++
      (leBits (ackMask c.window.recvPacketTimes).toBitVec ++ c.extrasBytes)))))))

def headerBytes (c : Connection) (random : HeaderRandom) (pseq : UInt32) (type : UInt8) (length : Nat) : Bytes :=
  if c.isDecryptedBlock then c.decryptedBlockBytes random pseq type length
  else c.simpleBlockBytes random pseq type length

section
variable (size : Nat) {c : Connection}

theorem writes_random (random : HeaderRandom) {q : WriteM Unit} {y : Bytes} (hq : Writes size q y) :
    Writes size (do
      BufferOutputStream.writeByte size 7
      BufferOutputStream.writeBytes size random.randBytes.toList
      q) (randomBytes random ++ y) :=
  (writes_writeByte size 7).bind ((writes_writeBytes size random.randBytes.toList).bind hq)

theorem writes_decryptedBlock (c : Connection) (random : HeaderRandom) (pseq : UInt32) (type : UInt8) (length : Nat) :
    Writes size (writeDecryptedBlock size c random pseq type length)
      (c.decryptedBlockBytes random pseq type length) := by
  unfold writeDecryptedBlock decryptedBlockBytes
  rw [if_pos (pflags_and_callID type length), if_pos (pflags_and_proto type length)]
  refine (writes_writeInt32 size _).bind ((writes_writeInt64 size _).bind (writes_random size random
    ((writes_writeInt32 size _).bind ((writes_writeBytes size _).bind ((writes_writeInt32 size _).bind
      ((writes_writeInt32 size _).bind ((writes_writeInt32 size _).bind ((writes_writeInt32 size _).bind ?_))))))))
  split
  · exact writes_writeTlLength size length
  · exact Writes.pure size

theorem writes_extra {x : UnacknowledgedExtraData} (h : x.data.length ≤ 254) :
    Writes size (writeExtra size x) (extraBytes x.bytes) :=
  (writes_assert (decide_eq_true h)).bind ((writes_writeByte size _).bind ((writes_writeByte size _).bind
    (writes_writeBytes size _)))

theorem writes_extras (hshort : ∀ x ∈ c.currentExtras, x.data.length ≤ 254) :
    Writes size (writeExtras size c) c.extrasBytes := by
  unfold writeExtras extrasBytes
  split
  · by_cases hempty : c.currentExtras = []
    · rw [if_pos (List.isEmpty_iff.mpr hempty), if_pos hempty]
      exact writes_writeByte size 0
    · rw [if_neg (fun h => hempty (List.isEmpty_iff.mp h)), if_neg hempty, List.flatMap_map]
      have hall := Writes.forM c.currentExtras fun x hx => writes_extra size (hshort x hx)
      exact (writes_writeByte size _).bind ((writes_writeByte size _).bind hall)
  · exact Writes.pure size

theorem writes_packetHeader (hshort : ∀ x ∈ c.currentExtras, x.data.length ≤ 254) (random : HeaderRandom)
    (pseq : UInt32) (type : UInt8) (length : Nat) :
    Writes size (writePacketHeader size c random pseq type length) (c.headerBytes random pseq type length) := by
  unfold writePacketHeader headerBytes
  split
  · exact writes_decryptedBlock size c random pseq type length
  · unfold writeSimpleBlock simpleBlockBytes
    exact (writes_writeInt32 size _).bind ((writes_writeInt64 size _).bind (writes_random size random
      ((writes_writeTlLength size _).bind ((writes_writeByte size _).bind ((writes_writeInt32 size _).bind
        ((writes_writeInt32 size _).bind ((writes_writeInt32 size _).bind (writes_extras size hshort))))))))

end

/-! ## Reading them -/

section
variable (c : Connection)

theorem reads_skipPadded {count : Nat} {x : Bytes} (h : x.length = count + pad4 count) :
    Reads (skipPadded count) x () := by
  intro pre rest _
  have hle : ¬(pre ++ (x ++ rest)).length < pre.length + count + pad4 count := by
    rw [List.length_append, List.length_append]
    omega
  change BufferInputStream.seek (pre.length + count + pad4 count) ⟨pre ++ (x ++ rest), pre.length⟩ = _
  rw [BufferInputStream.seek, if_neg hle, h, Nat.add_assoc]

theorem reads_random (random : HeaderRandom) : Reads skipTlBytes (randomBytes random) () := by
  have hseven : Reads BufferInputStream.readTlLength [7] 7 := @reads_readTlLength 7 (by decide)
  exact hseven.bind (reads_skipPadded length_toList)

theorem reads_extra {bytes : Bytes} (h : bytes.length ≤ 255) : Reads readExtra (extraBytes bytes) bytes := by
  refine (reads_readByte (UInt8.ofNat bytes.length)).bind (reads_readBytes_of_length ?_)
  rw [UInt8.toNat_ofNat', Nat.mod_eq_of_lt (Nat.lt_succ_of_le h)]

theorem reads_flag_extras (hver : 6 ≤ c.peerVersion) (hcnt : c.currentExtras.length ≤ 255)
    (hshort : ∀ x ∈ c.currentExtras, x.data.length ≤ 254) : ∃ pflags extras, c.extrasBytes = [pflags] ++ extras ∧
      Reads (readExtras pflags) extras (c.currentExtras.map UnacknowledgedExtraData.bytes) := by
  unfold extrasBytes
  rw [if_pos hver]
  by_cases hempty : c.currentExtras = []
  · refine ⟨0, [], if_pos hempty, ?_⟩
    rw [hempty]
    exact Reads.pure []
  · rw [if_neg hempty]
    refine ⟨XPFLAG_HAS_EXTRA, _, rfl, ?_⟩
    have hlen : (UInt8.ofNat c.currentExtras.length).toNat =
        (c.currentExtras.map UnacknowledgedExtraData.bytes).length := by
      rw [UInt8.toNat_ofNat', Nat.mod_eq_of_lt (Nat.lt_succ_of_le hcnt), List.length_map]
    have hextra : ∀ bytes ∈ c.currentExtras.map UnacknowledgedExtraData.bytes,
        Reads readExtra (extraBytes bytes) bytes := by
      intro bytes hbs
      obtain ⟨x, hx, rfl⟩ := List.mem_map.mp hbs
      exact reads_extra (Nat.succ_le_succ (hshort x hx))
    have hall := Reads.repeatM _ hextra
    rw [← hlen] at hall
    exact (reads_readByte (UInt8.ofNat c.currentExtras.length)).bind hall

variable (random : HeaderRandom) (pseq : UInt32) (type : UInt8) {length : Nat}

theorem reads_decryptedBlock (hlen : length < 2 ^ 24) (peerVersion : Int32) :
    Reads (readHeader c.callID.toList peerVersion) (c.decryptedBlockBytes random pseq type length)
      (.ok ⟨type, c.window.lastRemoteSeq, pseq, ackMask c.window.recvPacketTimes, 0, length⟩) := by
  have hcallID : Reads (readCallID (pflags type length) c.callID.toList) c.callID.toList true := by
    unfold readCallID
    rw [if_pos (pflags_and_callID type length)]
    have hread := (reads_readBytes_of_length (@length_toList _ _ c.callID)).bind_pure fun pktCallID =>
      pktCallID == c.callID.toList
    rwa [beq_self_eq_true] at hread
  have hprotocol : Reads (readProtocol (pflags type length)) (leBits PROTOCOL_NAME.toBitVec) true := by
    unfold readProtocol
    rw [if_pos (pflags_and_proto type length)]
    exact (reads_readInt32 PROTOCOL_NAME).bind_pure fun proto => proto == PROTOCOL_NAME
  have hskip : Reads (skipExtra (pflags type length)) [] () := by
    unfold skipExtra
    rw [if_neg (not_not.mpr (pflags_and_extra type length))]
    exact Reads.pure ()
  have hinner : Reads (readInnerLen (pflags type length)) (if 0 < length then tlLengthBytes length else []) length := by
    unfold readInnerLen
    by_cases hpos : 0 < length
    · rw [if_pos hpos, if_pos ((pflags_and_data type length).mpr hpos)]
      exact reads_readTlLength hlen
    · rw [if_neg hpos, if_neg (mt (pflags_and_data type length).mp hpos), Nat.eq_zero_of_not_pos hpos]
      exact Reads.pure 0
  have hbody : Reads (readDecryptedBody c.callID.toList (pflags type length))
      (c.callID.toList ++ (leBits c.window.lastRemoteSeq.toBitVec ++ (leBits pseq.toBitVec ++
        (leBits (ackMask c.window.recvPacketTimes).toBitVec ++ (leBits PROTOCOL_NAME.toBitVec ++
          if 0 < length then tlLengthBytes length else [])))))
      (.ok ⟨((pflags type length >>> 24) &&& 0xFF).toUInt8, c.window.lastRemoteSeq, pseq,
        ackMask c.window.recvPacketTimes, 0, length⟩) := by
    unfold readDecryptedBody
    rw [if_pos (pflags_and_seq type length)]
    exact hcallID.bind ((reads_readInt32 _).bind ((reads_readInt32 _).bind ((reads_readInt32 _).bind
      (hprotocol.bind (hskip.bind (hinner.bind_pure _))))))
  rw [type_of_pflags] at hbody
  unfold decryptedBlockBytes readHeader
  refine (reads_readInt32 TLID_DECRYPTED_AUDIO_BLOCK).bind ?_
  rw [if_pos rfl]
  exact (reads_readInt64 _).bind ((reads_random random).bind ((reads_readInt32 _).bind hbody))

variable {peerVersion : Int32}

theorem reads_simpleBlock (hlen : length + 13 < 2 ^ 24) {flagBytes : Bytes} {pflags : UInt8}
    (hflags : Reads (readPflags peerVersion) flagBytes pflags) : Reads (readHeader c.callID.toList peerVersion)
      (leBits TLID_SIMPLE_AUDIO_BLOCK.toBitVec ++ (leBits random.randomID.toBitVec ++ (randomBytes random ++
        (tlLengthBytes (length + 13) ++ ([type] ++ (leBits c.window.lastRemoteSeq.toBitVec ++ (leBits pseq.toBitVec ++
          (leBits (ackMask c.window.recvPacketTimes).toBitVec ++ flagBytes))))))))
      (.ok ⟨type, c.window.lastRemoteSeq, pseq, ackMask c.window.recvPacketTimes, pflags, length + 13⟩) := by
  unfold readHeader
  refine (reads_readInt32 TLID_SIMPLE_AUDIO_BLOCK).bind ?_
  rw [if_neg (by decide), if_pos rfl]
  exact (reads_readInt64 _).bind ((reads_random random).bind ((reads_readTlLength hlen).bind
    ((reads_readByte type).bind ((reads_readInt32 _).bind ((reads_readInt32 _).bind ((reads_readInt32 _).bind
      (hflags.bind_pure _)))))))

theorem reads_packet_of_header {callID : Bytes} {header : ReceivedHeader} {x y : Bytes} {extras : List Bytes}
    (hheader : Reads (readHeader callID peerVersion) x (.ok header))
    (hextras : Reads (readExtras header.pflags) y extras) : Reads (readPacket callID peerVersion) (x ++ y)
      (.ok ⟨header.type, header.ackId, header.pseq, header.acks, extras⟩) :=
  hheader.bind (hextras.bind_pure fun extras =>
    (Except.ok ⟨header.type, header.ackId, header.pseq, header.acks, extras⟩ : Except Rejection PacketHeader))

theorem reads_packet (hcnt : c.currentExtras.length ≤ 255) (hshort : ∀ x ∈ c.currentExtras, x.data.length ≤ 254)
    (hlen : length + 13 < 2 ^ 24) (hver : c.isDecryptedBlock = false → (6 ≤ peerVersion ↔ 6 ≤ c.peerVersion)) :
    Reads (readPacket c.callID.toList peerVersion) (c.headerBytes random pseq type length)
      (.ok (c.packetHeader pseq type)) := by
  unfold headerBytes packetHeader sentExtras
  cases hblock : c.isDecryptedBlock with
  | true =>
    have hheader := c.reads_decryptedBlock random pseq type (show length < 2 ^ 24 by omega) peerVersion
    have hextras : Reads (readExtras 0) [] [] := Reads.pure []
    have hpkt := reads_packet_of_header hheader hextras
    rwa [List.append_nil] at hpkt
  | false =>
    by_cases hsix : 6 ≤ c.peerVersion
    · obtain ⟨pflags, extras, hbs, hextras⟩ := c.reads_flag_extras hsix hcnt hshort
      have hflags : Reads (readPflags peerVersion) [pflags] pflags := by
        unfold readPflags
        rw [if_pos ((hver hblock).mpr hsix)]
        exact reads_readByte pflags
      have hpkt := reads_packet_of_header (c.reads_simpleBlock random pseq type hlen hflags) hextras
      simp only [List.append_assoc] at hpkt
      simpa only [simpleBlockBytes, hbs, hsix, decide_true, Bool.not_false, Bool.and_self, if_true, if_false,
        Bool.false_eq_true] using hpkt
    · have hflags : Reads (readPflags peerVersion) [] 0 := by
        unfold readPflags
        rw [if_neg (mt (hver hblock).mp hsix)]
        exact Reads.pure 0
      have hextras : Reads (readExtras 0) [] [] := Reads.pure []
      have hpkt := reads_packet_of_header (c.reads_simpleBlock random pseq type hlen hflags) hextras
      rw [List.append_nil] at hpkt
      simpa only [simpleBlockBytes, extrasBytes, hsix, decide_false, Bool.and_false, if_false, Bool.false_eq_true,
        List.append_nil] using hpkt

end

theorem length_headerBytes_le {c : Connection} (h : WellFormedExtras c.currentExtras)
    (hshort : ∀ x ∈ c.currentExtras, x.data.length ≤ 254) (random : HeaderRandom) (pseq : UInt32) (type : UInt8)
    (length : Nat) : (c.headerBytes random pseq type length).length ≤ 200 := by
  have hrandom : (randomBytes random).length = 8 := congrArg Nat.succ length_toList
  have hcallID : c.callID.toList.length = 16 := length_toList
  have hshortLen := length_tlLengthBytes_le length
  have hlongLen := length_tlLengthBytes_le (length + 13)
  have hextra : ∀ x ∈ c.currentExtras, (extraBytes x.bytes).length ≤ 20 := by
    intro x hx
    obtain ⟨extra, -, hdata⟩ := h.api x hx
    have hle := extra.length_data_le (hdata ▸ hshort x hx)
    rw [← hdata] at hle
    simp only [extraBytes, UnacknowledgedExtraData.bytes, List.length_cons]
    omega
  have hextras : c.extrasBytes.length ≤ 2 + 20 * 6 := by
    unfold extrasBytes
    split
    · split
      · decide
      · have hsum : ((c.currentExtras.map UnacknowledgedExtraData.bytes).flatMap extraBytes).length ≤
            c.currentExtras.length * 20 := by
          rw [List.flatMap_map, List.length_flatMap]
          refine (List.sum_le_card_nsmul _ 20 fun n hn => ?_).trans (by simp)
          obtain ⟨x, hx, rfl⟩ := List.mem_map.mp hn
          exact hextra x hx
        have hcnt := h.length_le
        simp only [List.length_cons]
        omega
    · exact Nat.zero_le _
  unfold headerBytes
  split
  · unfold decryptedBlockBytes
    simp only [List.length_append, length_leBits, hrandom, hcallID]
    split
    · omega
    · simp
  · unfold simpleBlockBytes
    simp only [List.length_append, length_leBits, hrandom, List.length_cons, List.length_nil]
    omega

theorem writePacket_eq {c : Connection} (h : WellFormedExtras c.currentExtras)
    (hshort : ∀ x ∈ c.currentExtras, x.data.length ≤ 254) (random : HeaderRandom) (pseq : UInt32) (type : UInt8)
    {payload : Bytes} (hpay : payload.length ≤ 1024) :
    c.writePacket random pseq type payload = .ok (c.headerBytes random pseq type payload.length ++ payload) := by
  have hheader := length_headerBytes_le h hshort random pseq type payload.length
  have hwrites := (writes_packetHeader 1500 hshort random pseq type payload.length).bind
    (writes_writeBytes 1500 payload)
  unfold writePacket
  rw [hwrites [] (by rw [List.length_append, List.length_nil]; omega)]
  rfl

/-- Extras that are short enough to be counted come through in the layout that has them, for every state of the
connection and of the window. -/
theorem packet_roundTrip (c : Connection) (hextras : FromApi c.currentExtras)
    (hshort : ∀ x ∈ c.currentExtras, x.data.length ≤ 254) (random : HeaderRandom) (pseq : UInt32) (type : UInt8)
    (payload : Bytes) (hpayload : payload.length ≤ 1024) (peerVersion : Int32)
    (hversion : 6 ≤ peerVersion ↔ 6 ≤ c.peerVersion) :
    ∃ header : Bytes, c.writePacket random pseq type payload = .ok (header ++ payload) ∧
      (readPacket c.callID.toList peerVersion).run ⟨header ++ payload, 0⟩ =
        .ok (.ok (c.packetHeader pseq type), ⟨header ++ payload, header.length⟩) := by
  have hwell := hextras.wellFormed
  have hcount : c.currentExtras.length ≤ 255 := hwell.length_le.trans (by decide)
  have hlength := length_headerBytes_le hwell hshort random pseq type payload.length
  refine ⟨_, writePacket_eq hwell hshort random pseq type hpayload, ?_⟩
  exact (c.reads_packet random pseq type hcount hshort (by omega) fun _ => hversion).run payload
    (lt_of_le_of_lt hlength (by decide))

/-- A call whose init is not acknowledged yet, and a change of the network. -/
def networkChange : Connection :=
  ⟨.waitInitAck, 6, replicate 16 0, ReceiveWindow.init, sendExtra (ApiExtra.networkChanged 0).data 4 []⟩

/-- An established call, and the key of a group call. -/
def groupKey : Connection :=
  ⟨.established, 6, replicate 16 0, ReceiveWindow.init,
    sendExtra (ApiExtra.groupCallKey (replicate 256 7)).data 5 []⟩

def zeroRandom : HeaderRandom := ⟨0, replicate 7 0⟩

/-- The change of the network is in no header before the call is established, and the key is too long to be counted. -/
theorem extras_not_sent :
    FromApi networkChange.currentExtras ∧ FromApi groupKey.currentExtras ∧
      networkChange.currentExtras.map UnacknowledgedExtraData.bytes = [[4, 0, 0, 0, 0]] ∧
      (∃ header : Bytes, networkChange.writePacket zeroRandom 1 14 [] = .ok header ∧
        (readPacket networkChange.callID.toList 6).run ⟨header, 0⟩ =
          .ok (.ok ⟨14, 0, 1, 0, []⟩, ⟨header, header.length⟩)) ∧
      groupKey.writePacket zeroRandom 1 14 [] = .error .assertion :=
  ⟨FromApi.empty.send (.networkChanged 0), FromApi.empty.send (.groupCallKey (replicate 256 7)), by decide,
    ⟨_, rfl, by decide⟩, by decide +kernel⟩

/-- A muted stream in an established call, with a payload. -/
theorem packet_roundTrip_streamFlags :
    ∃ header : Bytes,
      Connection.writePacket ⟨.established, 6, replicate 16 0, ReceiveWindow.init,
        sendExtra (ApiExtra.streamFlags 1 0).data 1 []⟩ zeroRandom 9 4 [1, 2, 3] = .ok (header ++ [1, 2, 3]) ∧
      (readPacket (replicate 16 0).toList 7).run ⟨header ++ [1, 2, 3], 0⟩ =
        .ok (.ok ⟨4, 0, 9, 0, [[1, 1, 0, 0, 0, 0]]⟩, ⟨header ++ [1, 2, 3], header.length⟩) :=
  packet_roundTrip ⟨.established, 6, replicate 16 0, ReceiveWindow.init,
    sendExtra (ApiExtra.streamFlags 1 0).data 1 []⟩ (FromApi.empty.send (.streamFlags 1 0)) (by decide) zeroRandom 9 4
    [1, 2, 3] (by decide) 7 (by decide)

end Connection

end TelegramClient.VoIP
