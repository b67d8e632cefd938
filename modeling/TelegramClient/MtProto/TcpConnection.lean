import TelegramClient.Lib.ExactReads

/-!
# The TCP connection

Packets are put on the wire with their length in front. The reader asks the socket for exact lengths, and the tag of
the read that is answered says what the bytes are.

* `frame` / `sendDatas` : the framing of outgoing packets, before the control header and the CTR layer;
* `receive_sendDatas` : **every list of packets is delivered as it was sent, however the stream is cut**.
-/

namespace TelegramClient.MtProto
open List
open ExactReader (serve_front serve_of_lt)

/-! ## Framing -/

/-- A packet with its length. The intermediate format appends `padding`, up to 15 random bytes. -/
def frame (useIntermediateFormat requestQuickAck : Bool) (padding data : Bytes) : Bytes :=
  if useIntermediateFormat then
    let length := BitVec.ofNat 32 data.length + BitVec.ofNat 32 padding.length
    let length := if requestQuickAck then length ||| 0x80000000#32 else length
    leBits length ++ data ++ padding
  else
    let quarterLength := BitVec.ofNat 32 (data.length / 4)
    let flag (marker : UInt8) : UInt8 := if requestQuickAck then marker ||| 0x80 else marker
    if quarterLength.toInt ≤ 0x7e then
      flag (UInt8.ofNat quarterLength.toNat) :: data
    else
      flag 0x7f :: (leBits quarterLength).take 3 ++ data

/-- The bytes of `sendDatas:`, with the padding of each packet. -/
def sendDatas (useIntermediateFormat requestQuickAck : Bool) (padding : Nat → Bytes) (datas : List Bytes) : Bytes :=
  (datas.mapIdx fun i data => frame useIntermediateFormat requestQuickAck (padding i) data).flatten

/-! ## The reader -/

inductive MTTcpReadTag where
  | packetShortLength
  | packetLongLength
  | packetFullLength
  | packetBody
  | packetHead
  | quickAck
  | fullQuickAck
  deriving DecidableEq

/-- From this length on, the head of a packet is read first. -/
def progressCalculationThreshold : Nat := 4096

/-- The connection once the socket is open, with the packets and quick acks that its delegate got. -/
structure MTTcpConnection where
  useIntermediateFormat : Bool
  closed : Bool
  /-- The read that the socket has to answer. -/
  read : Option (MTTcpReadTag × Nat)
  quickAckByte : UInt8
  packetHead : Option Bytes
  packetRestLength : Nat
  receivedData : List Bytes
  receivedQuickAcks : List (BitVec 32)
  deriving DecidableEq

namespace MTTcpConnection

def readDataToLength (c : MTTcpConnection) (length : Nat) (tag : MTTcpReadTag) : MTTcpConnection :=
  { c with read := some (tag, length) }

def closeAndNotify (c : MTTcpConnection) : MTTcpConnection := { c with closed := true, read := none }

def readNextLength (c : MTTcpConnection) : MTTcpConnection :=
  if c.useIntermediateFormat then c.readDataToLength 4 .packetFullLength else c.readDataToLength 1 .packetShortLength

/-- The connection when its socket was connected. -/
def connected (useIntermediateFormat : Bool) : MTTcpConnection :=
  readNextLength ⟨useIntermediateFormat, false, none, 0, none, 0, [], []⟩

def readPacketBody (c : MTTcpConnection) (packetBodyLength : Nat) : MTTcpConnection :=
  if progressCalculationThreshold ≤ packetBodyLength then
    { c with packetRestLength := packetBodyLength - 128 }.readDataToLength 128 .packetHead
  else
    c.readDataToLength packetBodyLength .packetBody

def swapInt32 (x : BitVec 32) : BitVec 32 := ofLeBits 32 (leBits x).reverse

def clearTopBit (x : BitVec 32) : BitVec 32 := x &&& 0x7fffffff#32

def receivedQuickAck (c : MTTcpConnection) (ackId : BitVec 32) : MTTcpConnection :=
  { c with receivedQuickAcks := c.receivedQuickAcks ++ [ackId] }

def trimPadding (packetData : Bytes) : Bytes :=
  if packetData.length % 4 ≠ 0 then packetData.take (BitVec.ofNat 32 packetData.length &&& ~~~3#32).toNat
  else packetData

def packetHeader (packetData : Bytes) : BitVec 32 := ofLeBits 32 (packetData.take 4)

def isQuickAckPacket (packetData : Bytes) : Bool :=
  decide (4 ≤ packetData.length ∧ packetHeader packetData = 0xffffffff#32 ∧ 8 ≤ packetData.length)

def isNopPacket (packetData : Bytes) : Bool :=
  decide (4 ≤ packetData.length ∧ packetHeader packetData = 0#32 ∧ packetData.length < 16)

def didReadShortLength (c : MTTcpConnection) (data : Bytes) : MTTcpConnection :=
  let quarterLengthMarker := data.headD 0
  if quarterLengthMarker &&& 0x80 = 0x80 then
    { c with quickAckByte := quarterLengthMarker }.readDataToLength 3 .quickAck
  else if 0x01 ≤ quarterLengthMarker ∧ quarterLengthMarker ≤ 0x7e then
    c.readPacketBody (quarterLengthMarker.toNat * 4)
  else if quarterLengthMarker = 0x7f then
    c.readDataToLength 3 .packetLongLength
  else
    c.closeAndNotify

def didReadLongLength (c : MTTcpConnection) (data : Bytes) : MTTcpConnection :=
  let quarterLength := ofLeBits 32 (data.take 3)
  if quarterLength.toNat ≤ 0 ∨ (4 * 1024 * 1024) / 4 < quarterLength.toNat then c.closeAndNotify
  else c.readPacketBody (quarterLength * 4#32).toNat

def didReadFullLength (c : MTTcpConnection) (data : Bytes) : MTTcpConnection :=
  let length := ofLeBits 32 (data.take 4)
  if length &&& 0x80000000#32 = 0x80000000#32 then
    (c.receivedQuickAck (swapInt32 (clearTopBit length))).readNextLength
  else if 16 * 1024 * 1024 < length.toInt then
    c.closeAndNotify
  else
    c.readPacketBody length.toNat

def didReadPacketBody (c : MTTcpConnection) (data : Bytes) : MTTcpConnection :=
  let packetData := trimPadding (c.packetHead.getD [] ++ data)
  let c := { c with packetHead := none }
  if isQuickAckPacket packetData then
    (c.receivedQuickAck (swapInt32 (clearTopBit (ofLeBits 32 (slice packetData 4 4))))).readNextLength
  else if isNopPacket packetData then
    c.readNextLength
  else
    { c with receivedData := c.receivedData ++ [packetData] }.readNextLength

/-- `socket:didReadData:withTag:` for the tags of the packet stream. -/
def didReadData (c : MTTcpConnection) (data : Bytes) (tag : MTTcpReadTag) : MTTcpConnection :=
  if c.closed then c
  else
    match tag with
    | .packetShortLength => c.didReadShortLength data
    | .packetLongLength => c.didReadLongLength data
    | .packetFullLength => c.didReadFullLength data
    | .packetHead => { c with packetHead := some data }.readDataToLength c.packetRestLength .packetBody
    | .packetBody => c.didReadPacketBody data
    | .quickAck =>
      (c.receivedQuickAck (clearTopBit (swapInt32 (ofLeBits 32 (c.quickAckByte :: data.take 3))))).readNextLength
    | .fullQuickAck => c

/-- The connection on its socket: the answer to a read is passed on under the tag of that read. -/
def reader : ExactReader MTTcpConnection where
  pending c := c.read.map Prod.snd
  deliver c data :=
    match c.read with
    | none => c
    | some (tag, _) => { c with read := none }.didReadData data tag

/-! ## Frames are read back -/

/-- Open, in the abbreviated format, and waiting for the length of the next packet. -/
structure AwaitsLength (c : MTTcpConnection) : Prop where
  abbreviated : c.useIntermediateFormat = false
  isOpen : c.closed = false
  read : c.read = some (.packetShortLength, 1)
  packetHead : c.packetHead = none

/-- A packet that the framing carries: whole words, up to 4 MiB, neither a nop nor a quick ack. -/
structure IsPlainPacket (data : Bytes) : Prop where
  words : data.length % 4 = 0
  min : 4 ≤ data.length
  max : data.length ≤ 4 * 1024 * 1024
  notNop : isNopPacket data = false
  notQuickAck : isQuickAckPacket data = false

def afterPacket (c : MTTcpConnection) (data : Bytes) : MTTcpConnection :=
  { c with
    read := some (.packetShortLength, 1)
    packetRestLength :=
      if progressCalculationThreshold ≤ data.length then data.length - 128 else c.packetRestLength
    receivedData := c.receivedData ++ [data] }

theorem awaitsLength_connected : AwaitsLength (connected false) := ⟨rfl, rfl, rfl, rfl⟩

variable {c : MTTcpConnection} {data : Bytes}

theorem AwaitsLength.afterPacket (h : AwaitsLength c) : AwaitsLength (c.afterPacket data) :=
  ⟨h.abbreviated, h.isOpen, rfl, h.packetHead⟩

@[simp] theorem afterPacket_receivedData : (c.afterPacket data).receivedData = c.receivedData ++ [data] := rfl

@[simp] theorem afterPacket_receivedQuickAcks :
    (c.afterPacket data).receivedQuickAcks = c.receivedQuickAcks := rfl

theorem trimPadding_of_words (h : data.length % 4 = 0) : trimPadding data = data := by
  unfold trimPadding
  exact if_neg (by omega)

theorem serve_readPacketBody {body : Bytes} (rest : Bytes) (hopen : c.closed = false) (hhead : c.packetHead = none)
    (hbody : 0 < body.length) :
    reader.serve (c.readPacketBody body.length) (body ++ rest) = reader.serve
      (didReadPacketBody { c with
        read := none
        packetRestLength :=
          if progressCalculationThreshold ≤ body.length then body.length - 128 else c.packetRestLength } body) rest := by
  unfold readPacketBody
  split
  next hlen =>
      have hlen' : 4096 ≤ body.length := hlen
      -- the head of 128 bytes is kept, then the rest is read
      have hcut : body ++ rest = body.take 128 ++ (body.drop 128 ++ rest) := by
        rw [← append_assoc, take_append_drop]
      have hhead128 : (body.take 128).length = 128 := by rw [length_take]; omega
      have hdeliver : reader.deliver
          ({ c with packetRestLength := body.length - 128 }.readDataToLength 128 .packetHead) (body.take 128) =
          { c with
            packetRestLength := body.length - 128
            packetHead := some (body.take 128)
            read := some (.packetBody, body.length - 128) } := by
        simp [reader, readDataToLength, didReadData, hopen]
      rw [hcut, serve_front _ rfl (by decide) hhead128, hdeliver,
        serve_front rest rfl (by omega) length_drop]
      simp [reader, didReadData, hopen, didReadPacketBody, hhead]
  next hlen =>
      rw [serve_front rest rfl hbody rfl]
      simp [reader, readDataToLength, didReadData, hopen]

theorem serve_plainPacket (rest : Bytes) (hformat : c.useIntermediateFormat = false) (hopen : c.closed = false)
    (hhead : c.packetHead = none) (h : IsPlainPacket data) :
    reader.serve (c.readPacketBody data.length) (data ++ rest) = reader.serve (c.afterPacket data) rest := by
  have hmin := h.min
  rw [serve_readPacketBody rest hopen hhead (by omega)]
  simp [didReadPacketBody, hhead, trimPadding_of_words h.words, h.notNop, h.notQuickAck, readNextLength, hformat,
    readDataToLength, afterPacket]

/-! ### The two markers -/

theorem frame_abbreviated (padding : Bytes) (h : IsPlainPacket data) : frame false false padding data =
      if data.length / 4 ≤ 0x7e then UInt8.ofNat (data.length / 4) :: data
      else 0x7f :: (leBytes 3 (data.length / 4) ++ data) := by
  have hmax := h.max
  have hnat : (BitVec.ofNat 32 (data.length / 4)).toNat = data.length / 4 := by
    rw [BitVec.toNat_ofNat]
    omega
  have hint : (BitVec.ofNat 32 (data.length / 4)).toInt = (data.length / 4 : Nat) := by
    rw [BitVec.toInt_eq_toNat_of_lt (by rw [hnat]; omega), hnat]
  simp only [frame, hint, leBits, hnat]
  norm_cast

theorem shortMarker (q : Nat) (hq : q < 0x7f) :
    UInt8.ofNat q &&& 0x80 ≠ 0x80 ∧ UInt8.ofNat q ≤ 0x7e ∧ (UInt8.ofNat q).toNat = q := by
  revert q
  decide

theorem didReadShortLength_short {q : Nat} (hpos : 1 ≤ q) (hq : q ≤ 0x7e) :
    c.didReadShortLength [UInt8.ofNat q] = c.readPacketBody (q * 4) := by
  obtain ⟨hflag, hmax, hnat⟩ := shortMarker q (by omega)
  have hmin : 1 ≤ UInt8.ofNat q := UInt8.le_iff_toNat_le.mpr (by rw [hnat]; exact hpos)
  simp [didReadShortLength, hflag, hmin, hmax, hnat]

theorem didReadShortLength_long : c.didReadShortLength [0x7f] = c.readDataToLength 3 .packetLongLength := by
  have hflag : (0x7f : UInt8) &&& 0x80 ≠ 0x80 := by decide
  simp [didReadShortLength, hflag]

theorem didReadLongLength_of_le {q : Nat} (hpos : 1 ≤ q) (hq : q ≤ 1024 * 1024) :
    c.didReadLongLength (leBytes 3 q) = c.readPacketBody (q * 4) := by
  have hbits : (ofLeBits 32 (leBytes 3 q)).toNat = q := by
    rw [ofLeBits, BitVec.toNat_ofNat, ofLe_leBytes]
    omega
  have htake : (leBytes 3 q).take 3 = leBytes 3 q := take_of_length_le (by rw [length_leBytes])
  unfold didReadLongLength
  simp only [htake, hbits]
  rw [if_neg (by omega), BitVec.toNat_mul, hbits, Nat.mod_eq_of_lt (by simp; omega)]
  rfl

theorem serve_frame (padding rest : Bytes) (hc : AwaitsLength c) (h : IsPlainPacket data) :
    reader.serve c (frame false false padding data ++ rest) = reader.serve (c.afterPacket data) rest := by
  have hmin := h.min
  have hmax := h.max
  have hlen : data.length / 4 * 4 = data.length := Nat.div_mul_cancel (Nat.dvd_of_mod_eq_zero h.words)
  have hpend : reader.pending c = some 1 := by simp [reader, hc.read]
  -- with the length known, only the body remains, whichever marker it came in
  have hbody : reader.serve ({ c with read := none }.readPacketBody data.length) (data ++ rest) =
      reader.serve (c.afterPacket data) rest :=
    serve_plainPacket rest hc.abbreviated hc.isOpen hc.packetHead h
  rw [frame_abbreviated padding h]
  split
  next hshort =>
      have hdeliver : reader.deliver c [UInt8.ofNat (data.length / 4)] =
          { c with read := none }.readPacketBody data.length := by
        simp [reader, hc.read, didReadData, hc.isOpen, didReadShortLength_short (by omega) hshort, hlen]
      rw [cons_append, ← singleton_append, serve_front _ hpend (by decide) rfl, hdeliver,
        hbody]
  next hlong =>
      have hdeliver : reader.deliver c [0x7f] = { c with read := some (.packetLongLength, 3) } := by
        simp [reader, hc.read, didReadData, hc.isOpen, didReadShortLength_long, readDataToLength]
      have hdeliver3 : reader.deliver { c with read := some (.packetLongLength, 3) } (leBytes 3 (data.length / 4)) =
          { c with read := none }.readPacketBody data.length := by
        simp [reader, didReadData, hc.isOpen, didReadLongLength_of_le (q := data.length / 4) (by omega) (by omega), hlen]
      rw [cons_append, ← singleton_append, serve_front _ hpend (by decide) rfl, hdeliver,
        append_assoc, serve_front _ rfl (by decide) (length_leBytes _ _), hdeliver3, hbody]

theorem serve_sendDatas (padding : Nat → Bytes) (hc : AwaitsLength c) {datas : List Bytes}
    (h : ∀ data ∈ datas, IsPlainPacket data) :
    reader.serve c (sendDatas false false padding datas) = (datas.foldl afterPacket c, []) := by
  induction datas generalizing c padding with
  | nil => exact serve_of_lt (show reader.pending c = some 1 by simp [reader, hc.read]) (by simp [sendDatas])
  | cons data datas ih =>
    have hstream : sendDatas false false padding (data :: datas) =
        frame false false (padding 0) data ++ sendDatas false false (fun i => padding (i + 1)) datas := by
      simp [sendDatas, mapIdx_cons]
    rw [hstream, serve_frame _ _ hc (h data (mem_cons_self ..)),
      ih _ hc.afterPacket fun d hd => h d (mem_cons_of_mem data hd), foldl_cons]

theorem AwaitsLength.foldl_afterPacket (hc : AwaitsLength c) (datas : List Bytes) :
    AwaitsLength (datas.foldl MTTcpConnection.afterPacket c) := by
  induction datas generalizing c with
  | nil => exact hc
  | cons data datas ih => exact ih hc.afterPacket

theorem foldl_afterPacket_received (c : MTTcpConnection) (datas : List Bytes) :
    (datas.foldl afterPacket c).receivedData = c.receivedData ++ datas ∧
      (datas.foldl afterPacket c).receivedQuickAcks = c.receivedQuickAcks := by
  induction datas generalizing c with
  | nil => simp
  | cons data datas ih => simp [ih]

/-- **Packets are delivered as they were sent.** Whatever list of packets `sendDatas:` frames, and wherever the stream
is cut on its way, a connection that awaits a length gets exactly these packets in their order, and awaits the next. -/
theorem receive_sendDatas (c : MTTcpConnection) (hc : AwaitsLength c) (padding : Nat → Bytes) (datas : List Bytes)
    (h : ∀ data ∈ datas, IsPlainPacket data) (chunks : List Bytes)
    (hchunks : chunks.flatten = sendDatas false false padding datas) :
    ∃ c', chunks.foldl reader.receive (c, []) = (c', []) ∧ AwaitsLength c' ∧
      c'.receivedData = c.receivedData ++ datas ∧ c'.receivedQuickAcks = c.receivedQuickAcks := by
  have hstart : reader.serve c [] = (c, []) :=
    serve_of_lt (show reader.pending c = some 1 by simp [reader, hc.read]) (by decide)
  refine ⟨datas.foldl afterPacket c, ?_, hc.foldl_afterPacket datas, foldl_afterPacket_received c datas⟩
  rw [← hstart, ExactReader.foldl_receive, nil_append, hchunks, serve_sendDatas padding hc h]

/-- A packet of one word, one with a long marker, and one whose head is read first. -/
theorem receive_sendDatas_three :
    let datas : List Bytes := [[1, 0, 0, 0], List.replicate 508 1, List.replicate 4096 1]
    ∃ c', [sendDatas false false (fun _ => []) datas].foldl reader.receive (connected false, []) = (c', []) ∧
      AwaitsLength c' ∧ c'.receivedData = datas ∧ c'.receivedQuickAcks = [] := by
  have hplain : ∀ data ∈ ([[1, 0, 0, 0], List.replicate 508 1, List.replicate 4096 1] : List Bytes),
      IsPlainPacket data := by
    simp only [forall_mem_cons, not_mem_nil, false_implies, implies_true, and_true]
    refine ⟨⟨?_, ?_, ?_, ?_, ?_⟩, ⟨?_, ?_, ?_, ?_, ?_⟩, ⟨?_, ?_, ?_, ?_, ?_⟩⟩ <;> decide +kernel
  exact receive_sendDatas (connected false) awaitsLength_connected (fun _ => []) _ hplain _ flatten_singleton

end MTTcpConnection

end TelegramClient.MtProto
