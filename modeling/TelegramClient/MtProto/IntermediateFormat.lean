import TelegramClient.MtProto.TcpConnection

/-!
# The intermediate format

Packets with up to 15 random bytes behind them. The length in front counts these bytes; the reader takes off what does
not fill a word.

* `AwaitsFullLength` : the reader between two packets;
* `receive_paddedFrames` : **every packet is delivered with the whole words of its padding**, and no frame affects another.
-/

namespace TelegramClient.MtProto
open List
open BitVec (getLsbD_and ofNat toNat_ofNat)

namespace MTTcpConnection

/-- Open, in the intermediate format, and waiting for the length of the next packet. -/
structure AwaitsFullLength (c : MTTcpConnection) : Prop where
  intermediate : c.useIntermediateFormat = true
  isOpen : c.closed = false
  read : c.read = some (.packetFullLength, 4)
  packetHead : c.packetHead = none

/-- Whole words, up to 16 MiB with the padding, and no quick ack. -/
structure PaddedPacket (data padding : Bytes) : Prop where
  words : data.length % 4 = 0
  min : 16 ≤ data.length
  max : data.length ≤ 16 * 1024 * 1024 - 15
  notQuickAck : packetHeader data ≠ 0xffffffff#32
  padding : padding.length ≤ 15

def keptPadding (padding : Bytes) : Bytes := padding.take (padding.length / 4 * 4)

def afterPaddedPacket (c : MTTcpConnection) (data padding : Bytes) : MTTcpConnection :=
  { c with
    read := some (.packetFullLength, 4)
    packetRestLength :=
      if progressCalculationThreshold ≤ (data ++ padding).length then (data ++ padding).length - 128
      else c.packetRestLength
    receivedData := c.receivedData ++ [data ++ keptPadding padding] }

variable {c : MTTcpConnection} {data padding : Bytes}

theorem awaitsFullLength_connected : AwaitsFullLength (connected true) := ⟨rfl, rfl, rfl, rfl⟩

theorem AwaitsFullLength.afterPaddedPacket (h : AwaitsFullLength c) : AwaitsFullLength (c.afterPaddedPacket data padding) :=
  ⟨h.intermediate, h.isOpen, rfl, h.packetHead⟩

/-! ## Whole words -/

theorem toNat_and_not_three {n : Nat} (h : n < 2 ^ 32) : (ofNat 32 n &&& ~~~3#32).toNat = n / 4 * 4 := by
  have hmask : ∀ i < 32, (~~~3#32).getLsbD i = !decide (i < 2) := by decide
  have hshift : ofNat 32 n &&& ~~~3#32 = (ofNat 32 n >>> 2) <<< 2 := by
    apply BitVec.eq_of_getLsbD_eq
    intro i hi
    rw [getLsbD_and, hmask i hi, BitVec.getLsbD_shiftLeft, BitVec.getLsbD_ushiftRight]
    by_cases hlow : i < 2
    · simp [hlow]
    · simp [hlow, hi, show 2 + (i - 2) = i by omega]
  rw [hshift, BitVec.toNat_shiftLeft, BitVec.toNat_ushiftRight, toNat_ofNat, Nat.mod_eq_of_lt h,
    Nat.shiftRight_eq_div_pow, Nat.shiftLeft_eq]
  omega

namespace PaddedPacket

variable (h : PaddedPacket data padding)
include h

theorem trimPadding_eq : trimPadding (data ++ padding) = data ++ keptPadding padding := by
  have hwords := h.words
  have hmax := h.max
  have hpad := h.padding
  have hlen : (data ++ padding).length = data.length + padding.length := length_append
  unfold trimPadding keptPadding
  split
  · next hpartial =>
    rw [toNat_and_not_three (by omega), hlen, show (data.length + padding.length) / 4 * 4 =
      data.length + padding.length / 4 * 4 by omega, take_length_add_append]
  · next hwhole =>
    rw [hlen] at hwhole
    rw [take_of_length_le (by omega)]

theorem notQuickAck_delivered : isQuickAckPacket (data ++ keptPadding padding) = false := by
  have hmin := h.min
  have hheader : packetHeader (data ++ keptPadding padding) = packetHeader data := by
    rw [packetHeader, packetHeader, take_append_of_le_length (by omega)]
  exact decide_eq_false fun hquick => h.notQuickAck (hheader ▸ hquick.2.1)

theorem notNop_delivered : isNopPacket (data ++ keptPadding padding) = false := by
  have hmin := h.min
  refine decide_eq_false fun hnop => ?_
  have hlen : (data ++ keptPadding padding).length = data.length + (keptPadding padding).length := length_append
  omega

end PaddedPacket

/-! ## Frames are read back -/

theorem didReadFullLength_padded (h : PaddedPacket data padding) :
    c.didReadFullLength (leBits (ofNat 32 data.length + ofNat 32 padding.length)) =
      c.readPacketBody (data ++ padding).length := by
  have hmax := h.max
  have hpad := h.padding
  set length := ofNat 32 data.length + ofNat 32 padding.length with hlen
  have hbits : ofLeBits 32 ((leBits length).take 4) = length := by
    rw [take_of_length_le (by rw [length_leBits]), ofLeBits_leBits (by decide)]
  have hnat : length.toNat = (data ++ padding).length := by
    rw [hlen, BitVec.toNat_add, toNat_ofNat, toNat_ofNat, length_append]
    omega
  have htotal : (data ++ padding).length = data.length + padding.length := length_append
  have hint : length.toInt = (data ++ padding).length := by
    rw [BitVec.toInt_eq_toNat_of_lt (by omega), hnat]
  have htop : length &&& 0x80000000#32 ≠ 0x80000000#32 := by
    intro htop
    have hbit : (length &&& 0x80000000#32).getLsbD 31 = true := by
      rw [htop]
      rfl
    have hclear : length.getLsbD 31 = false := Nat.testBit_lt_two_pow (by omega)
    rw [getLsbD_and, hclear, Bool.false_and] at hbit
    cases hbit
  unfold didReadFullLength
  simp only [hbits]
  rw [if_neg htop, if_neg (by omega), hnat]

theorem serve_paddedFrame (rest : Bytes) (hc : AwaitsFullLength c) (h : PaddedPacket data padding) :
    reader.serve c (frame true false padding data ++ rest) = reader.serve (c.afterPaddedPacket data padding) rest := by
  have hmin := h.min
  have htotal : (data ++ padding).length = data.length + padding.length := length_append
  have hframe : frame true false padding data ++ rest =
      leBits (ofNat 32 data.length + ofNat 32 padding.length) ++ (data ++ padding ++ rest) := by
    simp [frame]
  have hpend : reader.pending c = some 4 := by simp [reader, hc.read]
  have hdeliver : reader.deliver c (leBits (ofNat 32 data.length + ofNat 32 padding.length)) =
      { c with read := none }.readPacketBody (data ++ padding).length := by
    rw [← didReadFullLength_padded h]
    simp [reader, hc.read, didReadData, hc.isOpen]
  have hbody := @serve_readPacketBody { c with read := none } (data ++ padding) rest hc.isOpen
    hc.packetHead (by omega)
  rw [hframe, ExactReader.serve_front _ hpend (by decide) (length_leBits _), hdeliver, hbody]
  simp [didReadPacketBody, hc.packetHead, h.trimPadding_eq, h.notQuickAck_delivered, h.notNop_delivered, readNextLength,
    hc.intermediate, readDataToLength, afterPaddedPacket]

/-- The packet, and at most three words of its padding. -/
structure DeliveredAs (data delivered : Bytes) : Prop where
  starts : data <+: delivered
  words : delivered.length % 4 = 0
  excess : delivered.length ≤ data.length + 12

theorem PaddedPacket.delivered (h : PaddedPacket data padding) : DeliveredAs data (data ++ keptPadding padding) := by
  have hwords := h.words
  have hpad := h.padding
  have hkept : (keptPadding padding).length = padding.length / 4 * 4 := length_take_of_le (by omega)
  refine ⟨prefix_append _ _, ?_, ?_⟩
  · rw [length_append]
    omega
  · rw [length_append]
    omega

theorem serve_paddedFrames (padding : Nat → Bytes) (hc : AwaitsFullLength c) {datas : List Bytes}
    (h : ∀ i data, datas[i]? = some data → PaddedPacket data (padding i)) :
    ∃ c' delivered, reader.serve c (sendDatas true false padding datas) = (c', []) ∧ AwaitsFullLength c' ∧
      c'.receivedData = c.receivedData ++ delivered ∧ List.Forall₂ DeliveredAs datas delivered ∧
      c'.receivedQuickAcks = c.receivedQuickAcks := by
  induction datas generalizing c padding with
  | nil =>
    have hserve : reader.serve c (sendDatas true false padding []) = (c, []) :=
      ExactReader.serve_of_lt (show reader.pending c = some 4 by simp [reader, hc.read]) (by simp [sendDatas])
    exact ⟨c, [], hserve, hc, by simp, List.Forall₂.nil, rfl⟩
  | cons data datas ih =>
    have hdata : PaddedPacket data (padding 0) := h 0 data rfl
    have hnext : AwaitsFullLength (c.afterPaddedPacket data (padding 0)) := hc.afterPaddedPacket
    obtain ⟨c', delivered, hserve, hc', hreceived, hall, hacks⟩ :=
      ih (fun i => padding (i + 1)) hnext fun i data' hdata' => h (i + 1) data' hdata'
    have hstream : sendDatas true false padding (data :: datas) =
        frame true false (padding 0) data ++ sendDatas true false (fun i => padding (i + 1)) datas := by
      simp [sendDatas, mapIdx_cons]
    refine ⟨c', (data ++ keptPadding (padding 0)) :: delivered, ?_, hc', ?_, hall.cons hdata.delivered, hacks⟩
    · rw [hstream, serve_paddedFrame _ hc hdata, hserve]
    · rw [hreceived]
      simp [afterPaddedPacket]

/-- **Every packet is delivered with the whole words of its padding.** Wherever the stream is cut on its way, a
connection that awaits a length gets one packet for each frame, and awaits the next. -/
theorem receive_paddedFrames (c : MTTcpConnection) (hc : AwaitsFullLength c) (padding : Nat → Bytes) (datas : List Bytes)
    (h : ∀ i data, datas[i]? = some data → PaddedPacket data (padding i)) (chunks : List Bytes)
    (hchunks : chunks.flatten = sendDatas true false padding datas) :
    ∃ c' delivered, chunks.foldl reader.receive (c, []) = (c', []) ∧ AwaitsFullLength c' ∧
      c'.receivedData = c.receivedData ++ delivered ∧ List.Forall₂ DeliveredAs datas delivered ∧
      c'.receivedQuickAcks = c.receivedQuickAcks := by
  have hstart : reader.serve c [] = (c, []) :=
    ExactReader.serve_of_lt (show reader.pending c = some 4 by simp [reader, hc.read]) (by decide)
  rw [← hstart, ExactReader.foldl_receive, nil_append, hchunks]
  exact serve_paddedFrames padding hc h

/-- A packet of 1024 bytes with six bytes of padding and one of 16 bytes with thirteen, byte by byte. -/
theorem receive_paddedFrames_bytes :
    let padding : Nat → Bytes := fun i => replicate (6 + 7 * i) 7
    let datas : List Bytes := [replicate 1024 1, replicate 16 2]
    ∃ c' delivered,
      ((sendDatas true false padding datas).map ([·])).foldl reader.receive (connected true, []) = (c', []) ∧
      AwaitsFullLength c' ∧ c'.receivedData = (connected true).receivedData ++ delivered ∧
      List.Forall₂ DeliveredAs datas delivered ∧ c'.receivedQuickAcks = (connected true).receivedQuickAcks := by
  intro padding datas
  have hpadded : ∀ i data, datas[i]? = some data → PaddedPacket data (padding i) := by
    intro i data hdata
    match i with
    | 0 =>
      obtain rfl : replicate 1024 1 = data := Option.some.inj hdata
      exact ⟨by decide +kernel, by decide +kernel, by decide +kernel, by decide +kernel, by decide⟩
    | 1 =>
      obtain rfl : replicate 16 2 = data := Option.some.inj hdata
      exact ⟨by decide, by decide, by decide, by decide, by decide⟩
  exact receive_paddedFrames (connected true) awaitsFullLength_connected padding datas hpadded _
    ((flatMap_def ..).symm.trans (flatMap_singleton' _))

/-- A packet that begins with `0xffffffff` is taken for a quick ack, and so is a frame with the quick-ack bit. -/
theorem quickAck_notDelivered :
    let quickAckData : Bytes := replicate 4 255 ++ replicate 12 1
    let data : Bytes := replicate 16 1
    (reader.serve (connected true) (frame true false [] quickAckData)).1.receivedData = [] ∧
      (reader.serve (connected true) (frame true true [] data)).1.receivedData = [] := by
  decide +kernel

end MTTcpConnection

end TelegramClient.MtProto
