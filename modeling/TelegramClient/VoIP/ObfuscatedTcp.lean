import TelegramClient.Lib.BlockModes
import TelegramClient.Lib.FallibleRuns

/-!
# Relays over TCP

`NetworkSocketTCPObfuscated` sends packets through a TCP connection. In front of a packet stands its length in words, in
one byte or in four, and everything is encrypted with one key stream. `recv` may return less than was asked for.

* `send`, `receive` : a packet comes in and goes out;
* **`obfuscated_frames_iff`** : every packet is delivered exactly if no length is cut and every packet fits.

`E` and `iv` are the cipher and the counter of the connection. `pieces` says how much the calls of `recv` return at most,
and `memory` what is in `len2` before it is filled.
-/

namespace TelegramClient.VoIP.NetworkSocketTCPObfuscated
open List (drop_left length_append length_drop)

/-! ## Packets go out -/

def frameHeader (length : Nat) : Bytes :=
  if length / 4 < 0x7F then [UInt8.ofNat (length / 4)]
  else [0x7F, UInt8.ofNat (length / 4), UInt8.ofNat ((length / 4) >>> 8), UInt8.ofNat ((length / 4) >>> 16)]

/-- What `Send` encrypts. -/
def frame (packet : Bytes) : Bytes := frameHeader packet.length ++ packet

section
variable (E : Block 16 → Block 16) (iv : Block 16)

/-- `Send`, with `num` bytes of the key stream used. -/
def send (num : Nat) (packet : Bytes) : Bytes × Nat := (xorKeystream E iv num (frame packet), num + (frame packet).length)

/-- What is in the connection after packets have been sent. -/
def sendAll (num : Nat) : List Bytes → Bytes
  | [] => []
  | packet :: packets => (send E iv num packet).1 ++ sendAll (send E iv num packet).2 packets

/-! ## Packets come in -/

/-- The bytes that have not been received, and the calls of `recv` so far. -/
structure TcpStream where
  bytes : Bytes
  calls : Nat

/-- `recv` returns between one byte and what was asked for. It waits if there is nothing. -/
def recv (pieces : Nat → Nat) (s : TcpStream) (requested : Nat) : Option (Bytes × TcpStream) :=
  if s.bytes = [] then none
  else
    let n := min requested (max 1 (pieces s.calls))
    some (s.bytes.take n, ⟨s.bytes.drop n, s.calls + 1⟩)

/-- The loop that receives the data. `turns` is enough where it is `wanted`, as every turn receives a byte. -/
def recvData (pieces : Nat → Nat) : Nat → Nat → TcpStream → Option (Bytes × TcpStream)
  | _, 0, s => some ([], s)
  | 0, _ + 1, _ => none
  | turns + 1, wanted + 1, s => do
    let (piece, s) ← recv pieces s (wanted + 1)
    let (data, s) ← recvData pieces turns (wanted + 1 - piece.length) s
    return (piece ++ data, s)

structure TcpReceiver where
  stream : TcpStream
  /-- The bytes of the key stream that are used. -/
  num : Nat

variable (pieces : Nat → Nat) (memory : Nat → Vector UInt8 3)

/-- The part of `Receive` that receives a length. `len2` is received with one call. -/
def receiveLength (r : TcpReceiver) : Option (Nat × TcpReceiver) := do
  let (len1, s) ← recv pieces r.stream 1
  let len1 := ofLe (xorKeystream E iv r.num len1)
  if len1 < 0x7F then return (len1 * 4, ⟨s, r.num + 1⟩)
  else
    let (piece, s') ← recv pieces s 3
    let len2 := piece ++ (memory s.calls).toList.drop piece.length
    return (ofLe (xorKeystream E iv (r.num + 1) len2) * 4, ⟨s', r.num + 4⟩)

/-- `Receive`, for a buffer of `length` bytes. -/
def receive (length : Nat) (r : TcpReceiver) : Option (Bytes × TcpReceiver) := do
  let (packetLen, r) ← receiveLength E iv pieces memory r
  if length < packetLen then return ([], r)
  else
    let (data, s) ← recvData pieces packetLen packetLen r.stream
    return (xorKeystream E iv r.num data, ⟨s, r.num + packetLen⟩)

/-! ## What should be received -/

structure Behind (r : TcpReceiver) (packet : Bytes) (r' : TcpReceiver) : Prop where
  num : r'.num = r.num + (frame packet).length
  bytes : r'.stream.bytes = r.stream.bytes.drop (frame packet).length

/-- Each call receives its packet, or nothing if it does not fit, and is then behind the frame. -/
def AllDelivered (length : Nat) : TcpReceiver → List Bytes → Prop
  | _, [] => True
  | r, packet :: packets => ∃ r', receive E iv pieces memory length r =
      some (if packet.length ≤ length then packet else [], r') ∧ Behind r packet r' ∧ AllDelivered length r' packets

def Uncut (r : TcpReceiver) (packet : Bytes) : Prop := 0x7F ≤ packet.length / 4 → 3 ≤ pieces (r.stream.calls + 1)

def AllWhole (length : Nat) : TcpReceiver → List Bytes → Prop
  | _, [] => True
  | r, packet :: packets => (packet.length ≤ length ∧ Uncut pieces r packet) ∧
      ∀ out r', receive E iv pieces memory length r = some (out, r') → AllWhole length r' packets

variable {E : Block 16 → Block 16} {iv : Block 16} {pieces : Nat → Nat} {memory : Nat → Vector UInt8 3}

/-! ## The stream -/

theorem sendAll_eq (num : Nat) (packets : List Bytes) :
    sendAll E iv num packets = xorKeystream E iv num (packets.flatMap frame) := by
  induction packets generalizing num with
  | nil => rfl
  | cons packet packets ih =>
    rw [sendAll, ih, List.flatMap_cons, xorKeystream_append]
    rfl

variable {s : TcpStream}

theorem recv_spec (pieces : Nat → Nat) {requested : Nat} (hbs : s.bytes ≠ []) (hrequested : 0 < requested) :
    ∃ n, n = min requested (max 1 (pieces s.calls)) ∧ 0 < n ∧
      recv pieces s requested = some (s.bytes.take n, ⟨s.bytes.drop n, s.calls + 1⟩) :=
  ⟨_, rfl, by omega, if_neg hbs⟩

theorem recv_one {b : UInt8} {bytes : Bytes} (hbs : s.bytes = b :: bytes) :
    recv pieces s 1 = some ([b], ⟨bytes, s.calls + 1⟩) := by
  have hne : s.bytes ≠ [] := by
    rw [hbs]
    exact List.cons_ne_nil b bytes
  obtain ⟨n, hn, hpos, hrecv⟩ := recv_spec pieces hne one_pos
  obtain rfl : n = 1 := by omega
  rw [hrecv, hbs]
  rfl

theorem recvData_spec (pieces : Nat → Nat) {turns wanted : Nat} (hturns : wanted ≤ turns)
    (hwanted : wanted ≤ s.bytes.length) :
    ∃ calls, recvData pieces turns wanted s = some (s.bytes.take wanted, ⟨s.bytes.drop wanted, calls⟩) := by
  induction turns generalizing wanted s with
  | zero =>
    obtain rfl : wanted = 0 := by omega
    exact ⟨s.calls, rfl⟩
  | succ turns ih =>
    cases wanted with
    | zero => exact ⟨s.calls, rfl⟩
    | succ wanted =>
      have hbs : s.bytes ≠ [] := List.ne_nil_of_length_pos (by omega)
      obtain ⟨n, hn, hpos, hrecv⟩ := recv_spec pieces hbs (Nat.succ_pos wanted)
      have hlen : (s.bytes.take n).length = n := by rw [List.length_take]; omega
      have hleft : wanted + 1 - n ≤ (s.bytes.drop n).length := by
        rw [length_drop]
        omega
      obtain ⟨calls, hrest⟩ := ih (s := ⟨s.bytes.drop n, s.calls + 1⟩) (show wanted + 1 - n ≤ turns by omega) hleft
      refine ⟨calls, ?_⟩
      rw [recvData, hrecv, Option.bind_eq_bind, Option.bind_some]
      dsimp only
      rw [hlen, hrest]
      show some (_ ++ _, TcpStream.mk (List.drop _ (List.drop _ _)) _) = _
      rw [List.drop_drop, ← List.take_add, Nat.add_sub_cancel' (by omega)]

theorem length_of_recvData {turns wanted : Nat} {s' : TcpStream} {data : Bytes}
    (h : recvData pieces turns wanted s = some (data, s')) : s.bytes.length = wanted + s'.bytes.length := by
  induction turns generalizing wanted s data with
  | zero =>
    cases wanted with
    | zero =>
      obtain ⟨-, rfl⟩ := Prod.mk.inj (Option.some.inj h)
      exact (Nat.zero_add _).symm
    | succ wanted => cases h
  | succ turns ih =>
    cases wanted with
    | zero =>
      obtain ⟨-, rfl⟩ := Prod.mk.inj (Option.some.inj h)
      exact (Nat.zero_add _).symm
    | succ wanted =>
      obtain ⟨⟨piece, s₁⟩, hrecv, h⟩ := Option.bind_eq_some_iff.mp h
      obtain ⟨⟨rest, s₂⟩, hrest, h⟩ := Option.bind_eq_some_iff.mp h
      obtain ⟨-, rfl⟩ := Prod.mk.inj (Option.some.inj h)
      have hlen := ih hrest
      unfold recv at hrecv
      split at hrecv
      · cases hrecv
      · obtain ⟨rfl, rfl⟩ := Prod.mk.inj (Option.some.inj hrecv)
        rw [length_drop, List.length_take] at hlen
        omega

/-! ## The length -/

variable {length : Nat}

theorem frameHeader_of_short (h : length / 4 < 0x7F) :
    frameHeader length = [UInt8.ofNat (length / 4)] ∧ ofLe (frameHeader length) = length / 4 := by
  rw [frameHeader, if_pos h]
  refine ⟨rfl, ?_⟩
  rw [ofLe, ofLe, UInt8.toNat_ofNat']
  omega

theorem frameHeader_of_long (h : 0x7F ≤ length / 4) : frameHeader length = 0x7F :: leBytes 3 (length / 4) := by
  rw [frameHeader, if_neg (Nat.not_lt.mpr h), Nat.shiftRight_eq_div_pow, Nat.shiftRight_eq_div_pow]
  show _ = [_, _, _, UInt8.ofNat (length / 4 / 256 / 256)]
  rw [Nat.div_div_eq_div_mul (length / 4)]

variable {r r' : TcpReceiver} {packet rest : Bytes}

theorem receiveLength_cons {b : UInt8} {plain : Bytes} (h : r.stream.bytes = xorKeystream E iv r.num (b :: plain)) :
    receiveLength E iv pieces memory r = if ofLe [b] < 0x7F then
        some (ofLe [b] * 4, ⟨⟨xorKeystream E iv (r.num + 1) plain, r.stream.calls + 1⟩, r.num + 1⟩)
      else (recv pieces ⟨xorKeystream E iv (r.num + 1) plain, r.stream.calls + 1⟩ 3).map fun x =>
        (ofLe (xorKeystream E iv (r.num + 1) (x.1 ++ (memory (r.stream.calls + 1)).toList.drop x.1.length)) * 4,
          ⟨x.2, r.num + 4⟩) := by
  have hfirst : xorKeystream E iv r.num [b ^^^ keystreamByte E iv r.num] = [b] :=
    xorKeystream_xorKeystream E iv r.num [b]
  rw [receiveLength, recv_one h, Option.bind_eq_bind, Option.bind_some]
  dsimp only
  rw [hfirst]
  split
  · rfl
  · cases recv pieces ⟨xorKeystream E iv (r.num + 1) plain, r.stream.calls + 1⟩ 3 <;> rfl

theorem receiveLength_of_uncut (memory : Nat → Vector UInt8 3) (h : r.stream.bytes = xorKeystream E iv r.num (frame packet ++ rest))
    (hwords : packet.length % 4 = 0) (hmax : packet.length < 2 ^ 26) (huncut : Uncut pieces r packet) :
    ∃ calls, receiveLength E iv pieces memory r = some (packet.length,
      ⟨⟨xorKeystream E iv (r.num + (frameHeader packet.length).length) (packet ++ rest), calls⟩,
        r.num + (frameHeader packet.length).length⟩) := by
  rw [frame] at h
  by_cases hshort : packet.length / 4 < 0x7F
  · obtain ⟨hheader, hval⟩ := frameHeader_of_short hshort
    rw [hheader] at h hval ⊢
    refine ⟨r.stream.calls + 1, ?_⟩
    rw [receiveLength_cons h, hval, if_pos hshort, Nat.div_mul_cancel (Nat.dvd_of_mod_eq_zero hwords)]
    rfl
  · have hlong := Nat.not_lt.mp hshort
    have hpieces := huncut hlong
    rw [frameHeader_of_long hlong] at h ⊢
    have h : r.stream.bytes = xorKeystream E iv r.num (0x7F :: (leBytes 3 (packet.length / 4) ++ packet ++ rest)) := h
    obtain ⟨n, hn, -, hrecv⟩ := recv_spec pieces
      (s := ⟨xorKeystream E iv (r.num + 1) (leBytes 3 (packet.length / 4) ++ packet ++ rest), r.stream.calls + 1⟩)
      nofun (show 0 < 3 by decide)
    obtain rfl : n = 3 := by
      dsimp only at hn
      omega
    have htake : xorKeystream E iv (r.num + 1)
        ((xorKeystream E iv (r.num + 1) (leBytes 3 (packet.length / 4) ++ packet ++ rest)).take 3 ++
          (memory (r.stream.calls + 1)).toList.drop
            ((xorKeystream E iv (r.num + 1) (leBytes 3 (packet.length / 4) ++ packet ++ rest)).take 3).length) =
        leBytes 3 (packet.length / 4) := by
      rw [take_xorKeystream, List.append_assoc, List.take_left' (length_leBytes _ _), length_xorKeystream,
        length_leBytes, List.drop_of_length_le (Vector.length_toList).le, List.append_nil, xorKeystream_xorKeystream]
    refine ⟨r.stream.calls + 2, ?_⟩
    rw [receiveLength_cons h, if_neg (by decide), hrecv,
      Option.map_some]
    dsimp only
    rw [htake, ofLe_leBytes, Nat.mod_eq_of_lt (by omega), Nat.div_mul_cancel (Nat.dvd_of_mod_eq_zero hwords),
      drop_xorKeystream, List.append_assoc, List.drop_left' (length_leBytes _ _)]
    rfl

variable {n : Nat}

theorem receiveLength_of_cut (h : r.stream.bytes = xorKeystream E iv r.num (frame packet ++ rest))
    (hcut : ¬Uncut pieces r packet) (hlen : receiveLength E iv pieces memory r = some (n, r')) :
    r.num + r.stream.bytes.length < r'.num + r'.stream.bytes.length := by
  obtain ⟨hlong, hpieces⟩ := Classical.not_imp.mp hcut
  rw [frame, frameHeader_of_long hlong] at h
  have h : r.stream.bytes = xorKeystream E iv r.num (0x7F :: (leBytes 3 (packet.length / 4) ++ packet ++ rest)) := h
  rw [receiveLength_cons h, if_neg (by decide)] at hlen
  obtain ⟨⟨piece, s⟩, hrecv, hr⟩ := Option.map_eq_some_iff.mp hlen
  obtain ⟨-, rfl⟩ := Prod.mk.inj hr
  obtain ⟨k, hk, hpos, hrecv'⟩ := recv_spec pieces
    (s := ⟨xorKeystream E iv (r.num + 1) (leBytes 3 (packet.length / 4) ++ packet ++ rest), r.stream.calls + 1⟩)
    nofun (show 0 < 3 by decide)
  obtain ⟨-, rfl⟩ := Prod.mk.inj (Option.some.inj (hrecv'.symm.trans hrecv))
  rw [h]
  dsimp only at hk ⊢
  rw [length_drop, length_xorKeystream, length_xorKeystream]
  simp only [List.length_cons, length_append, length_leBytes]
  omega

/-! ## One frame -/

theorem receive_of_receiveLength (h : receiveLength E iv pieces memory r = some (n, r')) :
    receive E iv pieces memory length r = if length < n then some ([], r')
      else (recvData pieces n n r'.stream).map fun x => (xorKeystream E iv r'.num x.1, ⟨x.2, r'.num + n⟩) := by
  rw [receive, h, Option.bind_eq_bind, Option.bind_some]
  dsimp only
  split
  · rfl
  · cases recvData pieces n n r'.stream <;> rfl

/-- **A packet that fits, with a length that is not cut.** -/
theorem receive_of_whole (memory : Nat → Vector UInt8 3)
    (h : r.stream.bytes = xorKeystream E iv r.num (frame packet ++ rest)) (hwords : packet.length % 4 = 0)
    (hmax : packet.length < 2 ^ 26) (hfits : packet.length ≤ length) (huncut : Uncut pieces r packet) :
    ∃ r', receive E iv pieces memory length r = some (packet, r') ∧ Behind r packet r' := by
  obtain ⟨calls, hlen⟩ := receiveLength_of_uncut memory h hwords hmax huncut
  have hdecrypt : xorKeystream E iv (r.num + (frameHeader packet.length).length)
      ((xorKeystream E iv (r.num + (frameHeader packet.length).length) (packet ++ rest)).take packet.length) = packet := by
    rw [take_xorKeystream, xorKeystream_xorKeystream, List.take_left]
  obtain ⟨calls', hdata⟩ := recvData_spec pieces (le_refl packet.length)
    (s := ⟨xorKeystream E iv (r.num + (frameHeader packet.length).length) (packet ++ rest), calls⟩)
    (by rw [length_xorKeystream, length_append]; exact Nat.le_add_right _ _)
  rw [receive_of_receiveLength hlen, if_neg (Nat.not_lt.mpr hfits), hdata, Option.map_some]
  dsimp only
  rw [hdecrypt]
  refine ⟨_, rfl, ?_, ?_⟩
  · rw [frame, length_append, Nat.add_assoc]
  · dsimp only
    rw [h, drop_xorKeystream, drop_xorKeystream, drop_left, drop_left, frame, length_append, Nat.add_assoc]

variable {out : Bytes}

theorem length_of_receive {r'' : TcpReceiver} (hlen : receiveLength E iv pieces memory r = some (n, r'))
    (h : receive E iv pieces memory length r = some (out, r'')) :
    r''.num + r''.stream.bytes.length = r'.num + r'.stream.bytes.length := by
  rw [receive_of_receiveLength hlen] at h
  split at h
  · obtain ⟨-, rfl⟩ := Prod.mk.inj (Option.some.inj h)
    rfl
  · obtain ⟨⟨data, s⟩, hdata, h⟩ := Option.map_eq_some_iff.mp h
    obtain ⟨-, rfl⟩ := Prod.mk.inj h
    have hdata := length_of_recvData hdata
    dsimp only
    omega

section
variable (h : r.stream.bytes = xorKeystream E iv r.num (frame packet ++ rest))
include h

/-- **A length that is cut.** Whatever is made of it, bytes and key stream are not behind the frame afterwards. -/
theorem not_behind_of_cut (hcut : ¬Uncut pieces r packet)
    (hrecv : receive E iv pieces memory length r = some (out, r')) : ¬Behind r packet r' := by
  intro hbehind
  obtain ⟨⟨n, r₁⟩, hlen, -⟩ := Option.bind_eq_some_iff.mp hrecv
  have hmore := receiveLength_of_cut h hcut hlen
  have hsame := length_of_receive hlen hrecv
  rw [hbehind.num, hbehind.bytes, length_drop, h, length_xorKeystream, length_append] at hsame
  rw [h, length_xorKeystream, length_append] at hmore
  omega

/-- **A packet that does not fit.** It stays in the stream. -/
theorem not_behind_of_large (hwords : packet.length % 4 = 0) (hmax : packet.length < 2 ^ 26)
    (hlarge : length < packet.length) (huncut : Uncut pieces r packet)
    (hrecv : receive E iv pieces memory length r = some (out, r')) : ¬Behind r packet r' := by
  intro hbehind
  obtain ⟨calls, hlen⟩ := receiveLength_of_uncut memory h hwords hmax huncut
  rw [receive_of_receiveLength hlen, if_pos hlarge] at hrecv
  obtain ⟨-, rfl⟩ := Prod.mk.inj (Option.some.inj hrecv)
  have hnum := hbehind.num
  rw [frame, length_append] at hnum
  dsimp only at hnum
  omega

end

end

/-- **Relays over TCP.** However the stream is cut, successive calls receive the packets in order, and each is behind
its frame afterwards, exactly if `recv` never returns less than the three bytes of a long length and every packet fits
into the buffer. -/
theorem obfuscated_frames_iff (E : Block 16 → Block 16) (iv : Block 16) (pieces : Nat → Nat)
    (memory : Nat → Vector UInt8 3) (length num : Nat) (packets : List Bytes)
    (hpackets : ∀ packet ∈ packets, packet.length % 4 = 0 ∧ packet.length < 2 ^ 26) :
    AllDelivered E iv pieces memory length ⟨⟨sendAll E iv num packets, 0⟩, num⟩ packets ↔
      AllWhole E iv pieces memory length ⟨⟨sendAll E iv num packets, 0⟩, num⟩ packets := by
  suffices hall : ∀ r : TcpReceiver, r.stream.bytes = sendAll E iv r.num packets →
      (AllDelivered E iv pieces memory length r packets ↔ AllWhole E iv pieces memory length r packets) from hall _ rfl
  induction packets with
  | nil => exact fun _ _ => Iff.rfl
  | cons packet packets ih =>
      intro r h
      obtain ⟨⟨hwords, hmax⟩, hrest⟩ := List.forall_mem_cons.mp hpackets
      rw [sendAll_eq, List.flatMap_cons] at h
      have hnext {r' : TcpReceiver} (hbehind : Behind r packet r') :
          AllDelivered E iv pieces memory length r' packets ↔ AllWhole E iv pieces memory length r' packets := by
        refine ih hrest r' ?_
        rw [hbehind.bytes, hbehind.num, h, drop_xorKeystream, drop_left, sendAll_eq]
      constructor
      · rintro ⟨r', hreceive, hbehind, hdelivered⟩
        have huncut : Uncut pieces r packet := by
          by_contra hcut
          exact not_behind_of_cut h hcut hreceive hbehind
        have hfits : packet.length ≤ length := by
          by_contra hlarge
          exact not_behind_of_large h hwords hmax (Nat.not_le.mp hlarge) huncut hreceive hbehind
        refine ⟨⟨hfits, huncut⟩, fun out r'' hreceive' => ?_⟩
        obtain ⟨-, rfl⟩ := Prod.mk.inj (Option.some.inj (hreceive.symm.trans hreceive'))
        exact (hnext hbehind).mp hdelivered
      · rintro ⟨⟨hfits, huncut⟩, hwhole⟩
        obtain ⟨r', hreceive, hbehind⟩ := receive_of_whole memory h hwords hmax hfits huncut
        exact ⟨r', by rw [if_pos hfits]; exact hreceive, hbehind, (hnext hbehind).mpr (hwhole packet r' hreceive)⟩

/-- A packet of 512 bytes, which has a long length, and a short one, in pieces of three bytes. -/
theorem obfuscated_frames_pieces :
    AllDelivered (fun _ => Vector.replicate 16 7) (Vector.replicate 16 0) (fun _ => 3) (fun _ => Vector.replicate 3 0) 1500
      ⟨⟨sendAll (fun _ => Vector.replicate 16 7) (Vector.replicate 16 0) 0 [List.replicate 512 5, [1, 2, 3, 4]], 0⟩, 0⟩
      [List.replicate 512 5, [1, 2, 3, 4]] :=
  (obfuscated_frames_iff _ _ _ _ 1500 0 [List.replicate 512 5, [1, 2, 3, 4]] (by decide +kernel)).mpr
    ⟨⟨by decide +kernel, fun _ => Nat.le_refl 3⟩, fun _ _ _ => ⟨⟨by decide, fun _ => Nat.le_refl 3⟩, fun _ _ _ => trivial⟩⟩

/-- The packets that the calls of `Receive` return, with a key stream of zeros, and zeros in the memory. -/
def received (pieces : Nat → Nat) : Nat → TcpReceiver → List Bytes
  | 0, _ => []
  | count + 1, r =>
    match receive (fun _ => Vector.replicate 16 0) (Vector.replicate 16 0) pieces (fun _ => Vector.replicate 3 0) 1500 r with
    | none => []
    | some (packet, r') => packet :: received pieces count r'

/-- A packet of 508 bytes that comes byte by byte is received with a part of its length, and behind one of 1504 bytes
nothing is received. -/
theorem obfuscated_frames_lost :
    received (fun _ => 1) 1
        ⟨⟨sendAll (fun _ => Vector.replicate 16 0) (Vector.replicate 16 0) 0 [List.replicate 508 1], 0⟩, 0⟩ ≠
      [List.replicate 508 1] ∧
    received (fun _ => 1500) 2
        ⟨⟨sendAll (fun _ => Vector.replicate 16 0) (Vector.replicate 16 0) 0 [List.replicate 1504 0, [1, 2, 3, 4]], 0⟩, 0⟩ ≠
      [[], [1, 2, 3, 4]] := by
  decide +kernel

end TelegramClient.VoIP.NetworkSocketTCPObfuscated
