import TelegramClient.Calls.KeyAgreement
import TelegramClient.VoIP.RelayedCall

/-!
# From the messages of a call to its packets

Each side gives the key of its ongoing call to its controller. **Each then reads the packets of the other**
(`callPackets_read`).
-/

namespace TelegramClient.Calls

open MtProto Secret VoIP

/-- `startTransmissionIfNeeded:` of `TGCallSession`: the controllers have the keys, and they are in the same mode. -/
structure SetUp (connection connection' : TGCallConnection) (c r : CallCipher) : Prop where
  callerKey : c.encryptionKey.toList = connection.key
  caller : c.isOutgoing = true
  calleeKey : r.encryptionKey.toList = connection'.key
  callee : r.isOutgoing = false
  mode : r.useMTProto2 = c.useMTProto2

/-- The endpoints are two sides of one relay, or of a direct connection. -/
structure Connected (ep src : Endpoint) : Prop where
  relay : src.isRelay = ep.isRelay
  peerTag : ep.isRelay = true → src.peerTag = ep.peerTag

section
variable (secret : SecretCrypto)

/-- The packets that `c` sends are read by `r`. -/
def ReadsAll (c r : CallCipher) (ep src : Endpoint) : Prop :=
  ∀ (peerVersion : Int32) (p : CallPacket), p.Ok secret c peerVersion →
    ∃ datagram, p.datagram secret c ep = some datagram ∧ p.ReadFrom secret r src peerVersion datagram

variable {secret} {ep src : Endpoint}

theorem Connected.tag {c r : CallCipher} (h : Connected ep src) (hkey : r.encryptionKey = c.encryptionKey) :
    r.tag secret src = c.tag secret ep := by
  unfold CallCipher.tag
  rw [h.relay, hkey]
  split
  case isTrue hrelay => rw [h.peerTag hrelay]
  case isFalse => rfl

theorem Connected.symm (h : Connected ep src) : Connected src ep :=
  ⟨h.relay.symm, fun hrelay => (h.peerTag (h.relay ▸ hrelay)).symm⟩

theorem readsAll {c r : CallCipher} (hpeer : c.IsPeer r) (hconn : Connected ep src) (hsends : c.Sends ep)
    (hmark : VoIP.keyFingerprint secret c.encryptionKey ≠ List.replicate 8 0xFF) : ReadsAll secret c r ep src := by
  intro peerVersion p hp
  obtain ⟨datagram, hdatagram, -, hread⟩ := hp.readFrom hpeer (hconn.tag hpeer.encryptionKey) hsends hmark
  exact ⟨datagram, hdatagram, hread⟩

variable (crypto : CallCrypto) {events before before' : List (Bool × ManagerEvent)} {i j : Nat}
  {o o' : OngoingContext} {connection connection' : TGCallConnection}

variable {crypto} in
theorem Unaltered.key_eq (h : Unaltered (runPair crypto events) i j) (hbefore : before <+: events)
    (hbefore' : before' <+: events) (ho : OngoingCall (runPair crypto before).caller i o connection)
    (ho' : OngoingCall (runPair crypto before').callee j o' connection') : connection'.key = connection.key := by
  rw [runPair_eq] at ho ho'
  obtain ⟨-, -, gA, hkey, -⟩ := ho.keyOf (eventsAt_mono hbefore true)
  obtain ⟨-, -, gA', hkey', -⟩ := ho'.keyOf (eventsAt_mono hbefore' false)
  obtain ⟨config, a, b, hagreed⟩ := h.agreed_caller (by rwa [CallPair.callerHistory, runPair_eq])
  obtain ⟨_, _, _, hagreed'⟩ := h.agreed_callee (by rwa [CallPair.calleeHistory, runPair_eq])
  exact (hagreed'.unique hagreed).1

/-- If the messages of the call reach both sides unaltered, whatever happens to the other calls. -/
theorem callPackets_read (hbefore : before <+: events) (hbefore' : before' <+: events)
    (h : Unaltered (runPair crypto events) i j) (ho : OngoingCall (runPair crypto before).caller i o connection)
    (ho' : OngoingCall (runPair crypto before').callee j o' connection') {c r : CallCipher}
    (hset : SetUp connection connection' c r) (hconn : Connected ep src)
    (hsends : c.Sends ep ∧ r.Sends src)
    (hmark : VoIP.keyFingerprint secret c.encryptionKey ≠ List.replicate 8 0xFF) :
    ReadsAll secret c r ep src ∧ ReadsAll secret r c src ep := by
  have hkey : r.encryptionKey = c.encryptionKey := by
    apply Vector.toList_inj.mp
    rw [hset.callerKey, hset.calleeKey, h.key_eq hbefore hbefore' ho ho']
  have hpeer : c.IsPeer r := ⟨hkey, by rw [hset.caller, hset.callee]; rfl, hset.mode⟩
  have hpeer' : r.IsPeer c := ⟨hkey.symm, by rw [hset.caller, hset.callee]; rfl, hset.mode.symm⟩
  exact ⟨readsAll hpeer hconn hsends.1 hmark, readsAll hpeer' hconn.symm hsends.2 (hkey ▸ hmark)⟩

end

/-- The key of the numbers 2 and 3. -/
def wholeKey : Block 256 := blockOf 256 (beBytes 256 4096) (length_beBytes 256 4096)

/-- A packet of the caller after the whole call. -/
theorem callPackets_read_whole :
    ∃ datagram, (shortPacket wholeKey 1 [1, 2, 3]).datagram residueCrypto (cipherWith wholeKey true true) relayEndpoint =
        some datagram ∧
      (shortPacket wholeKey 1 [1, 2, 3]).ReadFrom residueCrypto (cipherWith wholeKey false true) relayEndpoint 7
        datagram := by
  have hkey : wholeKey.toList = wholeConnection.key := by simp [wholeKey, blockOf, wholeConnection]
  have hset : SetUp wholeConnection wholeConnection (cipherWith wholeKey true true) (cipherWith wholeKey false true) :=
    ⟨hkey, rfl, hkey, rfl, rfl⟩
  have ho : OngoingCall (runPair zeroCallCrypto wholeCall).caller 0 wholeOngoing wholeConnection :=
    ongoingCall_of_slot (by decide +kernel)
  have ho' : OngoingCall (runPair zeroCallCrypto wholeCall).callee 0 wholeOngoing wholeConnection :=
    ongoingCall_of_slot (by decide +kernel)
  exact (callPackets_read zeroCallCrypto List.prefix_rfl List.prefix_rfl wholeCall_unaltered ho ho'
    hset ⟨rfl, fun _ => rfl⟩ ⟨⟨rfl, fun _ => rfl⟩, rfl, fun _ => rfl⟩ (by decide +kernel)).1 7 _
    (shortPacket_ok (cipherWith wholeKey true true) 1 (by decide))

end TelegramClient.Calls
