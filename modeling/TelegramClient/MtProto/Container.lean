import TelegramClient.MtProto.InternalMessage

/-!
# The message container

`containerData` is the `msg_container` that `_dataForEncryptedContainerWithMessages` writes to its
`MTOutputStream`; `parseMessage_containerData` reads the same messages back from it, whatever follows.
-/

namespace TelegramClient.MtProto
open List

/-- A message that has its id, sequence number and salt, ready to be sent. -/
structure MTPreparedMessage where
  internalId : Nat
  messageId : BitVec 64
  seqNo : BitVec 32
  salt : BitVec 64
  data : Bytes
  requiresConfirmation : Bool
  hasHighPriority : Bool
deriving DecidableEq

/-- What the other side sees of a prepared message. -/
def MTPreparedMessage.toMessage (preparedMessage : MTPreparedMessage) : MTMessage :=
  ⟨preparedMessage.messageId, preparedMessage.seqNo, preparedMessage.data⟩

/-- One round of the loop over the prepared messages. -/
def containerItem (message : MTMessage) : Bytes :=
  leBits message.messageId ++ (leBits message.seqNo ++
    (leBits (BitVec.ofNat 32 message.data.length) ++ message.data))

def containerData (preparedMessages : List MTPreparedMessage) : Bytes :=
  leBits (0x73f1f8dc : BitVec 32) ++ (leBits (BitVec.ofNat 32 preparedMessages.length) ++
    preparedMessages.flatMap fun preparedMessage => containerItem preparedMessage.toMessage)

theorem length_containerItem (message : MTMessage) : (containerItem message).length = 16 + message.data.length := by
  simp only [containerItem, length_append, length_leBits]
  omega

theorem reads_containerItem {message : MTMessage} (h : message.data.length ≤ 16 * 1024 * 1024) :
    Reads readContainerItem (containerItem message) message := by
  have hlen : (BitVec.ofNat 32 message.data.length).toInt = message.data.length := toInt_ofNat_of_lt (by omega)
  refine (reads_readInt64 message.messageId).bind ?_
  refine (reads_readInt32 message.seqNo).bind ?_
  refine (reads_readInt32 (BitVec.ofNat 32 message.data.length)).bind ?_
  rw [hlen, if_neg (by omega), Int.toNat_natCast]
  exact (reads_readBytes message.data).bind_pure (MTMessage.mk message.messageId message.seqNo)

theorem reads_readVector {α : Type} {item : ReadM α} {enc : α → Bytes} {as : List α}
    (hcnt : as.length < 2 ^ 31) (h : ∀ a ∈ as, Reads item (enc a) a) :
    Reads (readVector item) (leBits (BitVec.ofNat 32 as.length) ++ as.flatMap enc) as := by
  refine (reads_readInt32 (BitVec.ofNat 32 as.length)).bind ?_
  rw [toInt_ofNat_of_lt hcnt, Int.toNat_natCast]
  exact Reads.repeatM as h

variable (messages : List MTMessage)

theorem length_flatMap_containerItem_le (h : ∀ message ∈ messages, message.data.length ≤ 16 * 1024 * 1024) :
    (messages.flatMap containerItem).length ≤ messages.length * (16 * 1024 * 1024 + 16) := by
  induction messages with
  | nil => simp
  | cons message messages ih =>
    have hhead : message.data.length ≤ 16 * 1024 * 1024 := h message mem_cons_self
    have htail := ih fun m hm => h m (mem_cons_of_mem message hm)
    rw [flatMap_cons, length_append, length_containerItem, length_cons]
    omega

theorem parseMessage_container (padding : Bytes) (hcnt : messages.length < 2 ^ 31)
    (hitems : ∀ message ∈ messages, message.data.length ≤ 16 * 1024 * 1024) :
    parseMessage (leBits (0x73f1f8dc : BitVec 32) ++ (leBits (BitVec.ofNat 32 messages.length) ++
        messages.flatMap containerItem) ++ padding) = .ok (.msgContainer messages) := by
  obtain ⟨container, hcont⟩ : ∃ container, container = leBits (0x73f1f8dc : BitVec 32) ++
      (leBits (BitVec.ofNat 32 messages.length) ++ messages.flatMap containerItem) := ⟨_, rfl⟩
  have hsize := length_flatMap_containerItem_le messages hitems
  have hreads : Reads readMessage container (.msgContainer messages) := by
    rw [hcont]
    refine (reads_readInt32 0x73f1f8dc).bind ?_
    exact (reads_readVector (by omega) fun message hm => reads_containerItem (hitems message hm)).bind_pure
      InternalMessage.msgContainer
  have hfits : container.length < addressSpace := by
    rw [hcont]
    simp only [length_append, length_leBits, addressSpace]
    omega
  rw [← hcont, parseMessage, hreads.run padding hfits]
  rfl

/-- **The container round trip**: the parser finds the messages that were written, in their order, with any
bytes behind them. -/
theorem parseMessage_containerData (preparedMessages : List MTPreparedMessage) (padding : Bytes)
    (hcount : preparedMessages.length < 2 ^ 31)
    (hdata : ∀ preparedMessage ∈ preparedMessages, preparedMessage.data.length ≤ 16 * 1024 * 1024) :
    parseMessage (containerData preparedMessages ++ padding) =
      .ok (.msgContainer (preparedMessages.map MTPreparedMessage.toMessage)) := by
  have h := parseMessage_container (preparedMessages.map MTPreparedMessage.toMessage) padding
    (by simpa using hcount) (by simpa [MTPreparedMessage.toMessage] using hdata)
  rw [length_map, flatMap_map] at h
  exact h

/-- Two messages, one of them empty, with three bytes behind the container. -/
theorem parseMessage_containerData_two :
    parseMessage (containerData [⟨1, 0x100, 1, 7, [1, 2, 3, 4], true, false⟩, ⟨2, 0x104, 2, 7, [], false, false⟩]
        ++ [9, 9, 9]) =
      .ok (.msgContainer [⟨0x100, 1, [1, 2, 3, 4]⟩, ⟨0x104, 2, []⟩]) :=
  parseMessage_containerData
    [⟨1, 0x100, 1, 7, [1, 2, 3, 4], true, false⟩, ⟨2, 0x104, 2, 7, [], false, false⟩] [9, 9, 9]
    (by decide) (by decide)

end TelegramClient.MtProto
