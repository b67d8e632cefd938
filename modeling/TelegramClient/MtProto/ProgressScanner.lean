import TelegramClient.MtProto.Container
import TelegramClient.MtProto.Incoming

/-!
# The progress scanner: `findReqMsgId:signature:reqMsgId:failed:`

While a large response is still being received, what has arrived of it is decrypted and scanned for the request
that it answers. The scanner walks through the messages of a container without looking at their lengths: each
constructor that it knows is to be passed by reading just the fields of it.

* `findReqMsgId`, `transportDecodeProgressToken` : the scanner and the loop around it;
* `scannedReqMsgId_inStep` : the scanner finds the id that the parser finds where it is not put out of step.
-/

namespace TelegramClient.MtProto
open List
open BitVec (ofNat)
open Option (bind_eq_bind bind_eq_some_iff bind_some)

/-! ## The scanner -/

def skipInt32s : Nat → Bytes → Option Bytes
  | 0, is => some is
  | count + 1, is => do
    let (_, is) ← streamReadInt 32 is
    skipInt32s count is

/-- `findReqMsgId:signature:reqMsgId:failed:` over the loop for the items of a container. `none` is `*failed`,
where `*reqMsgId` is still 0. -/
def findReqMsgIdWith (scanItems : Nat → Bytes → Option (BitVec 64 × Bytes)) (signature : BitVec 32) (is : Bytes) :
    Option (BitVec 64 × Bytes) :=
  if signature = 0x73f1f8dc then do
    let (count, is) ← streamReadInt 32 is
    scanItems count.toInt.toNat is
  else if signature = 0xf35c6d01 then
    streamReadInt 64 is
  else if signature = 0x62d6b459 then do
    let (_, is) ← streamReadInt 32 is
    let (count, is) ← streamReadInt 32 is
    let is ← skipInt32s count.toInt.toNat is
    return (0, is)
  else if signature = 0x347773c5 then do
    let (_, is) ← streamReadInt 64 is
    let (_, is) ← streamReadInt 64 is
    return (0, is)
  else
    return (0, is)

/-- `for (int i = 0; i < count; i++)`. A round reads 20 bytes, so that as much fuel as there are bytes is
enough (`scanItems_fuel`). -/
def scanItems : Nat → Nat → Bytes → Option (BitVec 64 × Bytes)
  | _, 0, is => some (0, is)
  | 0, _ + 1, _ => none
  | fuel + 1, count + 1, is => do
    let (_, is) ← streamReadInt 64 is
    let (_, is) ← streamReadInt 32 is
    let (_, is) ← streamReadInt 32 is
    let (innerSignature, is) ← streamReadInt 32 is
    let (reqMsgId, is) ← findReqMsgIdWith (scanItems fuel) innerSignature is
    if reqMsgId ≠ 0 then return (reqMsgId, is)
    else scanItems fuel count is

def findReqMsgId (signature : BitVec 32) (is : Bytes) : Option (BitVec 64 × Bytes) :=
  findReqMsgIdWith (scanItems is.length) signature is

/-- `while (!stop && reqMsgId == 0)`. -/
def findLoop : Nat → Bytes → BitVec 64
  | 0, _ => 0
  | fuel + 1, is =>
    match streamReadInt 32 is with
    | none => 0
    | some (signature, is) =>
      match findReqMsgId signature is with
      | none => 0
      | some (reqMsgId, is) => if reqMsgId = 0 then findLoop fuel is else reqMsgId

/-- `transportDecodeProgressToken` from the decrypted data on: the id that `completion` is called with. -/
def transportDecodeProgressToken (decryptedData : Bytes) : Option (BitVec 64) :=
  let messageIs := decryptedData.drop (8 + 8 + 8 + 4 + 4)
  let reqMsgId := findLoop messageIs.length messageIs
  if reqMsgId ≠ 0 then some reqMsgId else none

/-- `reqMsgId` after one call of the scanner at the head of a body. -/
def scannedReqMsgId (is : Bytes) : BitVec 64 :=
  match streamReadInt 32 is with
  | none => 0
  | some (signature, is) => ((findReqMsgId signature is).map Prod.fst).getD 0

/-! ## The fuel -/

variable {is rest : Bytes}

theorem streamReadInt_length {w : Nat} {value : BitVec w} (h : streamReadInt w is = some (value, rest)) :
    rest.length + w / 8 = is.length := by
  unfold streamReadInt at h
  split at h
  · cases h
  · cases h
    rw [length_drop]
    omega

theorem skipInt32s_length : ∀ (count : Nat) {is rest : Bytes}, skipInt32s count is = some rest →
    rest.length ≤ is.length
  | 0, is, rest, h => by
      obtain rfl : is = rest := Option.some.inj h
      exact le_rfl
  | count + 1, is, rest, h => by
      obtain ⟨⟨value, is'⟩, hread, h⟩ := bind_eq_some_iff.mp h
      have hlen := streamReadInt_length hread
      have hrest := skipInt32s_length count h
      omega

section
variable {items items' : Nat → Bytes → Option (BitVec 64 × Bytes)} {signature : BitVec 32} {is rest : Bytes}
  {reqMsgId : BitVec 64}

theorem findReqMsgIdWith_length
    (h : ∀ count is reqMsgId rest, items count is = some (reqMsgId, rest) → rest.length ≤ is.length)
    (hfind : findReqMsgIdWith items signature is = some (reqMsgId, rest)) : rest.length ≤ is.length := by
  unfold findReqMsgIdWith at hfind
  split at hfind
  · obtain ⟨⟨count, is₁⟩, hcnt, hfind⟩ := bind_eq_some_iff.mp hfind
    have hlen := streamReadInt_length hcnt
    have hrest := h _ _ _ _ hfind
    omega
  split at hfind
  · have hlen := streamReadInt_length hfind
    omega
  split at hfind
  · obtain ⟨⟨vector, is₁⟩, hvector, hfind⟩ := bind_eq_some_iff.mp hfind
    obtain ⟨⟨count, is₂⟩, hcnt, hfind⟩ := bind_eq_some_iff.mp hfind
    obtain ⟨is₃, hskip, hfind⟩ := bind_eq_some_iff.mp hfind
    have hlen₁ := streamReadInt_length hvector
    have hlen₂ := streamReadInt_length hcnt
    have hlen₃ := skipInt32s_length _ hskip
    cases hfind
    omega
  split at hfind
  · obtain ⟨⟨messageId, is₁⟩, hmsg, hfind⟩ := bind_eq_some_iff.mp hfind
    obtain ⟨⟨pingId, is₂⟩, hping, hfind⟩ := bind_eq_some_iff.mp hfind
    have hlen₁ := streamReadInt_length hmsg
    have hlen₂ := streamReadInt_length hping
    cases hfind
    omega
  · cases hfind
    exact le_rfl

theorem findReqMsgIdWith_congr (h : ∀ count rest, rest.length ≤ is.length → items count rest = items' count rest) :
    findReqMsgIdWith items signature is = findReqMsgIdWith items' signature is := by
  unfold findReqMsgIdWith
  split
  · refine Option.bind_congr fun ⟨count, rest⟩ hread => ?_
    have hlen := streamReadInt_length hread
    exact h _ _ (by omega)
  · rfl

end

theorem scanItems_length : ∀ (fuel count : Nat) (is : Bytes) (reqMsgId : BitVec 64) (rest : Bytes),
    scanItems fuel count is = some (reqMsgId, rest) → rest.length ≤ is.length := by
  intro fuel
  induction fuel with
  | zero =>
    intro count is reqMsgId rest h
    match count, h with
    | 0, h =>
      cases h
      exact le_rfl
  | succ fuel ih =>
    intro count is reqMsgId rest h
    match count, h with
    | 0, h =>
      cases h
      exact le_rfl
    | count + 1, h =>
      obtain ⟨⟨_, is₁⟩, h₁, h⟩ := bind_eq_some_iff.mp h
      obtain ⟨⟨_, is₂⟩, h₂, h⟩ := bind_eq_some_iff.mp h
      obtain ⟨⟨_, is₃⟩, h₃, h⟩ := bind_eq_some_iff.mp h
      obtain ⟨⟨innerSignature, is₄⟩, h₄, h⟩ := bind_eq_some_iff.mp h
      obtain ⟨⟨found, is₅⟩, h₅, h⟩ := bind_eq_some_iff.mp h
      have hlen₁ := streamReadInt_length h₁
      have hlen₂ := streamReadInt_length h₂
      have hlen₃ := streamReadInt_length h₃
      have hlen₄ := streamReadInt_length h₄
      have hlen₅ := findReqMsgIdWith_length ih h₅
      dsimp only at h
      split at h
      · cases h
        omega
      · have hrest := ih _ _ _ _ h
        omega

/-- **The fuel** does not matter from the number of the bytes on. -/
theorem scanItems_fuel : ∀ (fuel fuel' count : Nat) (is : Bytes), is.length ≤ fuel → is.length ≤ fuel' →
    scanItems fuel count is = scanItems fuel' count is := by
  intro fuel
  induction fuel with
  | zero =>
    intro fuel' count is h _
    obtain rfl : is = [] := length_eq_zero_iff.mp (Nat.le_zero.mp h)
    match fuel', count with
    | _, 0 => simp [scanItems]
    | 0, _ + 1 => rfl
    | _ + 1, _ + 1 => rfl
  | succ fuel ih =>
    intro fuel' count is h h'
    match fuel', count with
    | _, 0 => simp [scanItems]
    | 0, count + 1 =>
      obtain rfl : is = [] := length_eq_zero_iff.mp (Nat.le_zero.mp h')
      rfl
    | fuel' + 1, count + 1 =>
      refine Option.bind_congr fun ⟨_, is₁⟩ h₁ => ?_
      refine Option.bind_congr fun ⟨_, is₂⟩ h₂ => ?_
      refine Option.bind_congr fun ⟨_, is₃⟩ h₃ => ?_
      refine Option.bind_congr fun ⟨innerSignature, is₄⟩ h₄ => ?_
      have hlen₁ := streamReadInt_length h₁
      have hlen₂ := streamReadInt_length h₂
      have hlen₃ := streamReadInt_length h₃
      have hlen₄ := streamReadInt_length h₄
      have hinner : findReqMsgIdWith (scanItems fuel) innerSignature is₄ =
          findReqMsgIdWith (scanItems fuel') innerSignature is₄ :=
        findReqMsgIdWith_congr fun count rest hrest => ih fuel' count rest (by omega) (by omega)
      dsimp only
      rw [hinner]
      refine Option.bind_congr fun ⟨reqMsgId, is₅⟩ h₅ => ?_
      have hlen₅ := findReqMsgIdWith_length (scanItems_length fuel') h₅
      dsimp only
      rw [ih fuel' count is₅ (by omega) (by omega)]

/-- The loop of the container with the fuel that it is given. -/
def scan (count : Nat) (is : Bytes) : Option (BitVec 64 × Bytes) := scanItems is.length count is

theorem scan_zero (is : Bytes) : scan 0 is = some (0, is) := by
  unfold scan
  cases is.length <;> rfl

variable (count : Nat) (messageId : BitVec 64)

theorem scan_succ (seqNo length innerSignature : BitVec 32) (is : Bytes) :
    scan (count + 1) (leBits messageId ++ (leBits seqNo ++ (leBits length ++ (leBits innerSignature ++ is)))) =
      (findReqMsgId innerSignature is).bind fun found => if found.1 ≠ 0 then some found else scan count found.2 := by
  have h64 (v : BitVec 64) (rest : Bytes) := streamReadInt_leBits (w := 64) (by norm_num) v rest
  have h32 (v : BitVec 32) (rest : Bytes) := streamReadInt_leBits (w := 32) (by norm_num) v rest
  unfold scan
  obtain ⟨fuel, hfuel⟩ : ∃ fuel, (leBits messageId ++ (leBits seqNo ++ (leBits length ++
      (leBits innerSignature ++ is)))).length = fuel + 1 := by
    simp only [length_append, length_leBits]
    exact ⟨8 - 1 + (4 + (4 + (4 + is.length))), by omega⟩
  have hle : is.length ≤ fuel := by
    simp only [length_append, length_leBits] at hfuel
    omega
  have hinner : findReqMsgIdWith (scanItems fuel) innerSignature is = findReqMsgId innerSignature is :=
    findReqMsgIdWith_congr fun count rest hrest => scanItems_fuel _ _ _ _ (by omega) hrest
  rw [hfuel]
  simp only [scanItems, h64, h32, hinner, bind_eq_bind, bind_some]
  refine Option.bind_congr fun ⟨reqMsgId, rest⟩ hfound => ?_
  have hlen := findReqMsgIdWith_length (scanItems_length _) hfound
  have hrest : rest.length ≤ fuel := by omega
  split
  · rfl
  · exact scanItems_fuel _ _ _ _ hrest le_rfl

/-! ## The bodies -/

inductive ProgressMessage where
  | msgsAck (messageIds : List (BitVec 64))
  | pong (messageId pingId : BitVec 64)
  | rpcResult (requestMessageId : BitVec 64) (data : Bytes)
deriving DecidableEq

def ProgressMessage.signature : ProgressMessage → BitVec 32
  | .msgsAck _ => 0x62d6b459
  | .pong _ _ => 0x347773c5
  | .rpcResult _ _ => 0xf35c6d01

def ProgressMessage.fields : ProgressMessage → Bytes
  | .msgsAck messageIds =>
    leBits (0x1cb5c415 : BitVec 32) ++ (leBits (BitVec.ofNat 32 messageIds.length) ++ messageIds.flatMap leBits)
  | .pong messageId pingId => leBits messageId ++ leBits pingId
  | .rpcResult requestMessageId data => leBits requestMessageId ++ data

def ProgressMessage.bytes (message : ProgressMessage) : Bytes := leBits message.signature ++ message.fields

def ProgressMessage.toInternal : ProgressMessage → InternalMessage
  | .msgsAck messageIds => .msgsAck messageIds
  | .pong messageId pingId => .pong messageId pingId
  | .rpcResult requestMessageId data => .rpcResult requestMessageId data

def ProgressMessage.requestId : ProgressMessage → Option (BitVec 64)
  | .rpcResult requestMessageId _ => some requestMessageId
  | _ => none

/-- The number of ids fits in the `int32_t` that is written for it. -/
def ProgressMessage.WellFormed : ProgressMessage → Prop
  | .msgsAck messageIds => messageIds.length < 2 ^ 31
  | _ => True

structure ProgressItem where
  messageId : BitVec 64
  seqNo : BitVec 32
  message : ProgressMessage
deriving DecidableEq

def ProgressItem.toMessage (item : ProgressItem) : MTMessage := ⟨item.messageId, item.seqNo, item.message.bytes⟩

inductive ProgressBody where
  | single (message : ProgressMessage)
  | container (items : List ProgressItem)
deriving DecidableEq

def ProgressBody.bytes : ProgressBody → Bytes
  | .single message => message.bytes
  | .container items =>
    leBits (0x73f1f8dc : BitVec 32) ++ (leBits (BitVec.ofNat 32 items.length) ++
      (items.map ProgressItem.toMessage).flatMap containerItem)

/-- The bounds of the format: counts are `int32_t`, and an item takes no more than 16 MiB. -/
def ProgressBody.WellFormed : ProgressBody → Prop
  | .single message => message.WellFormed
  | .container items =>
    items.length < 2 ^ 31 ∧ ∀ item ∈ items, item.message.bytes.length ≤ 16 * 1024 * 1024

/-! ## What the parser makes of them -/

/-- The request that a message answers as `MTInternalMessageParser` parses it. -/
def parsedRequestId (data : Bytes) : Option (BitVec 64) :=
  match parseMessage data with
  | .ok (.rpcResult requestMessageId _) => some requestMessageId
  | _ => none

/-- The id of the first `rpc_result` of a body. -/
def firstRequestMessageId (body : Bytes) : Option (BitVec 64) :=
  match parseMessage body with
  | .ok (.msgContainer messages) => messages.findSome? fun message => parsedRequestId message.data
  | _ => parsedRequestId body

theorem length_flatMap_leBits (messageIds : List (BitVec 64)) :
    (messageIds.flatMap leBits).length = 8 * messageIds.length := by
  induction messageIds with
  | nil => rfl
  | cons id ids ih =>
    rw [flatMap_cons, length_append, length_leBits, ih, length_cons]
    omega

variable {message : ProgressMessage}

theorem ProgressMessage.wellFormed_of_length (h : message.bytes.length ≤ 16 * 1024 * 1024) : message.WellFormed := by
  match message, h with
  | .msgsAck messageIds, h =>
    simp only [ProgressMessage.bytes, ProgressMessage.fields, length_append, length_leBits,
      length_flatMap_leBits] at h
    show messageIds.length < 2 ^ 31
    omega
  | .pong _ _, _ => trivial
  | .rpcResult _ _, _ => trivial

variable {messageIds : List (BitVec 64)}

theorem reads_msgsAck (h : messageIds.length < 2 ^ 31) :
    Reads readMessage (ProgressMessage.msgsAck messageIds).bytes (.msgsAck messageIds) := by
  refine (reads_readInt32 0x62d6b459).bind ?_
  refine (reads_readInt32 0x1cb5c415).bind ?_
  rw [if_neg (by decide)]
  exact (reads_readVector h fun id _ => reads_readInt64 id).bind_pure InternalMessage.msgsAck

theorem reads_pong (pingId : BitVec 64) :
    Reads readMessage (ProgressMessage.pong messageId pingId).bytes (.pong messageId pingId) := by
  refine (reads_readInt32 0x347773c5).bind ?_
  refine (reads_readInt64 messageId).bind ?_
  exact (reads_readInt64 pingId).bind_pure (InternalMessage.pong messageId)

theorem parseMessage_bytes (h : message.WellFormed) : parseMessage message.bytes = .ok message.toInternal := by
  match message, h with
  | .msgsAck messageIds, h =>
    have hcnt : messageIds.length < 2 ^ 31 := h
    have hlen : (ProgressMessage.msgsAck messageIds).bytes.length < addressSpace := by
      simp only [ProgressMessage.bytes, ProgressMessage.fields, length_append, length_leBits,
        length_flatMap_leBits, addressSpace]
      omega
    have hrun := (reads_msgsAck hcnt).run [] hlen
    rw [append_nil] at hrun
    unfold parseMessage
    rw [hrun]
    rfl
  | .pong messageId pingId, _ =>
    have hrun := (reads_pong messageId pingId).run [] (by
      simp [ProgressMessage.bytes, ProgressMessage.fields, addressSpace])
    rw [append_nil] at hrun
    unfold parseMessage
    rw [hrun]
    rfl
  | .rpcResult requestMessageId data, _ =>
    obtain ⟨whole, hwhole⟩ : ∃ whole, whole = (ProgressMessage.rpcResult requestMessageId data).bytes := ⟨_, rfl⟩
    have hbs : whole = leBits (0xf35c6d01 : BitVec 32) ++ (leBits requestMessageId ++ data) := hwhole
    have hsig : readInt32.run ⟨whole, 0⟩ = .ok (0xf35c6d01, ⟨whole, 4⟩) := by
      rw [hbs]
      exact (reads_readInt32 0xf35c6d01).run (leBits requestMessageId ++ data) (by simp [addressSpace])
    have hid : readInt64.run ⟨whole, 4⟩ = .ok (requestMessageId, ⟨whole, 12⟩) := by
      rw [hbs]
      exact reads_readInt64 requestMessageId (leBits (0xf35c6d01 : BitVec 32)) data (by simp [addressSpace])
    have hrest : readRest.run ⟨whole, 12⟩ = .ok (data, ⟨whole, 12⟩) := by
      show readRest _ = _
      unfold readRest
      dsimp only
      rw [hbs, if_neg (by simp; omega), ← append_assoc, drop_left' (by simp)]
    have hres : readRpcResult.run ⟨whole, 4⟩ = .ok (.rpcResult requestMessageId data, ⟨whole, 12⟩) := by
      unfold readRpcResult
      rw [run_bind_of_ok _ hid, run_bind_of_ok _ hrest]
      rfl
    have hrun : readMessage.run ⟨whole, 0⟩ = .ok (.rpcResult requestMessageId data, ⟨whole, 12⟩) := by
      unfold readMessage
      rw [run_bind_of_ok _ hsig]
      exact hres
    unfold parseMessage
    rw [← hwhole, hrun]
    rfl

theorem parsedRequestId_bytes (h : message.WellFormed) : parsedRequestId message.bytes = message.requestId := by
  unfold parsedRequestId
  rw [parseMessage_bytes h]
  cases message <;> rfl

/-- The first request that is answered, of the messages themselves. -/
def ProgressBody.requestId : ProgressBody → Option (BitVec 64)
  | .single message => message.requestId
  | .container items => items.findSome? fun item => item.message.requestId

variable {body : ProgressBody}

theorem firstRequestMessageId_bytes (h : body.WellFormed) : firstRequestMessageId body.bytes = body.requestId := by
  match body, h with
  | .single message, h =>
    have hid := parsedRequestId_bytes h
    unfold firstRequestMessageId ProgressBody.bytes
    rw [parseMessage_bytes h]
    cases message <;> exact hid
  | .container items, ⟨hcnt, hitems⟩ =>
    have hparse := parseMessage_container (items.map ProgressItem.toMessage) []
      (by simpa using hcnt) (by simpa [ProgressItem.toMessage] using hitems)
    rw [append_nil, length_map] at hparse
    unfold firstRequestMessageId ProgressBody.bytes
    rw [hparse]
    show (items.map ProgressItem.toMessage).findSome? _ = items.findSome? _
    clear hparse hcnt
    induction items with
    | nil => rfl
    | cons item items ih =>
      have hid := parsedRequestId_bytes (ProgressMessage.wellFormed_of_length (hitems item mem_cons_self))
      have htail := ih fun other hm => hitems other (mem_cons_of_mem item hm)
      have hdata : parsedRequestId item.toMessage.data = item.message.requestId := hid
      rw [map_cons, findSome?_cons, findSome?_cons, htail, hdata]

/-! ## What the scanner makes of them -/

theorem skipInt32s_eq : ∀ (count : Nat) (is : Bytes), 4 * count ≤ is.length →
    skipInt32s count is = some (is.drop (4 * count))
  | 0, is, _ => rfl
  | count + 1, is, h => by
      have hread : streamReadInt 32 is = some (ofLeBits 32 (is.take 4), is.drop 4) := by
        unfold streamReadInt
        rw [if_neg (by omega)]
      have hrest := skipInt32s_eq count (is.drop 4) (by rw [length_drop]; omega)
      rw [drop_drop] at hrest
      have hnext : skipInt32s (count + 1) is = skipInt32s count (is.drop 4) := by
        simp [skipInt32s, hread]
      rw [hnext, hrest, Nat.mul_succ, Nat.add_comm]

theorem findReqMsgId_rpcResult (requestMessageId : BitVec 64) (data rest : Bytes) :
    findReqMsgId 0xf35c6d01 ((ProgressMessage.rpcResult requestMessageId data).fields ++ rest) =
      some (requestMessageId, data ++ rest) := by
  have hread := streamReadInt_leBits (w := 64) (by norm_num) requestMessageId (data ++ rest)
  rw [ProgressMessage.fields, append_assoc]
  exact hread

theorem findReqMsgId_pong (pingId : BitVec 64) (rest : Bytes) :
    findReqMsgId 0x347773c5 ((ProgressMessage.pong messageId pingId).fields ++ rest) = some (0, rest) := by
  have hmsg := streamReadInt_leBits (w := 64) (by norm_num) messageId (leBits pingId ++ rest)
  have hping := streamReadInt_leBits (w := 64) (by norm_num) pingId rest
  rw [ProgressMessage.fields, append_assoc]
  simp [findReqMsgId, findReqMsgIdWith, hmsg, hping]

/-- **An acknowledgement** of `n` ids is `8 n` bytes long behind the count, and the scanner reads `4 n` of
them. -/
theorem findReqMsgId_msgsAck (h : messageIds.length < 2 ^ 31) (rest : Bytes) :
    findReqMsgId 0x62d6b459 ((ProgressMessage.msgsAck messageIds).fields ++ rest) =
      some (0, (messageIds.flatMap leBits).drop (4 * messageIds.length) ++ rest) := by
  have hlen := length_flatMap_leBits messageIds
  have hvector := streamReadInt_leBits (w := 32) (by norm_num) 0x1cb5c415#32
    (leBits (ofNat 32 messageIds.length) ++ (messageIds.flatMap leBits ++ rest))
  have hcnt := streamReadInt_leBits (w := 32) (by norm_num) (ofNat 32 messageIds.length)
    (messageIds.flatMap leBits ++ rest)
  have hskip : skipInt32s (ofNat 32 messageIds.length).toInt.toNat (messageIds.flatMap leBits ++ rest) =
      some ((messageIds.flatMap leBits).drop (4 * messageIds.length) ++ rest) := by
    rw [toInt_ofNat_of_lt h, Int.toNat_natCast, skipInt32s_eq _ _ (by rw [length_append]; omega),
      drop_append_of_le_length (by omega)]
  rw [ProgressMessage.fields, append_assoc, append_assoc]
  simp [findReqMsgId, findReqMsgIdWith, hvector, hcnt, hskip]

/-- A message without an `rpc_result` in it is passed to its end exactly if it is not an acknowledgement of
something. -/
theorem findReqMsgId_passes_iff (hwf : message.WellFormed) (h : message.requestId = none) (rest : Bytes) :
    findReqMsgId message.signature (message.fields ++ rest) = some (0, rest) ↔
      ∀ messageIds, message = .msgsAck messageIds → messageIds = [] := by
  match message, hwf, h with
  | .pong messageId pingId, _, _ =>
    have hpong := findReqMsgId_pong messageId pingId rest
    constructor
    · intro _ messageIds hack
      cases hack
    · intro _
      exact hpong
  | .msgsAck messageIds, hwf, _ =>
    have hack := findReqMsgId_msgsAck hwf rest
    have hlen := length_flatMap_leBits messageIds
    rw [ProgressMessage.signature, hack]
    constructor
    · intro hpass ids hids
      cases hids
      have hrest : (messageIds.flatMap leBits).drop (4 * messageIds.length) ++ rest = rest :=
        congrArg Prod.snd (Option.some.inj hpass)
      have hsize := congrArg List.length hrest
      rw [length_append, length_drop] at hsize
      exact length_eq_zero_iff.mp (by omega)
    · intro hempty
      rw [hempty messageIds rfl]
      rfl

/-! ## The scan of a body -/

/-- **In step**: as long as more items follow, an item before the first `rpc_result` is no acknowledgement of
anything, and the id of that `rpc_result` is not the 0 that stands for "not found". -/
def InStep : List ProgressItem → Prop
  | [] => True
  | item :: items => items = [] ∨
    match item.message with
    | .msgsAck messageIds => messageIds = [] ∧ InStep items
    | .pong _ _ => InStep items
    | .rpcResult requestMessageId _ => requestMessageId ≠ 0

def ProgressBody.InStep : ProgressBody → Prop
  | .single _ => True
  | .container items => MtProto.InStep items

/-- A message that is not an `rpc_result` is read without an id, and none of it is left if it is no acknowledgement of
anything. -/
theorem findReqMsgId_of_requestId_none (hwf : message.WellFormed) (h : message.requestId = none) (rest : Bytes) :
    ∃ left, findReqMsgId message.signature (message.fields ++ rest) = some (0, left ++ rest) := by
  match message, hwf, h with
  | .pong messageId pingId, _, _ => exact ⟨[], findReqMsgId_pong messageId pingId rest⟩
  | .msgsAck messageIds, hwf, _ =>
    exact ⟨(messageIds.flatMap leBits).drop (4 * messageIds.length), findReqMsgId_msgsAck hwf rest⟩

theorem scan_item (item : ProgressItem) (rest : Bytes) : scan (count + 1) (containerItem item.toMessage ++ rest) =
      (findReqMsgId item.message.signature (item.message.fields ++ rest)).bind fun found =>
        if found.1 ≠ 0 then some found else scan count found.2 := by
  have h := scan_succ count item.messageId item.seqNo (ofNat 32 item.toMessage.data.length)
    item.message.signature (item.message.fields ++ rest)
  have hbs : containerItem item.toMessage ++ rest = leBits item.messageId ++ (leBits item.seqNo ++
      (leBits (ofNat 32 item.toMessage.data.length) ++
        (leBits item.message.signature ++ (item.message.fields ++ rest)))) := by
    simp only [containerItem, ProgressItem.toMessage, ProgressMessage.bytes, append_assoc]
  rw [hbs]
  exact h

variable {item : ProgressItem}

theorem scan_last (h : item.message.WellFormed) (rest : Bytes) :
    ((scan 1 (containerItem item.toMessage ++ rest)).map Prod.fst).getD 0 = item.message.requestId.getD 0 := by
  have hround := scan_item 0 item rest
  rw [hround]
  cases hid : item.message.requestId with
  | none =>
    obtain ⟨left, hfound⟩ := findReqMsgId_of_requestId_none h hid rest
    simp [hfound, scan_zero]
  | some requestMessageId =>
    obtain ⟨data, hdata⟩ : ∃ data, item.message = .rpcResult requestMessageId data := by
      match item.message, hid with
      | .rpcResult _ data, rfl => exact ⟨data, rfl⟩
    rw [hdata, ProgressMessage.signature, findReqMsgId_rpcResult, bind_some, scan_zero]
    by_cases hzero : requestMessageId ≠ 0
    · rw [if_pos hzero]
      rfl
    · rw [if_neg hzero, not_not.mp hzero]
      rfl

theorem scan_passed (h : findReqMsgId item.message.signature (item.message.fields ++ rest) = some (0, rest)) :
    scan (count + 1) (containerItem item.toMessage ++ rest) = scan count rest := by
  rw [scan_item, h, bind_some]
  exact if_neg (by simp)

theorem scan_found {requestMessageId : BitVec 64} {data : Bytes}
    (hitem : item.message = .rpcResult requestMessageId data) (h : requestMessageId ≠ 0) (rest : Bytes) :
    scan (count + 1) (containerItem item.toMessage ++ rest) = some (requestMessageId, data ++ rest) := by
  rw [scan_item, hitem, ProgressMessage.signature, findReqMsgId_rpcResult, bind_some]
  exact if_pos h

theorem scan_items (items : List ProgressItem) (rest : Bytes) (h : InStep items)
    (hwf : ∀ item ∈ items, item.message.WellFormed) :
    ((scan items.length ((items.map ProgressItem.toMessage).flatMap containerItem ++ rest)).map Prod.fst).getD 0 =
      (items.findSome? fun item => item.message.requestId).getD 0 := by
  induction items with
  | nil =>
    show ((scan 0 _).map Prod.fst).getD 0 = _
    rw [scan_zero]
    rfl
  | cons item items ih =>
    have hhead : item.message.WellFormed := hwf item mem_cons_self
    have htail (hin : InStep items) := ih hin fun other hm => hwf other (mem_cons_of_mem item hm)
    rw [map_cons, flatMap_cons, append_assoc, length_cons, findSome?_cons]
    rcases h with hlast | hin
    · subst hlast
      rw [length_nil, scan_last hhead]
      cases item.message.requestId <;> rfl
    · cases hmsg : item.message with
      | msgsAck messageIds =>
        rw [hmsg] at hin hhead
        have hpass := (findReqMsgId_passes_iff hhead rfl
          ((items.map ProgressItem.toMessage).flatMap containerItem ++ rest)).mpr fun ids hids => by
            cases hids
            exact hin.1
        rw [← hmsg] at hpass
        rw [scan_passed _ hpass]
        exact htail hin.2
      | pong messageId pingId =>
        rw [hmsg] at hin
        have hpass := findReqMsgId_pong messageId pingId
          ((items.map ProgressItem.toMessage).flatMap containerItem ++ rest)
        rw [scan_passed _ (by rw [hmsg]; exact hpass)]
        exact htail hin
      | rpcResult requestMessageId data =>
        rw [hmsg] at hin
        rw [scan_found _ hmsg hin]
        rfl

theorem scannedReqMsgId_eq (signature : BitVec 32) (is : Bytes) :
    scannedReqMsgId (leBits signature ++ is) = ((findReqMsgId signature is).map Prod.fst).getD 0 := by
  unfold scannedReqMsgId
  rw [streamReadInt_leBits (by norm_num)]

theorem scannedReqMsgId_bytes (padding : Bytes) (hwf : body.WellFormed) (h : body.InStep) :
    scannedReqMsgId (body.bytes ++ padding) = body.requestId.getD 0 := by
  match body, hwf, h with
  | .single (.rpcResult requestMessageId data), _, _ =>
    show scannedReqMsgId ((leBits _ ++ _) ++ padding) = _
    rw [append_assoc, scannedReqMsgId_eq]
    exact congrArg (fun found => (found.map Prod.fst).getD 0) (findReqMsgId_rpcResult requestMessageId data padding)
  | .single (.pong messageId pingId), _, _ =>
    show scannedReqMsgId ((leBits _ ++ _) ++ padding) = _
    rw [append_assoc, scannedReqMsgId_eq]
    exact congrArg (fun found => (found.map Prod.fst).getD 0) (findReqMsgId_pong messageId pingId padding)
  | .single (.msgsAck messageIds), hwf, _ =>
    show scannedReqMsgId ((leBits _ ++ _) ++ padding) = _
    rw [append_assoc, scannedReqMsgId_eq]
    exact congrArg (fun found => (found.map Prod.fst).getD 0) (findReqMsgId_msgsAck hwf padding)
  | .container items, ⟨hcnt, hitems⟩, h =>
    have hscan := scan_items items padding h fun item hm =>
      ProgressMessage.wellFormed_of_length (hitems item hm)
    obtain ⟨bytes, hbs⟩ : ∃ bytes, bytes = (items.map ProgressItem.toMessage).flatMap containerItem ++ padding :=
      ⟨_, rfl⟩
    have hread := streamReadInt_leBits (w := 32) (by norm_num) (ofNat 32 items.length) bytes
    have hfuel : scanItems (leBits (ofNat 32 items.length) ++ bytes).length items.length bytes =
        scan items.length bytes :=
      scanItems_fuel _ _ _ _ (by rw [length_append]; omega) le_rfl
    rw [ProgressBody.bytes, append_assoc, append_assoc, scannedReqMsgId_eq, ← hbs]
    rw [← hbs, ← hfuel] at hscan
    unfold findReqMsgId findReqMsgIdWith
    rw [if_pos rfl, hread, bind_eq_bind, bind_some]
    dsimp only
    rw [toInt_ofNat_of_lt hcnt, Int.toNat_natCast]
    exact hscan

theorem findLoop_found (fuel : Nat) (h : scannedReqMsgId is ≠ 0) : findLoop (fuel + 1) is = scannedReqMsgId is := by
  unfold scannedReqMsgId at h ⊢
  rw [findLoop]
  split at h
  · exact absurd rfl h
  · next signature rest hread =>
    cases hfound : findReqMsgId signature rest with
    | none =>
      rw [hfound] at h
      exact absurd rfl h
    | some found =>
      rw [hfound] at h
      exact if_neg h

theorem transportDecodeProgressToken_found (salt sessionId messageId : BitVec 64) (seqNo : BitVec 32)
    {body padding : Bytes} (h : scannedReqMsgId (body ++ padding) ≠ 0) :
    transportDecodeProgressToken (decryptedPacket salt sessionId messageId seqNo body padding) =
      some (scannedReqMsgId (body ++ padding)) := by
  have hdrop : (decryptedPacket salt sessionId messageId seqNo body padding).drop (8 + 8 + 8 + 4 + 4) =
      body ++ padding := by
    unfold decryptedPacket
    simp only [← append_assoc]
    rw [append_assoc _ body]
    exact drop_left' (by simp)
  have hfuel : ∃ fuel, (body ++ padding).length = fuel + 1 := by
    refine Nat.exists_eq_succ_of_ne_zero fun hzero => h ?_
    rw [length_eq_zero_iff.mp hzero]
    rfl
  obtain ⟨fuel, hfuel⟩ := hfuel
  unfold transportDecodeProgressToken
  rw [hdrop]
  dsimp only
  rw [hfuel, findLoop_found fuel h, if_pos h]

/-- **The progress scanner** finds the request that the parser finds, or 0 where the parser finds none, in every
body that does not put it out of step, whatever follows the body; and the loop around it then reports that
request. -/
theorem scannedReqMsgId_inStep (body : ProgressBody) (padding : Bytes) (hwf : body.WellFormed)
    (h : body.InStep) :
    scannedReqMsgId (body.bytes ++ padding) = (firstRequestMessageId body.bytes).getD 0 ∧
      ∀ (salt sessionId messageId : BitVec 64) (seqNo : BitVec 32) (requestMessageId : BitVec 64),
        firstRequestMessageId body.bytes = some requestMessageId → requestMessageId ≠ 0 →
        transportDecodeProgressToken (decryptedPacket salt sessionId messageId seqNo body.bytes padding) =
          some requestMessageId := by
  have hscan : scannedReqMsgId (body.bytes ++ padding) = (firstRequestMessageId body.bytes).getD 0 := by
    rw [firstRequestMessageId_bytes hwf]
    exact scannedReqMsgId_bytes padding hwf h
  refine ⟨hscan, fun salt sessionId messageId seqNo requestMessageId hfirst hne => ?_⟩
  have hid : scannedReqMsgId (body.bytes ++ padding) = requestMessageId := by
    rw [hscan, hfirst]
    rfl
  rw [transportDecodeProgressToken_found salt sessionId messageId seqNo (by rw [hid]; exact hne), hid]

def pongThenResult : ProgressBody := .container [⟨1, 1, .pong 5 6⟩, ⟨2, 3, .rpcResult 7 [1, 2, 3, 4]⟩]

theorem scannedReqMsgId_pongThenResult :
    pongThenResult.WellFormed ∧ pongThenResult.InStep ∧
      scannedReqMsgId (pongThenResult.bytes ++ [9]) = (firstRequestMessageId pongThenResult.bytes).getD 0 := by
  have hwf : pongThenResult.WellFormed := by
    refine ⟨by decide, ?_⟩
    decide
  have hstep : pongThenResult.InStep := Or.inr (Or.inl rfl)
  exact ⟨hwf, hstep, (scannedReqMsgId_inStep pongThenResult [9] hwf hstep).1⟩

/-- The answer to request 7 behind the acknowledgement of one message. -/
def ackThenResult : ProgressBody :=
  .container [⟨1, 1, .msgsAck [5]⟩, ⟨2, 3, .rpcResult 7 (List.replicate 16 0)⟩, ⟨3, 4, .pong 0 0⟩]

/-- The parser finds request 7; the scanner reads on in the middle of the acknowledged id and finds nothing, in
one call and in the whole loop. -/
theorem ackThenResult_notFound :
    ackThenResult.WellFormed ∧ firstRequestMessageId ackThenResult.bytes = some 7 ∧
      scannedReqMsgId ackThenResult.bytes = 0 ∧
      transportDecodeProgressToken (decryptedPacket 0 0 0 0 ackThenResult.bytes []) = none := by
  have hwf : ackThenResult.WellFormed := by
    refine ⟨by decide, ?_⟩
    decide
  refine ⟨hwf, ?_, by decide +kernel, by decide +kernel⟩
  rw [firstRequestMessageId_bytes hwf]
  rfl

end TelegramClient.MtProto
