import TelegramClient.Lib.BlockStreams
import TelegramClient.MtProto.Encryption

/-!
# `MTEncryption.m`: AES over a stream

The functions that leave the iv for the next piece of a stream.

* `mtAesEncryptInplaceAndModifyIv`, `mtAesDecryptInplaceAndModifyIv` : the two functions;
* `mtAesEncryptInplaceAndModifyIv_slice`, `mtAesDecryptInplaceAndModifyIv_slice` : **a piece at its iv** gives the piece of
  the whole, and the iv of the next one;
* `mtAesInplaceAndModifyIv_pieces` : **the pieces one after the other** give what the whole message gives.
-/

namespace TelegramClient.MtProto

def mtAesEncryptInplaceAndModifyIv (aes : Aes (Block 32)) (data : Bytes) (key iv : Block 32) : Bytes × Block 32 :=
  let (outData, aesIv) := myAesIgeEncrypt aes key (toBlocks 16 data) iv
  (ofBlocks outData, aesIv)

def mtAesDecryptInplaceAndModifyIv (aes : Aes (Block 32)) (data : Bytes) (key iv : Block 32) : Bytes × Block 32 :=
  let (outData, aesIv) := myAesIgeDecrypt aes key (toBlocks 16 data) iv
  (ofBlocks outData, aesIv)

section
variable (aes : Aes (Block 32)) (key iv : Block 32) (data : Bytes)

/-- The blocks of the textbook encryption of `data`. -/
def igeCipherBlocks : List (Block 16) :=
  igeEncrypt (aes.encryptBlock key) (ivCipher iv) (ivPlain iv) (toBlocks 16 data)

def igeCiphertext : Bytes := ofBlocks (igeCipherBlocks aes key iv data)

/-- The blocks of the textbook decryption of `data`. -/
def igePlainBlocks : List (Block 16) :=
  igeDecrypt (aes.decryptBlock key) (ivCipher iv) (ivPlain iv) (toBlocks 16 data)

@[simp] theorem length_igeCiphertext : (igeCiphertext aes key iv data).length = 16 * (data.length / 16) := by
  simp [igeCiphertext, igeCipherBlocks]

/-- The iv after `m` blocks have been encrypted. -/
def encryptIvAt (m : Nat) : Block 32 :=
  joinIv (lastBlock (ivCipher iv) (igeCipherBlocks aes key iv data) m) (lastBlock (ivPlain iv) (toBlocks 16 data) m)

/-- The iv after `m` blocks have been decrypted. -/
def decryptIvAt (m : Nat) : Block 32 :=
  joinIv (lastBlock (ivCipher iv) (toBlocks 16 data) m) (lastBlock (ivPlain iv) (igePlainBlocks aes key iv data) m)

theorem joinIv_halves : joinIv (ivCipher iv) (ivPlain iv) = iv := by
  apply Vector.ext
  intro i hi
  by_cases hhalf : i < 16
  · rw [joinIv, Vector.getElem_append_left hhalf]
    simp only [ivCipher, Vector.getElem_ofFn]
    rfl
  · rw [joinIv, Vector.getElem_append_right hi (by omega)]
    simp only [ivPlain, Vector.getElem_ofFn]
    show iv[16 + (i - 16)] = iv[i]
    congr 1
    omega

@[simp] theorem encryptIvAt_zero : encryptIvAt aes key iv data 0 = iv := joinIv_halves iv

@[simp] theorem decryptIvAt_zero : decryptIvAt aes key iv data 0 = iv := joinIv_halves iv

variable {data}

variable {m l : Nat}

theorem pieceBlocks_ne_nil (hl : 0 < l) (hle : 16 * (m + l) ≤ data.length) :
    ((toBlocks 16 data).drop m).take l ≠ [] := by
  intro hnil
  have hlen := congrArg List.length hnil
  rw [List.length_take, List.length_drop, length_toBlocks, List.length_nil] at hlen
  omega

/-- **A piece that is encrypted at its iv** is the piece of the ciphertext, and leaves the iv of the next one. -/
theorem mtAesEncryptInplaceAndModifyIv_slice (h : data.length % 16 = 0) (hl : 0 < l)
    (hle : 16 * (m + l) ≤ data.length) :
    mtAesEncryptInplaceAndModifyIv aes (slice data (16 * m) (16 * l)) key (encryptIvAt aes key iv data m) =
      (slice (igeCiphertext aes key iv data) (16 * m) (16 * l), encryptIvAt aes key iv data (m + l)) := by
  have hne := pieceBlocks_ne_nil hl hle
  rw [mtAesEncryptInplaceAndModifyIv, toBlocks_slice (by omega) h, myAesIgeEncrypt_eq aes key _ _ hne, encryptIvAt,
    ivCipher_joinIv, ivPlain_joinIv, igeCipherBlocks, igeEncrypt_piece, lastBlock_add, lastBlock_add, igeCiphertext,
    slice_ofBlocks]
  rfl

theorem mtAesDecryptInplaceAndModifyIv_slice (h : data.length % 16 = 0) (hl : 0 < l)
    (hle : 16 * (m + l) ≤ data.length) :
    mtAesDecryptInplaceAndModifyIv aes (slice data (16 * m) (16 * l)) key (decryptIvAt aes key iv data m) =
      (slice (igePlaintext aes key iv data) (16 * m) (16 * l), decryptIvAt aes key iv data (m + l)) := by
  have hne := pieceBlocks_ne_nil hl hle
  rw [mtAesDecryptInplaceAndModifyIv, toBlocks_slice (by omega) h, myAesIgeDecrypt_eq aes key _ _ hne, decryptIvAt,
    ivCipher_joinIv, ivPlain_joinIv, igePlainBlocks, igeDecrypt_piece, lastBlock_add, lastBlock_add, igePlaintext,
    slice_ofBlocks]
  rfl

/-! ## All pieces of a message -/

/-- At least one block, and nothing behind the last one. -/
def WholeBlocks (data : Bytes) : Prop := data ≠ [] ∧ data.length % 16 = 0

variable {a b : Bytes}

theorem WholeBlocks.append (ha : WholeBlocks a) (hb : WholeBlocks b) : WholeBlocks (a ++ b) := by
  refine ⟨fun hnil => ha.1 (List.append_eq_nil_iff.mp hnil).1, ?_⟩
  rw [List.length_append, Nat.add_mod, ha.2, hb.2]

theorem WholeBlocks.blocks_ne_nil (h : WholeBlocks data) : toBlocks 16 data ≠ [] := toBlocks_ne_nil h.1 h.2

theorem mtAesEncryptInplaceAndModifyIv_append (ha : WholeBlocks a) (hb : WholeBlocks b) :
    mtAesEncryptInplaceAndModifyIv aes (a ++ b) key iv =
      let (outA, ivA) := mtAesEncryptInplaceAndModifyIv aes a key iv
      let (outB, ivB) := mtAesEncryptInplaceAndModifyIv aes b key ivA
      (outA ++ outB, ivB) := by
  have hneBoth : toBlocks 16 a ++ toBlocks 16 b ≠ [] := by simp [ha.blocks_ne_nil]
  simp only [mtAesEncryptInplaceAndModifyIv, toBlocks_append (by omega) ha.2 hb.2,
    myAesIgeEncrypt_eq aes key _ _ ha.blocks_ne_nil, myAesIgeEncrypt_eq aes key _ _ hb.blocks_ne_nil,
    myAesIgeEncrypt_eq aes key _ _ hneBoth, ivCipher_joinIv, ivPlain_joinIv, igeEncrypt_append, ofBlocks_append,
    getLastD_append]

theorem mtAesDecryptInplaceAndModifyIv_append (ha : WholeBlocks a) (hb : WholeBlocks b) :
    mtAesDecryptInplaceAndModifyIv aes (a ++ b) key iv =
      let (outA, ivA) := mtAesDecryptInplaceAndModifyIv aes a key iv
      let (outB, ivB) := mtAesDecryptInplaceAndModifyIv aes b key ivA
      (outA ++ outB, ivB) := by
  have hneBoth : toBlocks 16 a ++ toBlocks 16 b ≠ [] := by simp [ha.blocks_ne_nil]
  simp only [mtAesDecryptInplaceAndModifyIv, toBlocks_append (by omega) ha.2 hb.2,
    myAesIgeDecrypt_eq aes key _ _ ha.blocks_ne_nil, myAesIgeDecrypt_eq aes key _ _ hb.blocks_ne_nil,
    myAesIgeDecrypt_eq aes key _ _ hneBoth, ivCipher_joinIv, ivPlain_joinIv, igeDecrypt_append, ofBlocks_append,
    getLastD_append]

/-- **A message may be split at any block boundaries**, for encryption and for decryption: the bytes and the iv that is
left are those of the whole message. -/
theorem mtAesInplaceAndModifyIv_pieces {parts : List Bytes} (hne : parts ≠ []) (hparts : ∀ part ∈ parts, WholeBlocks part) :
    runPieces (fun part iv => mtAesEncryptInplaceAndModifyIv aes part key iv) parts iv =
        mtAesEncryptInplaceAndModifyIv aes parts.flatten key iv ∧
      runPieces (fun part iv => mtAesDecryptInplaceAndModifyIv aes part key iv) parts iv =
        mtAesDecryptInplaceAndModifyIv aes parts.flatten key iv := by
  have happend (a b : Bytes) (ha : WholeBlocks a) (hb : WholeBlocks b) : WholeBlocks (a ++ b) := ha.append hb
  constructor
  · have hcut (a b : Bytes) (iv : Block 32) (ha : WholeBlocks a) (hb : WholeBlocks b) :=
      mtAesEncryptInplaceAndModifyIv_append aes key iv ha hb
    exact (runPieces_eq happend hcut hne hparts iv).2
  · have hcut (a b : Bytes) (iv : Block 32) (ha : WholeBlocks a) (hb : WholeBlocks b) :=
      mtAesDecryptInplaceAndModifyIv_append aes key iv ha hb
    exact (runPieces_eq happend hcut hne hparts iv).2

/-- Three blocks, the first of them in a piece of its own. -/
theorem mtAesInplaceAndModifyIv_pieces_two :
    let aes := identityAes (Block 32)
    let key : Block 32 := Vector.replicate 32 7
    let iv : Block 32 := Vector.replicate 32 9
    let parts : List Bytes := [List.replicate 16 1, List.replicate 32 2]
    runPieces (fun part iv => mtAesEncryptInplaceAndModifyIv aes part key iv) parts iv =
        mtAesEncryptInplaceAndModifyIv aes parts.flatten key iv ∧
      runPieces (fun part iv => mtAesDecryptInplaceAndModifyIv aes part key iv) parts iv =
        mtAesDecryptInplaceAndModifyIv aes parts.flatten key iv :=
  mtAesInplaceAndModifyIv_pieces _ _ _ (by simp) (by simp [WholeBlocks])

end

end TelegramClient.MtProto
