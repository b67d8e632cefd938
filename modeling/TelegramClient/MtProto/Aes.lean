import TelegramClient.Lib.BlockModes

/-!
# `MTAes.m`: the IGE mode

* `xorWords` : the loops over the machine words of an `aes_block_t` (`xorData_eq`: they xor byte by byte);
* `myAesIge_roundTrip` : encryption, decryption and the two updated ivs together.

CommonCrypto is `Aes`: arbitrary block functions, decryption undoing encryption.
-/

namespace TelegramClient.MtProto

/-- The block functions of `kCCAlgorithmAES128`. -/
structure Aes (Key : Type) where
  encryptBlock : Key → Block 16 → Block 16
  decryptBlock : Key → Block 16 → Block 16
  decrypt_encrypt : ∀ key b, decryptBlock key (encryptBlock key b) = b

def identityAes (Key : Type) : Aes Key := ⟨fun _ b => b, fun _ b => b, fun _ _ => rfl⟩

/-! ## Blocks as machine words -/

/-- `N_WORDS`. -/
def nWords : Nat := 16 / 8

/-- `for (n = 0; n < N_WORDS; ++n) d[n] = a[n] ^ b[n]` over 16 bytes. -/
def xorWords (a b : Bytes) : Bytes :=
  (List.range nWords).flatMap fun n => leBytes 8 (ofLe (slice a (8 * n) 8) ^^^ ofLe (slice b (8 * n) 8))

theorem xorWords_eq {a b : Bytes} (ha : a.length = 16) (hb : b.length = 16) : xorWords a b = xorBytes a b := by
  have hword (n : Nat) (hn : 8 * n + 8 ≤ 16) : leBytes 8 (ofLe (slice a (8 * n) 8) ^^^ ofLe (slice b (8 * n) 8)) =
        xorBytes (slice a (8 * n) 8) (slice b (8 * n) 8) :=
    leBytes_xor (length_slice (by omega)) (length_slice (by omega))
  have hrange : List.range nWords = [0, 1] := rfl
  unfold xorWords
  rw [hrange, List.flatMap_cons, List.flatMap_singleton, hword 0 (by omega), hword 1 (by omega)]
  simp only [slice, xorBytes, Nat.mul_zero, Nat.mul_one, List.drop_zero]
  rw [List.take_of_length_le (l := a.drop 8) (by simp [ha]),
    List.take_of_length_le (l := b.drop 8) (by simp [hb]),
    ← List.zipWith_append (by simp [ha, hb]), List.take_append_drop, List.take_append_drop]

def xorData (a b : Block 16) : Block 16 :=
  ⟨(xorWords a.toList b.toList).toArray, by simp [xorWords_eq, length_xorBytes]⟩

@[simp] theorem xorData_eq (a b : Block 16) : xorData a b = xorBlock a b := by
  apply Vector.toList_inj.mp
  have h : (xorData a b).toList = xorWords a.toList b.toList := by simp [xorData, Vector.toList]
  rw [h, xorWords_eq (by simp) (by simp)]
  simp [xorBytes, xorBlock]

/-! ## Buffers and pointers -/

/-- What an `aes_block_t *` of the loops points to. -/
inductive BlockPtr where
  | aesIv
  | ccIv
  | inBlock (k : Nat)
  | outBlock (k : Nat)

structure IgeBuffers where
  inBytes : List (Block 16)
  outBytes : List (Block 16)
  aesIv : Block 16
  ccIv : Block 16

def IgeBuffers.load (m : IgeBuffers) : BlockPtr → Block 16
  | .aesIv => m.aesIv
  | .ccIv => m.ccIv
  | .inBlock k => m.inBytes.getD k (Vector.replicate 16 0)
  | .outBlock k => m.outBytes.getD k (Vector.replicate 16 0)

variable {pre xs : List (Block 16)} {x : Block 16}

theorem IgeBuffers.load_inBlock {m : IgeBuffers} (h : m.inBytes = pre ++ x :: xs) :
    m.load (.inBlock pre.length) = x := by
  simp [load, h]

theorem IgeBuffers.load_outBlock {m : IgeBuffers} (h : m.outBytes = pre ++ x :: xs) :
    m.load (.outBlock pre.length) = x := by
  simp [load, h]

/-- The 32 bytes of an iv: the last ciphertext block, then the last plaintext block. -/
def ivCipher (iv : Block 32) : Block 16 := Vector.ofFn fun i => iv.get ⟨i, by omega⟩
def ivPlain (iv : Block 32) : Block 16 := Vector.ofFn fun i => iv.get ⟨16 + i, by omega⟩
def joinIv (y x : Block 16) : Block 32 := y ++ x

/-! ## Encryption -/

/-- The loop that fills `tmpInBytes` from its second block on. Returns it with the last `inB`. -/
def preXorLoop (m : IgeBuffers) : Nat → Nat → Nat → BlockPtr → List (Block 16) → List (Block 16) × Nat
  | 0, inB, _, _, tmpInBytes => (tmpInBytes, inB)
  | len + 1, inB, inBCC, iv3p, tmpInBytes =>
    preXorLoop m len (inB + 1) (inBCC + 1) (.inBlock inBCC)
      (tmpInBytes ++ [xorData (m.load (.inBlock inB)) (m.load iv3p)])

/-- The loop over the output of the CBC pass. Returns the buffers and the last `ivp` and `iv2p`. -/
def postXorLoop (m : IgeBuffers) : Nat → Nat → Nat → BlockPtr → BlockPtr → IgeBuffers × BlockPtr × BlockPtr
  | 0, _, _, ivp, iv2p => (m, ivp, iv2p)
  | len + 1, inB, outB, _, iv2p =>
    let out := xorData (m.load (.outBlock outB)) (m.load iv2p)
    postXorLoop { m with outBytes := m.outBytes.set outB out } len (inB + 1) (outB + 1) (.outBlock outB)
      (.inBlock inB)

/-- `MyAesIgeEncrypt`: the bytes written to `outBytes` and the new content of `iv`. -/
def myAesIgeEncrypt {Key : Type} (aes : Aes Key) (key : Key) (inBytes : List (Block 16)) (iv : Block 32) :
    List (Block 16) × Block 32 :=
  let m : IgeBuffers := ⟨inBytes, [], ivCipher iv, ivPlain iv⟩
  let len := inBytes.length
  let tmp := preXorLoop m (len - 1) 1 0 .ccIv [m.load (.inBlock 0)]
  let m := { m with outBytes := cbcEncrypt (aes.encryptBlock key) m.aesIv tmp.1 }
  let r := postXorLoop m len 0 0 (.inBlock tmp.2) .ccIv
  (r.1.outBytes, joinIv (r.1.load r.2.1) (r.1.load r.2.2))

variable (m : IgeBuffers)

theorem preXorLoop_eq (iv3p : BlockPtr) (pre : List (Block 16)) (x : Block 16) (xs tmp : List (Block 16))
    (h : m.inBytes = pre ++ x :: xs) : (preXorLoop m xs.length (pre.length + 1) pre.length iv3p tmp).1 =
      tmp ++ maskTwoBack (m.load iv3p) x xs := by
  induction xs generalizing pre x iv3p tmp with
  | nil => simp [preXorLoop, maskTwoBack]
  | cons x' xs ih =>
    have hsplit : m.inBytes = (pre ++ [x]) ++ x' :: xs := by simp [h]
    have hlen : (pre ++ [x]).length = pre.length + 1 := by simp
    have hx : m.load (.inBlock pre.length) = x := IgeBuffers.load_inBlock h
    have hx' : m.load (.inBlock (pre.length + 1)) = x' := by
      rw [← hlen]
      exact IgeBuffers.load_inBlock hsplit
    have hrec := ih (.inBlock pre.length) (pre ++ [x]) x' (tmp ++ [xorData x' (m.load iv3p)]) hsplit
    rw [hlen, hx] at hrec
    rw [List.length_cons, preXorLoop, hx', hrec]
    simp [maskTwoBack]

theorem postXorLoop_outBytes (ivp iv2p : BlockPtr) (b : Block 16) (pre xs done cs : List (Block 16))
    (hin : m.inBytes = pre ++ xs) (hout : m.outBytes = done ++ cs) (hlen : cs.length = xs.length)
    (hb : m.load iv2p = b) : (postXorLoop m xs.length pre.length done.length ivp iv2p).1 =
      { m with outBytes := done ++ maskOneBack b xs cs } := by
  induction xs generalizing m ivp iv2p b pre done cs with
  | nil =>
    have hcs : cs = [] := List.length_eq_zero_iff.mp hlen
    subst hcs
    rw [List.append_nil] at hout
    simp [postXorLoop, maskOneBack, ← hout]
  | cons x xs ih =>
    obtain ⟨c, cs, rfl⟩ := List.exists_cons_of_length_eq_add_one hlen
    have hc : m.load (.outBlock done.length) = c := IgeBuffers.load_outBlock hout
    have hset : m.outBytes.set done.length (xorBlock c b) = (done ++ [xorBlock c b]) ++ cs := by
      simp [hout]
    have hrec := ih { m with outBytes := m.outBytes.set done.length (xorBlock c b) }
      (.outBlock done.length) (.inBlock pre.length) x (pre ++ [x]) (done ++ [xorBlock c b]) cs
      (by simp [hin]) hset (by simpa using hlen) (IgeBuffers.load_inBlock hin)
    rw [List.length_append, List.length_append, List.length_singleton, List.length_singleton] at hrec
    rw [List.length_cons, postXorLoop, hc, hb, xorData_eq, hrec]
    simp [maskOneBack]

theorem postXorLoop_ptrs (len inB outB : Nat) (ivp iv2p : BlockPtr) :
    (postXorLoop m (len + 1) inB outB ivp iv2p).2 = (.outBlock (outB + len), .inBlock (inB + len)) := by
  induction len generalizing m inB outB ivp iv2p with
  | zero => rfl
  | succ len ih =>
    rw [postXorLoop, ih, show outB + 1 + len = outB + (len + 1) by omega,
      show inB + 1 + len = inB + (len + 1) by omega]

theorem getD_last {l : List (Block 16)} {k : Nat} (h : l.length = k + 1) (d z : Block 16) :
    l.getD k d = l.getLastD z := by
  rw [List.getLastD_eq_getLast?, List.getLast?_eq_getElem?, h, List.getD_eq_getElem?_getD]
  simp [h]

variable {Key : Type}

variable (aes : Aes Key) (key : Key) (iv : Block 32)

/-- **The encryptor is textbook IGE**, and leaves the last block of each side in the iv. -/
theorem myAesIgeEncrypt_eq (xs : List (Block 16)) (h : xs ≠ []) : myAesIgeEncrypt aes key xs iv =
      (igeEncrypt (aes.encryptBlock key) (ivCipher iv) (ivPlain iv) xs,
        joinIv ((igeEncrypt (aes.encryptBlock key) (ivCipher iv) (ivPlain iv) xs).getLastD (ivCipher iv))
          (xs.getLastD (ivPlain iv))) := by
  obtain ⟨x, xs, rfl⟩ := List.exists_cons_of_ne_nil h
  set ys := igeEncrypt (aes.encryptBlock key) (ivCipher iv) (ivPlain iv) (x :: xs) with hys
  have hlen : ys.length = xs.length + 1 := by simp [hys]
  unfold myAesIgeEncrypt
  dsimp only
  set m : IgeBuffers := ⟨x :: xs, [], ivCipher iv, ivPlain iv⟩ with hm
  have hpre := preXorLoop_eq m .ccIv [] x xs [x] rfl
  have htmp : (preXorLoop m xs.length 1 0 .ccIv [m.load (.inBlock 0)]).1 =
      x :: maskTwoBack (ivPlain iv) x xs := hpre
  rw [List.length_cons, Nat.add_sub_cancel, htmp]
  set out := cbcEncrypt (aes.encryptBlock key) m.aesIv (x :: maskTwoBack (ivPlain iv) x xs) with hout
  set ivp := BlockPtr.inBlock (preXorLoop m xs.length 1 0 .ccIv [m.load (.inBlock 0)]).2
  have hptrs := postXorLoop_ptrs { m with outBytes := out } xs.length 0 0 ivp .ccIv
  have hpost : (postXorLoop { m with outBytes := out } (xs.length + 1) 0 0 ivp .ccIv).1 =
      { m with outBytes := ys } := by
    have h := postXorLoop_outBytes { m with outBytes := out } ivp .ccIv (ivPlain iv) [] (x :: xs) [] out
      rfl rfl (by simp [hout]) rfl
    rw [List.nil_append, hout, igeEncrypt_eq_cbcEncrypt, ← hout] at h
    exact h
  rw [hptrs, hpost, Nat.zero_add]
  congr 2
  · exact getD_last hlen _ _
  · exact getD_last rfl _ _

/-! ## Decryption -/

/-- The loop of the decryptor; `outBytes` holds the blocks written so far. -/
def decryptLoop (D : Block 16 → Block 16) (m : IgeBuffers) : Nat → Nat → BlockPtr → BlockPtr →
    IgeBuffers × BlockPtr × BlockPtr
  | 0, _, ivp, iv2p => (m, ivp, iv2p)
  | len + 1, k, ivp, iv2p =>
    let tmp := xorData (m.load (.inBlock k)) (m.load iv2p)
    let out := xorData (D tmp) (m.load ivp)
    decryptLoop D { m with outBytes := m.outBytes ++ [out] } len (k + 1) (.inBlock k) (.outBlock k)

/-- `MyAesIgeDecrypt`. -/
def myAesIgeDecrypt {Key : Type} (aes : Aes Key) (key : Key) (inBytes : List (Block 16)) (iv : Block 32) :
    List (Block 16) × Block 32 :=
  let m : IgeBuffers := ⟨inBytes, [], ivCipher iv, ivPlain iv⟩
  let r := decryptLoop (aes.decryptBlock key) m inBytes.length 0 .aesIv .ccIv
  (r.1.outBytes, joinIv (r.1.load r.2.1) (r.1.load r.2.2))

theorem decryptLoop_eq (D : Block 16 → Block 16) (m : IgeBuffers) (ivp iv2p : BlockPtr)
    (pre ys : List (Block 16)) (hin : m.inBytes = pre ++ ys) (hout : m.outBytes.length = pre.length) :
    (decryptLoop D m ys.length pre.length ivp iv2p).1 =
      { m with outBytes := m.outBytes ++ igeDecrypt D (m.load ivp) (m.load iv2p) ys } := by
  induction ys generalizing m ivp iv2p pre with
  | nil => simp [decryptLoop, igeDecrypt]
  | cons y ys ih =>
    have hy : m.load (.inBlock pre.length) = y := IgeBuffers.load_inBlock hin
    set x := xorBlock (D (xorBlock y (m.load iv2p))) (m.load ivp) with hx
    set m' : IgeBuffers := { m with outBytes := m.outBytes ++ [x] }
    have hy' : m'.load (.inBlock pre.length) = y := IgeBuffers.load_inBlock hin
    have hx' : m'.load (.outBlock pre.length) = x := by
      rw [← hout]
      exact IgeBuffers.load_outBlock rfl
    have hrec := ih m' (.inBlock pre.length) (.outBlock pre.length) (pre ++ [y]) (by simp [m', hin])
      (by simp [m', hout])
    rw [List.length_append, List.length_singleton, hy', hx'] at hrec
    rw [List.length_cons, decryptLoop, hy, xorData_eq, xorData_eq, ← hx, hrec]
    simp [m', igeDecrypt, ← hx]

theorem decryptLoop_ptrs (D : Block 16 → Block 16) (m : IgeBuffers) (len k : Nat) (ivp iv2p : BlockPtr) :
    (decryptLoop D m (len + 1) k ivp iv2p).2 = (.inBlock (k + len), .outBlock (k + len)) := by
  induction len generalizing m k ivp iv2p with
  | zero => rfl
  | succ len ih =>
    rw [decryptLoop, ih, Nat.add_right_comm]
    rfl

theorem ivCipher_joinIv (y x : Block 16) : ivCipher (joinIv y x) = y := by
  apply Vector.ext
  intro i hi
  unfold ivCipher joinIv
  rw [Vector.getElem_ofFn]
  exact Vector.getElem_append_left hi

theorem ivPlain_joinIv (y x : Block 16) : ivPlain (joinIv y x) = x := by
  apply Vector.ext
  intro i hi
  unfold ivPlain joinIv
  rw [Vector.getElem_ofFn]
  have h : (y ++ x)[16 + i] = x[16 + i - 16] := Vector.getElem_append_right (by omega) (by omega)
  simp only [Nat.add_sub_cancel_left] at h
  exact h

theorem myAesIgeDecrypt_fst (ys : List (Block 16)) : (myAesIgeDecrypt aes key ys iv).1 =
      igeDecrypt (aes.decryptBlock key) (ivCipher iv) (ivPlain iv) ys := by
  have h := decryptLoop_eq (aes.decryptBlock key) ⟨ys, [], ivCipher iv, ivPlain iv⟩ .aesIv .ccIv [] ys rfl rfl
  unfold myAesIgeDecrypt
  dsimp only
  rw [List.length_nil] at h
  rw [h]
  rfl

theorem myAesIgeDecrypt_eq (ys : List (Block 16)) (h : ys ≠ []) : myAesIgeDecrypt aes key ys iv =
      (igeDecrypt (aes.decryptBlock key) (ivCipher iv) (ivPlain iv) ys, joinIv (ys.getLastD (ivCipher iv))
          ((igeDecrypt (aes.decryptBlock key) (ivCipher iv) (ivPlain iv) ys).getLastD (ivPlain iv))) := by
  obtain ⟨y, ys, rfl⟩ := List.exists_cons_of_ne_nil h
  set xs := igeDecrypt (aes.decryptBlock key) (ivCipher iv) (ivPlain iv) (y :: ys) with hxs
  have hlen : xs.length = ys.length + 1 := by simp [hxs]
  unfold myAesIgeDecrypt
  dsimp only
  set m : IgeBuffers := ⟨y :: ys, [], ivCipher iv, ivPlain iv⟩ with hm
  have hptrs := decryptLoop_ptrs (aes.decryptBlock key) m ys.length 0 .aesIv .ccIv
  have hloop : (decryptLoop (aes.decryptBlock key) m (ys.length + 1) 0 .aesIv .ccIv).1 = { m with outBytes := xs } :=
    decryptLoop_eq (aes.decryptBlock key) m .aesIv .ccIv [] (y :: ys) rfl rfl
  rw [List.length_cons, hptrs, hloop, Nat.zero_add]
  congr 2
  · exact getD_last rfl _ _
  · exact getD_last hlen _ _

/-- **AES-IGE via CBC.** The encryptor computes `y_i = E(x_i xor y_(i-1)) xor x_(i-1)`, the decryptor with the
same iv gives the message back, and both leave the last ciphertext block and the last plaintext block in the
iv. -/
theorem myAesIge_roundTrip {Key : Type} (aes : Aes Key) (key : Key) (iv : Block 32) (message : List (Block 16))
    (hmessage : message ≠ []) :
    let (cipher, iv') := myAesIgeEncrypt aes key message iv
    cipher = igeEncrypt (aes.encryptBlock key) (ivCipher iv) (ivPlain iv) message ∧
      myAesIgeDecrypt aes key cipher iv = (message, iv') ∧
      cipher.getLast? = some (ivCipher iv') ∧ message.getLast? = some (ivPlain iv') := by
  rw [myAesIgeEncrypt_eq aes key iv message hmessage]
  set cipher := igeEncrypt (aes.encryptBlock key) (ivCipher iv) (ivPlain iv) message with hcipher
  have hlen : cipher.length = message.length := by simp [hcipher]
  have hne : cipher ≠ [] := by
    intro hnil
    rw [hnil] at hlen
    exact hmessage (List.length_eq_zero_iff.mp hlen.symm)
  have hplain : igeDecrypt (aes.decryptBlock key) (ivCipher iv) (ivPlain iv) cipher = message :=
    igeDecrypt_igeEncrypt (aes.decrypt_encrypt key) (ivCipher iv) (ivPlain iv) message
  refine ⟨rfl, ?_, ?_, ?_⟩
  · rw [myAesIgeDecrypt_eq aes key iv cipher hne, hplain]
  · simp [ivCipher_joinIv, List.getLast?_eq_some_getLast, hne]
  · simp [ivPlain_joinIv, List.getLast?_eq_some_getLast, hmessage]

def xorAes : Aes (Block 16) where
  encryptBlock key b := xorBlock b key
  decryptBlock key b := xorBlock b key
  decrypt_encrypt key b := by simp

theorem myAesIge_roundTrip_two_blocks :
    let key := Vector.replicate 16 7
    let message := [Vector.replicate 16 1, Vector.replicate 16 2]
    let (cipher, iv') := myAesIgeEncrypt xorAes key message (Vector.replicate 32 9)
    cipher = [Vector.replicate 16 6, Vector.replicate 16 2] ∧
      myAesIgeDecrypt xorAes key cipher (Vector.replicate 32 9) = (message, iv') := by
  have h := myAesIge_roundTrip xorAes (Vector.replicate 16 7) (Vector.replicate 32 9)
    [Vector.replicate 16 1, Vector.replicate 16 2] (by simp)
  exact ⟨h.1.trans (by decide +kernel), h.2.1⟩

end TelegramClient.MtProto
