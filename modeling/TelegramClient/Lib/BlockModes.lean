import TelegramClient.Lib.Bytes

/-!
# Modes of operation of a block cipher

Over blocks of `n` bytes and arbitrary functions on them:

* `toBlocks`, `ofBlocks` : the whole blocks of a byte string, inverse to each other (`toBlocks_ofBlocks`,
  `ofBlocks_toBlocks`);
* `CtrAt` : what the state of a counter-mode stream is after `p` bytes.
-/

namespace TelegramClient

/-- A block of `n` bytes. -/
abbrev Block (n : Nat) := Vector UInt8 n

variable {n : Nat}

def xorBlock (a b : Block n) : Block n := Vector.zipWith (· ^^^ ·) a b

variable (E : Block n → Block n) (a b c y iv : Block n) (p : Nat)

theorem xorBlock_assoc : xorBlock (xorBlock a b) c = xorBlock a (xorBlock b c) := by
  ext i hi
  simp [xorBlock, UInt8.xor_assoc]

theorem xorBlock_comm : xorBlock a b = xorBlock b a := by
  ext i hi
  simp [xorBlock, UInt8.xor_comm]

@[simp] theorem xorBlock_xorBlock_self : xorBlock (xorBlock a b) b = a := by
  ext i hi
  simp only [xorBlock, Vector.getElem_zipWith, UInt8.xor_assoc, UInt8.xor_self, UInt8.xor_zero]

theorem xorBlock_right_comm : xorBlock (xorBlock a b) c = xorBlock (xorBlock a c) b := by
  rw [xorBlock_assoc, xorBlock_comm b c, ← xorBlock_assoc]

/-! ## Blocks of a byte string -/

def blockOf (n : Nat) (bs : Bytes) (h : bs.length = n) : Block n := ⟨bs.toArray, by simpa using h⟩

def toBlocks (n : Nat) (bs : Bytes) : List (Block n) :=
  (List.range (bs.length / n)).map fun i => Vector.ofFn fun j => bs.getD (n * i + j) 0

def ofBlocks (bs : List (Block n)) : Bytes := bs.flatMap Vector.toList

@[simp] theorem length_toBlocks (n : Nat) (bs : Bytes) : (toBlocks n bs).length = bs.length / n := by
  simp [toBlocks]

@[simp] theorem length_ofBlocks (bs : List (Block n)) : (ofBlocks bs).length = n * bs.length := by
  induction bs with
  | nil => simp [ofBlocks]
  | cons b bs ih =>
    unfold ofBlocks at ih ⊢
    rw [List.flatMap_cons, List.length_append, ih, Vector.length_toList, List.length_cons, Nat.mul_add, Nat.mul_one,
      Nat.add_comm]

theorem toBlocks_cons (hn : 0 < n) (b : Block n) (bs : Bytes) : toBlocks n (b.toList ++ bs) = b :: toBlocks n bs := by
  have hlen : (b.toList ++ bs).length / n = bs.length / n + 1 := by
    rw [List.length_append, Vector.length_toList, Nat.add_comm, Nat.add_div_right bs.length hn]
  unfold toBlocks
  rw [hlen, List.range_succ_eq_map, List.map_cons, List.map_map]
  congr 1
  · ext j hj
    simp [List.getElem?_append_left]
  · apply List.map_congr_left
    intro i _
    ext j hj
    have hidx : n * (i + 1) + j = b.toList.length + (n * i + j) := by
      rw [Vector.length_toList, Nat.mul_add, Nat.mul_one]
      omega
    simp only [Function.comp_apply, Vector.getElem_ofFn, Nat.succ_eq_add_one, hidx, List.getD_eq_getElem?_getD]
    rw [List.getElem?_append_right (Nat.le_add_right _ _), Nat.add_sub_cancel_left]

theorem toBlocks_ofBlocks (hn : 0 < n) (bs : List (Block n)) : toBlocks n (ofBlocks bs) = bs := by
  induction bs with
  | nil => simp [toBlocks, ofBlocks]
  | cons b bs ih =>
    have h := toBlocks_cons hn b (ofBlocks bs)
    rw [ih] at h
    exact h

variable (k : Nat) (x : Block n) (bs : Bytes)

theorem exists_ofBlocks (h : bs.length = n * k) : ∃ blocks : List (Block n), ofBlocks blocks = bs := by
  induction k generalizing bs with
  | zero =>
    rw [Nat.mul_zero] at h
    exact ⟨[], (List.length_eq_zero_iff.mp h).symm⟩
  | succ k ih =>
    rw [Nat.mul_add, Nat.mul_one] at h
    obtain ⟨blocks, hrest⟩ := ih (bs.drop n) (by rw [List.length_drop]; omega)
    refine ⟨blockOf n (bs.take n) (by rw [List.length_take]; omega) :: blocks, ?_⟩
    rw [ofBlocks, List.flatMap_cons, ← ofBlocks, hrest]
    exact List.take_append_drop n bs

theorem ofBlocks_toBlocks (hn : 0 < n) {bs : Bytes} (h : bs.length % n = 0) : ofBlocks (toBlocks n bs) = bs := by
  obtain ⟨k, hk⟩ := Nat.dvd_of_mod_eq_zero h
  obtain ⟨blocks, rfl⟩ := exists_ofBlocks k bs hk
  rw [toBlocks_ofBlocks hn]

theorem toBlocks_ne_nil {bs : Bytes} (hne : bs ≠ []) (h : bs.length % n = 0) : toBlocks n bs ≠ [] := by
  intro hnil
  have hdiv := congrArg List.length hnil
  rw [length_toBlocks, List.length_nil] at hdiv
  have hlen := Nat.div_add_mod bs.length n
  rw [hdiv, h, Nat.mul_zero] at hlen
  exact hne (List.length_eq_zero_iff.mp hlen.symm)

/-! ## Cipher block chaining and infinite garble extension -/

/-- `c_i = E(x_i xor c_(i-1))`. -/
def cbcEncrypt (E : Block n → Block n) : Block n → List (Block n) → List (Block n)
  | _, [] => []
  | c, x :: xs =>
    let c' := E (xorBlock x c)
    c' :: cbcEncrypt E c' xs

/-- `y_i = E(x_i xor y_(i-1)) xor x_(i-1)`, from `y_(-1)` and `x_(-1)`. -/
def igeEncrypt (E : Block n → Block n) : Block n → Block n → List (Block n) → List (Block n)
  | _, _, [] => []
  | y, x, x' :: xs =>
    let y' := xorBlock (E (xorBlock x' y)) x
    y' :: igeEncrypt E y' x' xs

/-- `x_i = D(y_i xor x_(i-1)) xor y_(i-1)`. -/
def igeDecrypt (D : Block n → Block n) : Block n → Block n → List (Block n) → List (Block n)
  | _, _, [] => []
  | y, x, y' :: ys =>
    let x' := xorBlock (D (xorBlock y' x)) y
    x' :: igeDecrypt D y' x' ys

variable (m : Nat) (xs : List (Block n))

@[simp] theorem length_igeEncrypt : (igeEncrypt E y x xs).length = xs.length := by
  induction xs generalizing y x with
  | nil => rfl
  | cons x' xs ih => simp [igeEncrypt, ih]

@[simp] theorem length_igeDecrypt (D : Block n → Block n) (y x : Block n) (ys : List (Block n)) :
    (igeDecrypt D y x ys).length = ys.length := by
  induction ys generalizing y x with
  | nil => rfl
  | cons y' ys ih => simp [igeDecrypt, ih]

theorem igeDecrypt_igeEncrypt {E D : Block n → Block n} (hD : ∀ b, D (E b) = b) (y x : Block n)
    (xs : List (Block n)) : igeDecrypt D y x (igeEncrypt E y x xs) = xs := by
  induction xs generalizing y x with
  | nil => rfl
  | cons x' xs ih => simp [igeEncrypt, igeDecrypt, hD, ih]

/-! ### IGE from CBC -/

/-- Each block xored with the block two before it, the first two of these being `a` and `b`. -/
def maskTwoBack : Block n → Block n → List (Block n) → List (Block n)
  | _, _, [] => []
  | a, b, x :: xs => xorBlock x a :: maskTwoBack b x xs

/-- The blocks `cs` xored with `b` and then with the blocks `xs`. -/
def maskOneBack : Block n → List (Block n) → List (Block n) → List (Block n)
  | b, x :: xs, c :: cs => xorBlock c b :: maskOneBack x xs cs
  | _, _, _ => []

theorem maskOneBack_cbcEncrypt :
    maskOneBack b xs (cbcEncrypt E c (maskTwoBack a b xs)) = igeEncrypt E (xorBlock c a) b xs := by
  induction xs generalizing a b c with
  | nil => rfl
  | cons x xs ih =>
    have hinput : xorBlock (xorBlock x a) c = xorBlock x (xorBlock c a) := by
      rw [xorBlock_right_comm, xorBlock_assoc]
    simp only [maskTwoBack, cbcEncrypt, maskOneBack, igeEncrypt]
    rw [ih, hinput]

/-- **IGE from one CBC pass**: the first block enters unmasked. -/
theorem igeEncrypt_eq_cbcEncrypt :
    maskOneBack b (x :: xs) (cbcEncrypt E y (x :: maskTwoBack b x xs)) = igeEncrypt E y b (x :: xs) := by
  simp only [cbcEncrypt, maskOneBack, igeEncrypt]
  rw [maskOneBack_cbcEncrypt]

@[simp] theorem length_cbcEncrypt : (cbcEncrypt E c xs).length = xs.length := by
  induction xs generalizing c with
  | nil => rfl
  | cons x xs ih => simp [cbcEncrypt, ih]

@[simp] theorem length_maskTwoBack : (maskTwoBack a b xs).length = xs.length := by
  induction xs generalizing a b with
  | nil => rfl
  | cons x xs ih => simp [maskTwoBack, ih]

/-! ## Counter mode -/

theorem leBytes_congr {a b : Nat} (h : a % 256 ^ n = b % 256 ^ n) : leBytes n a = leBytes n b := by
  have key (v : Nat) : leBytes n v = leBytes n (v % 256 ^ n) := by
    have hv := leBytes_ofLe (leBytes n v)
    rw [length_leBytes, ofLe_leBytes] at hv
    exact hv.symm
  rw [key a, key b, h]

/-- The counter `k` steps after `iv`: a big-endian number of `n` bytes that wraps around. -/
def counterBlock (iv : Block n) (k : Nat) : Block n :=
  ⟨(beBytes n (ofBe iv.toList + k)).toArray, by simp⟩

theorem toList_counterBlock : (counterBlock iv k).toList = beBytes n (ofBe iv.toList + k) := by
  simp [counterBlock, Vector.toList]

theorem counterBlock_zero : counterBlock iv 0 = iv := by
  apply Vector.toList_inj.mp
  have h := beBytes_ofBe iv.toList
  rw [Vector.length_toList] at h
  rw [toList_counterBlock, Nat.add_zero, h]

theorem counterBlock_add (j k : Nat) : counterBlock (counterBlock iv j) k = counterBlock iv (j + k) := by
  apply Vector.toList_inj.mp
  rw [toList_counterBlock, toList_counterBlock, toList_counterBlock, ofBe_beBytes, beBytes, beBytes]
  congr 1
  apply leBytes_congr
  rw [Nat.mod_add_mod, Nat.add_assoc]

/-- Byte `p` of `E(iv), E(iv+1), ...`. -/
def keystreamByte (E : Block n → Block n) (iv : Block n) (p : Nat) : UInt8 :=
  (E (counterBlock iv (p / n))).toList.getD (p % n) 0

/-- The bytes `bs` xored with the keystream from byte `p` on. -/
def xorKeystream (E : Block n → Block n) (iv : Block n) : Nat → Bytes → Bytes
  | _, [] => []
  | p, b :: bs => (b ^^^ keystreamByte E iv p) :: xorKeystream E iv (p + 1) bs

theorem xorKeystream_append (as bs : Bytes) :
    xorKeystream E iv p (as ++ bs) = xorKeystream E iv p as ++ xorKeystream E iv (p + as.length) bs := by
  induction as generalizing p with
  | nil => rfl
  | cons a as ih =>
    rw [List.cons_append, xorKeystream, xorKeystream, ih, List.cons_append, List.length_cons,
      show p + (as.length + 1) = p + 1 + as.length by omega]

@[simp] theorem length_xorKeystream : (xorKeystream E iv p bs).length = bs.length := by
  induction bs generalizing p with
  | nil => rfl
  | cons b bs ih => rw [xorKeystream, List.length_cons, ih, List.length_cons]

theorem xorKeystream_xorKeystream : xorKeystream E iv p (xorKeystream E iv p bs) = bs := by
  induction bs generalizing p with
  | nil => rfl
  | cons b bs ih => rw [xorKeystream, xorKeystream, ih, UInt8.xor_assoc, UInt8.xor_self, UInt8.xor_zero]

theorem take_xorKeystream (bs : Bytes) : (xorKeystream E iv p bs).take m = xorKeystream E iv p (bs.take m) := by
  induction bs generalizing p m with
  | nil => rw [List.take_nil, xorKeystream, List.take_nil]
  | cons b bs ih =>
    cases m with
    | zero => rfl
    | succ m => rw [xorKeystream, List.take_succ_cons, ih, List.take_succ_cons, xorKeystream]

theorem drop_xorKeystream (bs : Bytes) : (xorKeystream E iv p bs).drop m = xorKeystream E iv (p + m) (bs.drop m) := by
  induction bs generalizing p m with
  | nil => rw [List.drop_nil, xorKeystream, xorKeystream, List.drop_nil]
  | cons b bs ih =>
    cases m with
    | zero => rfl
    | succ m => rw [xorKeystream, List.drop_succ_cons, ih, List.drop_succ_cons, Nat.add_right_comm]; rfl

/-! Byte `q` of block `k` stands at position `n * k + q`. -/

variable {q : Nat}

theorem div_block (hq : q < n) : (n * k + q) / n = k := by
  rw [Nat.mul_add_div (by omega), Nat.div_eq_of_lt hq, Nat.add_zero]

theorem mod_block (hq : q < n) : (n * k + q) % n = q := by
  rw [Nat.mul_add_mod, Nat.mod_eq_of_lt hq]

theorem ceil_block (h0 : 0 < q) (hq : q ≤ n) : (n * k + q + n - 1) / n = k + 1 := by
  rw [show n * k + q + n - 1 = n * (k + 1) + (q - 1) by rw [Nat.mul_add]; omega, div_block (k + 1) (by omega)]

theorem exists_block (hn : 0 < n) (p : Nat) : ∃ k q, q < n ∧ p = n * k + q :=
  ⟨p / n, p % n, Nat.mod_lt p hn, (Nat.div_add_mod p n).symm⟩

theorem xorKeystream_block (q : Nat) (bs : Bytes) (h : q + bs.length ≤ n) :
    xorKeystream E iv (n * k + q) bs = xorBytes bs ((E (counterBlock iv k)).toList.drop q) := by
  induction bs generalizing q with
  | nil => rfl
  | cons b bs ih =>
    rw [List.length_cons] at h
    have hq : q < (E (counterBlock iv k)).toList.length := by rw [Vector.length_toList]; omega
    rw [xorKeystream, keystreamByte, div_block k (by omega), mod_block k (by omega), Nat.add_assoc,
      ih (q + 1) (by omega), List.drop_eq_getElem_cons hq, List.getD_eq_getElem?_getD, List.getElem?_eq_getElem hq]
    rfl

/-- The state of a stream after `p` bytes: the next counter and, within a block, the keystream block and how much of it
is used. -/
structure CtrAt (E : Block n → Block n) (iv : Block n) (p : Nat) (ivec ecount : Block n) (num : Nat) : Prop where
  num_eq : num = p % n
  ivec_eq : ivec = counterBlock iv ((p + n - 1) / n)
  ecount_eq : p % n ≠ 0 → ecount = E (counterBlock iv (p / n))

section CtrAt
variable {E : Block n → Block n} {iv ivec ecount : Block n} {p num : Nat}

theorem CtrAt.init (E : Block n → Block n) (iv ecount : Block n) (hn : 0 < n) : CtrAt E iv 0 iv ecount 0 := by
  refine ⟨by simp, ?_, fun h => absurd (Nat.zero_mod n) h⟩
  rw [Nat.zero_add, Nat.div_eq_of_lt (by omega), counterBlock_zero]

section
variable (h : CtrAt E iv p ivec ecount num)
include h

theorem CtrAt.num_lt (hn : 0 < n) : num < n := by
  rw [h.num_eq]
  exact Nat.mod_lt p hn

theorem CtrAt.keystreamByte_eq (hp : num ≠ 0) : keystreamByte E iv p = ecount.toList.getD num 0 := by
  have hnum := h.num_eq
  rw [h.ecount_eq (by omega), hnum]
  rfl

theorem CtrAt.succ (hn : 0 < n) (hp : num ≠ 0) : CtrAt E iv (p + 1) ivec ecount ((num + 1) % n) := by
  obtain ⟨k, q, hq, rfl⟩ := exists_block hn p
  obtain ⟨hnum, hivec, hecount⟩ := h
  rw [mod_block k hq] at hnum hecount
  subst hnum
  rw [ceil_block k (by omega) (by omega)] at hivec
  rw [div_block k hq] at hecount
  refine ⟨?_, ?_, ?_⟩
  · rw [Nat.add_assoc, Nat.mul_add_mod]
  · rw [hivec, Nat.add_assoc (n * k), ceil_block k (by omega) (by omega)]
  · intro hmod
    rw [Nat.add_assoc, Nat.mul_add_mod] at hmod
    have hne : num + 1 ≠ n := by
      rintro rfl
      exact hmod (Nat.mod_self _)
    rw [Nat.add_assoc, div_block k (by omega), hecount hp]

end

theorem CtrAt.ivec_of_num_zero {k : Nat} (h : CtrAt E iv (n * k) ivec ecount num) (hn : 0 < n) :
    ivec = counterBlock iv k := by
  rw [h.ivec_eq, Nat.add_sub_assoc hn, div_block k (by omega)]

section
variable (h : CtrAt E iv p ivec ecount num)
include h

theorem CtrAt.exists_block (hp : num = 0) : ∃ k, p = n * k := by
  have hmod : p % n = 0 := by rw [← h.num_eq, hp]
  exact ⟨p / n, (Nat.mul_div_cancel' (Nat.dvd_of_mod_eq_zero hmod)).symm⟩

theorem CtrAt.keystreamByte_of_num_zero (hn : 0 < n) (hp : num = 0) :
    keystreamByte E iv p = (E ivec).toList.getD 0 0 := by
  obtain ⟨k, rfl⟩ := h.exists_block hp
  rw [h.ivec_of_num_zero hn, keystreamByte, Nat.mul_div_cancel_left k hn, Nat.mul_mod_right]

theorem CtrAt.xorKeystream_block (hn : 0 < n) (hp : num = 0) {bs : Bytes} (hlen : bs.length ≤ n) :
    xorKeystream E iv p bs = xorBytes bs (E ivec).toList := by
  obtain ⟨k, rfl⟩ := h.exists_block hp
  have hblock := TelegramClient.xorKeystream_block E iv k 0 bs (by omega)
  rwa [Nat.add_zero, List.drop_zero, ← h.ivec_of_num_zero hn] at hblock

theorem CtrAt.advance (hn : 0 < n) (hp : num = 0) {l : Nat} (h0 : 0 < l) (hl : l ≤ n) :
    CtrAt E iv (p + l) (counterBlock ivec 1) (E ivec) (l % n) := by
  obtain ⟨k, rfl⟩ := h.exists_block hp
  have hivec := h.ivec_of_num_zero hn
  refine ⟨?_, ?_, ?_⟩
  · rw [Nat.mul_add_mod]
  · rw [hivec, counterBlock_add, ceil_block k h0 hl]
  · intro hmod
    rw [Nat.mul_add_mod] at hmod
    have hne : l ≠ n := by
      rintro rfl
      exact hmod (Nat.mod_self l)
    rw [hivec, div_block k (by omega)]

end

end CtrAt

end TelegramClient
