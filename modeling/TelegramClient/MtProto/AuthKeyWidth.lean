import TelegramClient.MtProto.AuthSafety

/-!
# The width of a negotiated key

The key that `MTDatacenterAuthMessageService` stores is the result of `MTExp` as it is.

* `receivedDhInnerData_stored` : what is stored past all checks;
* `bnToBin_eq_beBytes_iff` : when a number fills its width;
* `storedKey_fullWidth_iff` : **the stored key has its 256 bytes exactly where its first byte is not zero**.
-/

namespace TelegramClient.MtProto

/-! ## Minimal encodings -/

theorem lt_length_bnToBin {n k : Nat} (h : 256 ^ k ≤ n) : k < (bnToBin n).length := by
  have hlt := ofBe_lt (bnToBin n)
  rw [ofBe_bnToBin] at hlt
  exact (Nat.pow_lt_pow_iff_right (by omega)).mp (lt_of_le_of_lt h hlt)

theorem bnToBin_eq_beBytes_iff {n k : Nat} (h : n < 256 ^ (k + 1)) : bnToBin n = beBytes (k + 1) n ↔ 256 ^ k ≤ n := by
  constructor
  · intro heq
    by_contra hsmall
    have hlen := length_bnToBin_le (Nat.lt_of_not_le hsmall)
    rw [heq, length_beBytes] at hlen
    omega
  · intro hlarge
    have hlen : (bnToBin n).length = k + 1 := by
      have hlow := lt_length_bnToBin hlarge
      have hhigh := length_bnToBin_le h
      omega
    have hbs := beBytes_ofBe (bnToBin n)
    rw [ofBe_bnToBin, hlen] at hbs
    exact hbs.symm

/-! ## The stored key -/

section
variable {κ : Type} {crypto : AuthCrypto κ} {config : AuthConfig κ} {nonce serverNonce : Bytes} {g : BitVec 32}
  {dhPrime gA : Bytes} {s : AuthService κ}

theorem receivedDhInnerData_stored (hsafe : DhInnerDataSafe crypto nonce serverNonce g dhPrime gA s)
    (hlen : dhPrime.length = 256) (draws : Draws) (newNonce : Block 32) :
    ∃ s', receivedDhInnerData crypto config draws newNonce nonce serverNonce g dhPrime gA s = .ok s' ∧
      s'.stage = .keyVerification ∧
      s'.authKey = some (negotiatedKey crypto config (mtExp gA draws.b.toList dhPrime)) := by
  have hrange := hsafe.gA_range
  have hg := hsafe.g_range
  have hint : g.toInt = g.toNat := by
    rw [BitVec.toInt_eq_toNat_cond]
    split
    · rfl
    · next hlarge =>
      have hneg := BitVec.toInt_neg_iff (x := g)
      omega
  have hsafeG : mtCheckIsSafeG g.toNat = true := decide_eq_true (by omega)
  have hsafeGA : mtCheckIsSafeGAOrB gA dhPrime = true := by
    simp only [mtCheckIsSafeGAOrB, Bool.and_eq_true, decide_eq_true_eq]
    omega
  have hgB : (mtExp (leBits g).reverse draws.b.toList dhPrime).length < 2 ^ 23 :=
    lt_of_le_of_lt (length_mtExp_le _ _ (by omega)) (by omega)
  obtain ⟨data, hdata⟩ := clientData_ok crypto draws newNonce nonce serverNonce hgB
  unfold receivedDhInnerData
  rw [if_neg (not_not.mpr hsafe.nonce), if_neg (not_not.mpr hsafe.serverNonce),
    if_neg (by simp only [hsafeG, Bool.true_eq_false, or_false]; omega), if_neg (by simp [hsafeGA])]
  dsimp only
  rw [if_neg (by simp [hsafe.checkMod]), if_neg (by simp [hsafe.checkIsSafePrime]), hdata]
  exact ⟨_, rfl, rfl, rfl⟩

variable (crypto config nonce serverNonce g dhPrime gA s)

/-- **The key that is stored is the 256 bytes of `gA ^ b mod p` exactly where the first of them is not zero.** -/
theorem storedKey_fullWidth_iff (draws : Draws) (newNonce : Block 32)
    (hsafe : DhInnerDataSafe crypto nonce serverNonce g dhPrime gA s) (hlength : dhPrime.length = 256) :
    ∃ s' key, receivedDhInnerData crypto config draws newNonce nonce serverNonce g dhPrime gA s = .ok s' ∧
      s'.stage = .keyVerification ∧ s'.authKey = some key ∧
      (key.authKey = beBytes 256 (ofBe gA ^ ofBe draws.b.toList % ofBe dhPrime) ↔
        256 ^ 255 ≤ ofBe gA ^ ofBe draws.b.toList % ofBe dhPrime) := by
  obtain ⟨s', hs', hstage, hkey⟩ : ∃ s', receivedDhInnerData crypto config draws newNonce nonce serverNonce g dhPrime gA s =
      .ok s' ∧ s'.stage = .keyVerification ∧
        s'.authKey = some (negotiatedKey crypto config (mtExp gA draws.b.toList dhPrime)) :=
    receivedDhInnerData_stored hsafe hlength draws newNonce
  have hrange := hsafe.gA_range
  have hlt : ofBe gA ^ ofBe draws.b.toList % ofBe dhPrime < 256 ^ 256 := by
    have hp := ofBe_lt dhPrime
    rw [hlength] at hp
    exact (Nat.mod_lt _ (by omega)).trans hp
  exact ⟨s', _, hs', hstage, hkey, bnToBin_eq_beBytes_iff hlt⟩

end

theorem length_goodPrime0 : goodPrime0.length = 256 := by decide +kernel

/-- The service has asked for parameters, with nonces of zeros. -/
def awaitsDhParams : AuthService Unit :=
  { awaitsResPq with stage := .reqDH, serverNonce := some (List.replicate 16 0), newNonce := some (Vector.replicate 32 0) }

def oneDraws : Draws := { zeroDraws with b := (Vector.replicate 255 0).push 1 }

theorem awaitsDhParams_safe {gA : Bytes} (hgA : 1 < ofBe gA ∧ ofBe gA < ofBe goodPrime0 - 1) :
    DhInnerDataSafe zeroAuthCrypto (List.replicate 16 0) (List.replicate 16 0) 3 goodPrime0 gA awaitsDhParams :=
  ⟨by decide, by decide, by decide, hgA, by decide +kernel, by decide +kernel⟩

theorem storedKey_fullWidth_iff_large :
    let gA := goodPrime0.dropLast ++ [0x59]
    ∃ s' key, receivedDhInnerData zeroAuthCrypto oneKeyConfig oneDraws (Vector.replicate 32 0) (List.replicate 16 0)
        (List.replicate 16 0) 3 goodPrime0 gA awaitsDhParams = .ok s' ∧
      s'.stage = .keyVerification ∧ s'.authKey = some key ∧
      (key.authKey = beBytes 256 (ofBe gA ^ ofBe oneDraws.b.toList % ofBe goodPrime0) ↔
        256 ^ 255 ≤ ofBe gA ^ ofBe oneDraws.b.toList % ofBe goodPrime0) :=
  storedKey_fullWidth_iff zeroAuthCrypto oneKeyConfig (List.replicate 16 0) (List.replicate 16 0) 3 goodPrime0
    (goodPrime0.dropLast ++ [0x59]) awaitsDhParams oneDraws (Vector.replicate 32 0)
    (awaitsDhParams_safe (by decide +kernel)) length_goodPrime0

/-- With `gA = 2` and the exponent 1 the stored key is one byte long. -/
theorem storedKey_one_byte :
    DhInnerDataSafe zeroAuthCrypto (List.replicate 16 0) (List.replicate 16 0) 3 goodPrime0 [2] awaitsDhParams ∧
      goodPrime0.length = 256 ∧
      ∃ s' key, receivedDhInnerData zeroAuthCrypto oneKeyConfig oneDraws (Vector.replicate 32 0) (List.replicate 16 0)
          (List.replicate 16 0) 3 goodPrime0 [2] awaitsDhParams = .ok s' ∧
        s'.authKey = some key ∧ key.authKey.length = 1 ∧
        key.authKey ≠ beBytes 256 (ofBe [2] ^ ofBe oneDraws.b.toList % ofBe goodPrime0) := by
  have hsafe : DhInnerDataSafe zeroAuthCrypto (List.replicate 16 0) (List.replicate 16 0) 3 goodPrime0 [2] awaitsDhParams :=
    awaitsDhParams_safe (by decide +kernel)
  obtain ⟨s', hs', -, hkey⟩ : ∃ s', receivedDhInnerData zeroAuthCrypto oneKeyConfig oneDraws (Vector.replicate 32 0)
        (List.replicate 16 0) (List.replicate 16 0) 3 goodPrime0 [2] awaitsDhParams = .ok s' ∧
      s'.stage = .keyVerification ∧
        s'.authKey = some (negotiatedKey zeroAuthCrypto oneKeyConfig (mtExp [2] oneDraws.b.toList goodPrime0)) :=
    receivedDhInnerData_stored hsafe length_goodPrime0 oneDraws (Vector.replicate 32 0)
  have hvalue : ofBe [2] ^ ofBe oneDraws.b.toList % ofBe goodPrime0 = 2 := by decide +kernel
  have hlength : (mtExp [2] oneDraws.b.toList goodPrime0).length = 1 := by
    rw [mtExp, hvalue]
    simp [bnToBin]
  refine ⟨hsafe, length_goodPrime0, s', _, hs', hkey, hlength, fun heq => ?_⟩
  have hfull := congrArg List.length heq
  rw [length_beBytes] at hfull
  exact absurd (hlength.symm.trans hfull) (by decide)

end TelegramClient.MtProto
