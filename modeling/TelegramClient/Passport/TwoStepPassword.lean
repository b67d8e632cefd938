import Mathlib.Data.Int.ModEq
import TelegramClient.MtProto.AuthService

/-!
# Two-step passwords

`TGTwoStepUtils`, over the arithmetic of `MTEncryption.m` on byte strings.

* `xWithPassword`, `vWithX`, `srpPasswordWithX` : what the client computes, from byte strings of any width;
* `SrpServer` : what the server holds and computes, in numbers;
* `srpPasswordWithX_agrees` : the answer of the client is the one the server expects.
-/

namespace TelegramClient.Passport

open MtProto

/-- Arbitrary functions; `PBKDF2HMACSHA512:salt:` is nil where the derivation fails. -/
structure PasswordHashes where
  mtSha256 : Bytes → Block 32
  sha512 : Bytes → Block 64
  pbkdf2HmacSha512 : Bytes → Bytes → Option (Block 64)

inductive TGPasswordKdfAlgo
  | unknown
  | modPow (salt1 salt2 : Bytes) (g : BitVec 32) (p : Bytes)

/-- `inputCheckPasswordSRP`. -/
structure InputCheckPasswordSrp where
  srpId : BitVec 64
  A : Bytes
  M1 : Bytes
deriving DecidableEq

variable (hashes : PasswordHashes)

def PasswordHashes.sha256 (data : Bytes) : Bytes := (hashes.mtSha256 data).toList

/-! ## The client -/

def mtModSub (a b modulus : Bytes) : Bytes := bnToBin (((ofBe a : Int) - ofBe b) % ofBe modulus).toNat

def mtModMul (a b modulus : Bytes) : Bytes := bnToBin (ofBe a * ofBe b % ofBe modulus)

def mtMul (a b : Bytes) : Bytes := bnToBin (ofBe a * ofBe b)

def mtAdd (a b : Bytes) : Bytes := bnToBin (ofBe a + ofBe b)

def mtIsZero (value : Bytes) : Bool := ofBe value == 0

def mtCheckIsSafeB (b p : Bytes) : Bool := decide (0 < ofBe b) && decide (ofBe b < ofBe p)

/-- Nil data appends nothing. The password is its UTF-8 data. -/
def xWithPassword (password : Bytes) : TGPasswordKdfAlgo → Option Bytes
  | .unknown => none
  | .modPow salt1 salt2 _ _ =>
    let hash1 := hashes.sha256 (salt1 ++ password ++ salt1)
    let hash2 := hashes.sha256 (salt2 ++ hash1 ++ salt2)
    let key := (hashes.pbkdf2HmacSha512 hash2 salt1).elim [] Vector.toList
    some (hashes.sha256 (salt2 ++ key ++ salt2))

def vWithX (x : Option Bytes) : TGPasswordKdfAlgo → Option Bytes
  | .unknown => none
  | .modPow _ _ g p => x.map fun x => mtExp (beBytes 4 g.toNat) x p

def paddedData (data : Bytes) : Bytes :=
  if data.length < 256 then List.replicate (256 - data.length) 0 ++ data else data

/-- `a` is drawn at random; a nil `x` is empty data. -/
def srpPasswordWithX (keychain : Keychain) (a : Block 256) (x : Bytes) (srpId : BitVec 64) (B : Bytes) :
    TGPasswordKdfAlgo → Option InputCheckPasswordSrp
  | .unknown => none
  | .modPow salt1 salt2 g p =>
    if !mtCheckIsSafeG g.toNat then none
    else if !(mtCheckMod p g.toNat keychain).1 then none
    else
      let gData := beBytes 4 g.toNat
      let gBytes := paddedData gData
      if !mtCheckIsSafeB B p then none
      else
        let k := hashes.sha256 (p ++ gBytes)
        let ABytes := paddedData (mtExp gData a.toList p)
        let BBytes := paddedData B
        let u := hashes.sha256 (ABytes ++ BBytes)
        if mtIsZero u then none
        else
          let gx := mtExp gData x p
          let s1 := mtModSub B (mtModMul k gx p) p
          if !mtCheckIsSafeGAOrB s1 p then none
          else
            let S := mtExp s1 (mtAdd a.toList (mtMul u x)) p
            let K := hashes.sha256 (paddedData S)
            let pHgHXor := xorBytes (hashes.sha256 gBytes) (hashes.sha256 p)
            some ⟨srpId, ABytes, hashes.sha256
              (pHgHXor ++ hashes.sha256 salt1 ++ hashes.sha256 salt2 ++ ABytes ++ BBytes ++ K)⟩

/-! ## The server -/

/-- `v` is what it holds of the password, `b` its secret. -/
structure SrpServer where
  p : Nat
  g : Nat
  salt1 : Bytes
  salt2 : Bytes
  v : Nat
  b : Nat

namespace SrpServer

variable (server : SrpServer) (A : Nat)

def k : Nat := ofBe (hashes.sha256 (beBytes 256 server.p ++ beBytes 256 server.g))

def B : Nat := (server.k hashes * server.v + server.g ^ server.b) % server.p

def u : Nat := ofBe (hashes.sha256 (beBytes 256 A ++ beBytes 256 (server.B hashes)))

def S : Nat := (A * server.v ^ server.u hashes A) ^ server.b % server.p

def M1 : Bytes :=
  let pHgHXor := xorBytes (hashes.sha256 (beBytes 256 server.p)) (hashes.sha256 (beBytes 256 server.g))
  hashes.sha256 (pHgHXor ++ hashes.sha256 server.salt1 ++ hashes.sha256 server.salt2 ++ beBytes 256 A ++
    beBytes 256 (server.B hashes) ++ hashes.sha256 (beBytes 256 (server.S hashes A)))

/-- What is left of `B` without the password. -/
def s1 : Int := ((server.B hashes : Int) - server.k hashes * server.v) % server.p

end SrpServer

/-! ## Widths -/

theorem ofLe_append_zeros (bs : Bytes) (n : Nat) : ofLe (bs ++ List.replicate n 0) = ofLe bs := by
  induction bs with
  | nil =>
    induction n with
    | zero => rfl
    | succ n ih => simpa [ofLe, List.replicate_succ] using ih
  | cons b bs ih => rw [List.cons_append, ofLe, ofLe, ih]

theorem paddedData_eq {data : Bytes} (h : data.length ≤ 256) : paddedData data = beBytes 256 (ofBe data) := by
  have hlen : (paddedData data).length = 256 := by
    unfold paddedData
    split
    · simp
      omega
    · omega
  have hval : ofBe (paddedData data) = ofBe data := by
    unfold paddedData
    split
    · rw [ofBe, List.reverse_append, List.reverse_replicate, ofLe_append_zeros, ofBe]
    · rfl
  rw [← hval, ← hlen, beBytes_ofBe]

theorem paddedData_mtExp (base exp : Bytes) {p : Bytes} (hlen : p.length = 256) (hpos : 0 < ofBe p) :
    paddedData (mtExp base exp p) = beBytes 256 (ofBe base ^ ofBe exp % ofBe p) := by
  rw [paddedData_eq ((length_mtExp_le base exp hpos).trans_eq hlen), mtExp, ofBe_bnToBin]

/-! ## Agreement -/

/-- The client raises `g ^ b` to `a + u * x`, the server `g ^ a * v ^ u` to `b`. -/
theorem shared_secret (p g x a b u : Nat) :
    (g ^ b % p) ^ (a + u * x) % p = (g ^ a % p * (g ^ x % p) ^ u) ^ b % p := by
  have hclient : (g ^ b % p) ^ (a + u * x) ≡ (g ^ b) ^ (a + u * x) [MOD p] := (Nat.mod_modEq _ _).pow _
  have hserver : (g ^ a % p * (g ^ x % p) ^ u) ^ b ≡ (g ^ a * (g ^ x) ^ u) ^ b [MOD p] :=
    ((Nat.mod_modEq _ _).mul ((Nat.mod_modEq _ _).pow _)).pow _
  have hexponents : (g ^ b) ^ (a + u * x) = (g ^ a * (g ^ x) ^ u) ^ b := by ring
  exact hclient.trans (hexponents ▸ hserver.symm)

/-- `(B - k * v) mod p` is `g ^ b`, also where the subtraction wraps. -/
theorem s1_eq (server : SrpServer) : server.s1 hashes = ((server.g ^ server.b % server.p : Nat) : Int) := by
  have hB : ((server.B hashes : Nat) : Int) ≡ server.k hashes * server.v + (server.g : Int) ^ server.b
      [ZMOD server.p] := by
    unfold SrpServer.B
    push_cast
    exact Int.mod_modEq _ _
  have hsub := hB.sub_right ((server.k hashes : Int) * server.v)
  rw [add_sub_cancel_left] at hsub
  rw [SrpServer.s1, hsub.eq]
  push_cast
  rfl

/-- **SRP**: whatever the widths of the numbers, the client answers with `A` in 256 bytes and the server's `M1`, or not
at all, where `u` is zero or `B - k * v` is not strictly between 1 and `p - 1`. -/
theorem srpPasswordWithX_agrees (keychain : Keychain) (a : Block 256) (srpId : BitVec 64) (b : Nat) (g : BitVec 32)
    (server : SrpServer) {A : Nat} {salt1 salt2 p password x v B : Bytes}
    (hx : xWithPassword hashes password (.modPow salt1 salt2 g p) = some x)
    (hv : vWithX (xWithPassword hashes password (.modPow salt1 salt2 g p)) (.modPow salt1 salt2 g p) = some v)
    (hserver : server = ⟨ofBe p, g.toNat, salt1, salt2, ofBe v, b⟩) (hp : p.length = 256)
    (hg : mtCheckIsSafeG g.toNat = true) (hmod : (mtCheckMod p g.toNat keychain).1 = true)
    (hlength : B.length ≤ 256) (hpos : 0 < ofBe B) (hlt : ofBe B < ofBe p) (hB : ofBe B = server.B hashes)
    (hA : A = server.g ^ ofBe a.toList % server.p) :
    srpPasswordWithX hashes keychain a x srpId B (.modPow salt1 salt2 g p) =
      if server.u hashes A = 0 ∨ ¬(1 < server.s1 hashes ∧ server.s1 hashes < server.p - 1) then none
      else some ⟨srpId, beBytes 256 A, server.M1 hashes A⟩ := by
  have hp0 : 0 < ofBe p := hpos.trans hlt
  have hgData : ofBe (beBytes 4 g.toNat) = g.toNat := by
    rw [ofBe_beBytes]
    exact Nat.mod_eq_of_lt g.isLt
  have hgBytes : paddedData (beBytes 4 g.toNat) = beBytes 256 g.toNat := by
    rw [paddedData_eq (by simp), hgData]
  have hpBytes : p = beBytes 256 (ofBe p) := by rw [← hp, beBytes_ofBe]
  have hserverP : server.p = ofBe p := by rw [hserver]
  have hserverG : server.g = g.toNat := by rw [hserver]
  have hvx : ofBe (mtExp (beBytes 4 g.toNat) x p) = server.v := by
    rw [hx] at hv
    rw [hserver]
    exact congrArg ofBe (Option.some.inj hv)
  have hk : ofBe (hashes.sha256 (p ++ beBytes 256 g.toNat)) = server.k hashes := by
    rw [SrpServer.k, hserverP, hserverG, ← hpBytes]
  have hABytes : paddedData (mtExp (beBytes 4 g.toNat) a.toList p) = beBytes 256 A := by
    rw [paddedData_mtExp _ _ hp hp0, hgData, ← hserverP, ← hserverG, hA]
  have hBBytes : paddedData B = beBytes 256 (server.B hashes) := by rw [paddedData_eq hlength, hB]
  have hs1 : ofBe (mtModSub B (mtModMul (hashes.sha256 (p ++ beBytes 256 g.toNat))
      (mtExp (beBytes 4 g.toNat) x p) p) p) = server.g ^ server.b % server.p := by
    rw [mtModSub, mtModMul, ofBe_bnToBin, ofBe_bnToBin, hk, hvx, hB, ← hserverP]
    push_cast
    rw [Int.sub_emod_emod, ← SrpServer.s1, s1_eq, Int.toNat_natCast]
  have hS : paddedData (mtExp (mtModSub B (mtModMul (hashes.sha256 (p ++ beBytes 256 g.toNat))
      (mtExp (beBytes 4 g.toNat) x p) p) p) (mtAdd a.toList (mtMul (hashes.sha256
        (beBytes 256 A ++ beBytes 256 (server.B hashes))) x)) p) = beBytes 256 (server.S hashes A) := by
    have hvpow : server.v = server.g ^ ofBe x % server.p := by
      rw [← hvx, mtExp, ofBe_bnToBin, hgData, ← hserverP, ← hserverG]
    rw [paddedData_mtExp _ _ hp hp0, hs1, mtAdd, mtMul, ofBe_bnToBin, ofBe_bnToBin, ← hserverP, shared_secret,
      ← hvpow, ← hA]
    rfl
  have hsafe : mtCheckIsSafeGAOrB (mtModSub B (mtModMul (hashes.sha256 (p ++ beBytes 256 g.toNat))
      (mtExp (beBytes 4 g.toNat) x p) p) p) p = true ↔ 1 < server.s1 hashes ∧ server.s1 hashes < server.p - 1 := by
    rw [mtCheckIsSafeGAOrB, hs1, s1_eq, hserverP, Bool.and_eq_true, decide_eq_true_iff, decide_eq_true_iff,
      Nat.one_lt_cast]
  have hsafeB : mtCheckIsSafeB B p = true := by simp [mtCheckIsSafeB, hpos, hlt]
  have hu : mtIsZero (hashes.sha256 (beBytes 256 A ++ beBytes 256 (server.B hashes))) = true ↔
      server.u hashes A = 0 := beq_iff_eq
  simp only [srpPasswordWithX, hg, hmod, hsafeB, hgBytes, hABytes, hBBytes, hS, Bool.not_true, Bool.false_eq_true,
    if_false, hu]
  by_cases hzero : server.u hashes A = 0
  · rw [if_pos hzero, if_pos (Or.inl hzero)]
  · rw [if_neg hzero]
    by_cases hs : 1 < server.s1 hashes ∧ server.s1 hashes < server.p - 1
    · rw [hsafe.mpr hs, if_neg (by simp), if_neg (by tauto)]
      subst hserver
      have hxor : xorBytes (hashes.sha256 (beBytes 256 g.toNat)) (hashes.sha256 p) =
          xorBytes (hashes.sha256 p) (hashes.sha256 (beBytes 256 g.toNat)) :=
        List.zipWith_comm_of_comm fun _ _ => UInt8.xor_comm _ _
      simp only [SrpServer.M1, ← hpBytes, hxor]
    · rw [Bool.eq_false_iff.mpr (hsafe.not.mpr hs), if_pos (by simp), if_pos (Or.inr hs)]

/-- Every hash is 1, and no key is derived. -/
def oneHashes : PasswordHashes :=
  ⟨fun _ => (Vector.replicate 32 0).set 31 1, fun _ => Vector.replicate 64 0, fun _ _ => none⟩

/-- `x = 1`, `a = 0` and `b = 1` over the usual prime: `B` is the one byte 6. -/
theorem srpPasswordWithX_agrees_goodPrime :
    srpPasswordWithX oneHashes [] (Vector.replicate 256 0) (List.replicate 31 0 ++ [1]) 7 [6]
        (.modPow [] [] 3 goodPrime0) =
      some ⟨7, beBytes 256 1, (SrpServer.mk (ofBe goodPrime0) 3 [] [] 3 1).M1 oneHashes 1⟩ := by
  have hv : ofBe (mtExp (beBytes 4 3) (List.replicate 31 0 ++ [1]) goodPrime0) = 3 := by
    rw [mtExp, ofBe_bnToBin]
    decide +kernel
  have hx : xWithPassword oneHashes [] (.modPow [] [] 3 goodPrime0) = some (List.replicate 31 0 ++ [1]) := by
    decide +kernel
  have hserver : (⟨ofBe goodPrime0, 3, [], [], 3, 1⟩ : SrpServer) = ⟨ofBe goodPrime0, (3 : BitVec 32).toNat, [], [],
      ofBe (mtExp (beBytes 4 3) (List.replicate 31 0 ++ [1]) goodPrime0), 1⟩ := by
    rw [hv]
    rfl
  have h := srpPasswordWithX_agrees oneHashes [] (Vector.replicate 256 0) 7 1 3 _ hx (hx ▸ rfl) hserver
    (by decide +kernel) (by decide) (by decide +kernel) (by decide : [(6 : UInt8)].length ≤ 256) (by decide)
    (by decide +kernel) (by decide +kernel) (by decide +kernel : 1 = 3 ^ ofBe _ % ofBe goodPrime0)
  rw [h, if_neg]
  decide +kernel

end TelegramClient.Passport
