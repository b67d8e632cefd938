import TelegramClient.MtProto.AuthService
import Mathlib.Data.List.Induction

/-!
# The key exchange under arbitrary messages

* `authReceivedMessage_handled_iff` : **exactly which messages of the exchange end the program**;
* `AttemptInv`, `attemptInv_runAuth` : what holds in each stage of a run;
* `runAuth_reportsSound` : **where a key that is reported comes from**.
-/

namespace TelegramClient.MtProto
open BitVec (ofNat)

section
variable {κ β : Type} (crypto : AuthCrypto κ) (config : AuthConfig κ)

/-! ## What the buffers take -/

theorem appendTLBytes_ok (buffer : Bytes) {bytes : Bytes} (h : 0 ≤ (ofNat 32 bytes.length).toInt) :
    ∃ out, appendTLBytes buffer bytes = .ok out := by
  have happend : ∀ b : Bytes, ∃ out, appendBytes b bytes (ofNat 32 bytes.length).toInt = .ok out := by
    intro b
    rw [appendBytes, if_neg (by omega)]
    exact ⟨_, rfl⟩
  unfold appendTLBytes
  dsimp only
  split_ifs
  · exact ⟨_, rfl⟩
  · obtain ⟨out, hout⟩ := happend (buffer ++ [254] ++ (leBits (ofNat 32 bytes.length)).take 3)
    rw [hout]
    exact ⟨_, rfl⟩
  · obtain ⟨out, hout⟩ := happend (buffer ++ (leBits (ofNat 32 bytes.length)).take 1)
    rw [hout]
    exact ⟨_, rfl⟩

theorem appendTLBytes_short (buffer : Bytes) {bytes : Bytes} (h : bytes.length < 2 ^ 23) :
    ∃ out, appendTLBytes buffer bytes = .ok out :=
  appendTLBytes_ok buffer (by rw [toInt_ofNat_of_lt (by omega)]; omega)

theorem length_factorBytes_le {p k : Nat} (h : p < 256 ^ (k + 1)) : (factorBytes p).length ≤ k + 1 := by
  induction k generalizing p with
  | zero =>
    rw [factorBytes, if_neg (by omega)]
    simp
  | succ k ih =>
    have hdiv : p / 256 < 256 ^ (k + 1) := Nat.div_lt_of_lt_mul (by rw [pow_succ 256 (k + 1)] at h; omega)
    have := ih hdiv
    rw [factorBytes]
    split
    · simp only [List.length_append, List.length_singleton]
      omega
    · simp

theorem length_factorBytes_toNat (p : BitVec 64) : (factorBytes p.toNat).length ≤ 8 :=
  length_factorBytes_le (k := 7) (by have := p.isLt; omega)

/-- Of a `pq` with a negative `int` for its length nothing is read. -/
theorem pqValue_of_nonpos {pqBytes : Bytes} (h : (ofNat 32 pqBytes.length).toInt ≤ 0) : pqValue pqBytes = 0 := by
  have htake : (ofNat 32 pqBytes.length).toInt.toNat = 0 := by omega
  simp [pqValue, htake]

theorem pqInnerData_ok {pqBytes : Bytes} (h : 2 ≤ (pqValue pqBytes).toNat) (p q : BitVec 64)
    (nonce serverNonce : Bytes) (newNonce : Block 32) :
    ∃ data, pqInnerData config pqBytes (factorBytes p.toNat) (factorBytes q.toNat) nonce serverNonce newNonce =
      .ok data := by
  have hlen : 0 ≤ (ofNat 32 pqBytes.length).toInt := by
    by_contra hneg
    rw [pqValue_of_nonpos (by omega)] at h
    simp at h
  have hp := length_factorBytes_toNat p
  have hq := length_factorBytes_toNat q
  obtain ⟨b1, h1⟩ := appendTLBytes_ok (leBits (if config.tempAuth then 0x3c6a84d4#32 else 0x83c95aec#32)) hlen
  obtain ⟨b2, h2⟩ := appendTLBytes_short b1 (show (factorBytes p.toNat).length < 2 ^ 23 by omega)
  obtain ⟨b3, h3⟩ := appendTLBytes_short b2 (show (factorBytes q.toNat).length < 2 ^ 23 by omega)
  simp only [pqInnerData, bind, Except.bind, h1, h2, h3]
  exact ⟨_, rfl⟩

/-- A parsed `dhPrime` is a TL byte string. -/
def ShortPrime : InternalMessage → Prop
  | .serverDhInnerData _ _ _ dhPrime _ _ => dhPrime.length < 2 ^ 23
  | _ => True

theorem yields_of_mem_internalParsers : ∀ entry ∈ internalParsers, Yields entry.2 ShortPrime := by
  have hinner : Yields readServerDhInnerData ShortPrime :=
    .bind fun _ => .bind fun _ => .bind fun _ => yields_readTLBytes.bind_of fun _ hlen =>
      .bind fun _ => .bind fun _ => .pure hlen
  simp only [internalParsers, List.forall_mem_cons, List.not_mem_nil, false_implies, implies_true, and_true]
  -- every other case ends in a message of another class, or fails
  refine ⟨?_, ?_, ?_, hinner, ?_, ?_, ?_, ?_, ?_, ?_, ?_, ?_, ?_, ?_, ?_, ?_, ?_, ?_, ?_, ?_, ?_, ?_, ?_, ?_, ?_, ?_,
    ?_, ?_, ?_, ?_⟩
  all_goals
    repeat' first
      | refine .bind fun _ => ?_
      | refine .ite ?_ ?_
      | exact .pure trivial
      | exact .fail

variable {data : Bytes}

theorem parseMessage_shortPrime {m : InternalMessage} (h : parseMessage data = .ok m) : ShortPrime m := by
  obtain ⟨c, hrun⟩ := parseMessage_ok h
  unfold internalParser at hrun
  split at hrun
  next parser hlook =>
      obtain ⟨before, after, htable, -⟩ := List.lookup_eq_some_iff.mp hlook
      have hm : (signatureOf data, parser) ∈ internalParsers := by
        rw [htable]
        simp
      exact yields_of_mem_internalParsers _ hm _ _ _ hrun
  next => cases hrun

variable (draws : Draws) (newNonce : Block 32) (nonce : Bytes) (s : AuthService κ) (serverNonce : Bytes)

theorem clientData_ok {gB : Bytes} (h : gB.length < 2 ^ 23) :
    ∃ data, clientData crypto draws newNonce nonce serverNonce gB = .ok data := by
  obtain ⟨b, hb⟩ := appendTLBytes_short (leBits 0x6643b654#32 ++ nonce ++ serverNonce ++ leBits 0#64) h
  simp only [clientData, bind, Except.bind, hb]
  exact ⟨_, rfl⟩

/-! ## The answer of the server -/

theorem answerHashLoop_ok_iff (answerHash : Bytes) (n : Nat) (answerData : Bytes) :
    (∃ r, answerHashLoop crypto answerHash n answerData = .ok r) ↔
      n ≤ answerData.length ∨ ∃ k ≤ answerData.length, (crypto.mtSha1 (answerData.take k)).toList = answerHash := by
  induction n generalizing answerData with
  | zero => simp [answerHashLoop]
  | succ n ih =>
    rw [answerHashLoop]
    split
    next hmatch =>
        refine ⟨fun _ => .inr ⟨answerData.length, le_refl _, ?_⟩, fun _ => ⟨_, rfl⟩⟩
        rwa [List.take_length]
    next hmatch =>
        split
        next hempty =>
            have hnil : answerData = [] := List.length_eq_zero_iff.mp hempty
            subst hnil
            refine ⟨?_, ?_⟩
            · rintro ⟨r, h⟩
              cases h
            · rintro (h | ⟨k, -, hk⟩)
              · simp at h
              rw [List.take_nil] at hk
              exact absurd hk hmatch
        next hne =>
            have htrimmed : ∀ k, k ≤ answerData.length - 1 → answerData.dropLast.take k = answerData.take k := by
              intro k hk
              rw [List.dropLast_eq_take, List.take_take, Nat.min_eq_left hk]
            rw [ih, List.length_dropLast]
            refine or_congr (by omega) ⟨?_, ?_⟩
            · rintro ⟨k, hk, hhash⟩
              exact ⟨k, by omega, by rwa [← htrimmed k hk]⟩
            · rintro ⟨k, hk, hhash⟩
              -- the whole data was compared in this round
              have hlt : k ≠ answerData.length := by
                rintro rfl
                rw [List.take_length] at hhash
                exact hmatch hhash
              exact ⟨k, by omega, by rwa [htrimmed k (by omega)]⟩

theorem answerHashLoop_some {answerHash : Bytes} {n : Nat} {answerData : Bytes}
    (h : answerHashLoop crypto answerHash n answerData = .ok (some data)) :
    (crypto.mtSha1 data).toList = answerHash ∧ data <+: answerData := by
  induction n generalizing answerData with
  | zero => cases h
  | succ n ih =>
    rw [answerHashLoop] at h
    split at h
    next hmatch =>
        cases h
        exact ⟨hmatch, List.prefix_refl _⟩
    next =>
        split at h
        next => cases h
        next =>
            obtain ⟨hhash, htrimmed⟩ := ih h
            exact ⟨hhash, htrimmed.trans (List.dropLast_prefix _)⟩

theorem verifiedAnswer_some {answerWithHash : Bytes} (h : verifiedAnswer crypto answerWithHash = .ok (some data)) :
    (crypto.mtSha1 data).toList = answerWithHash.take 20 ∧ data <+: answerWithHash.drop 20 := by
  unfold verifiedAnswer at h
  split at h
  · cases h
  · exact answerHashLoop_some crypto h

theorem length_answerWithHash (encryptedResponse : Bytes) :
    (answerWithHash crypto newNonce serverNonce encryptedResponse).length = encryptedResponse.length := by
  unfold answerWithHash mtAesDecrypt
  rw [myAesIgeDecrypt_fst, List.length_append, length_ofBlocks, length_igeDecrypt, length_toBlocks,
    List.length_replicate]
  omega

/-! ## Crashes -/

def MTDatacenterAuthStage.next : MTDatacenterAuthStage → MTDatacenterAuthStage
  | .waitingForPublicKeys => .pq
  | .pq => .reqDH
  | .reqDH => .keyVerification
  | .keyVerification => .done
  | .done => .done

/-- The message was ignored, the exchange was reset, or it is in the next stage. -/
def Handled (s : AuthService κ) (outcome : Except Crash (AuthService κ)) : Prop :=
  ∃ s', outcome = .ok s' ∧
    (s' = s ∨ (∃ keychain, s' = reset config { s with keychain := keychain }) ∨ s'.stage = s.stage.next)

variable {config} in
theorem Handled.ignored : Handled config s (.ok s) := ⟨s, rfl, .inl rfl⟩

variable {config} in
theorem Handled.reset (keychain : Keychain) :
    Handled config s (.ok (MtProto.reset config { s with keychain := keychain })) :=
  ⟨_, rfl, .inr (.inl ⟨keychain, rfl⟩)⟩

variable {config} in
theorem Handled.advanced {s s' : AuthService κ} (h : s'.stage = s.stage.next) : Handled config s (.ok s') :=
  ⟨s', rfl, .inr (.inr h)⟩

/-- A message of the exchange that is compared with the nonces and found equal. -/
def PassesNonces (s : AuthService κ) : InternalMessage ⊕ β → Prop
  | .inl (.resPq nonce _ _ _) => s.stage = .pq ∧ s.nonce = some nonce
  | .inl (.serverDhParamsOk nonce serverNonce _) =>
    s.stage = .reqDH ∧ s.nonce = some nonce ∧ s.serverNonce = some serverNonce
  | _ => False

/-- The encrypted answer has a hash, bytes for 16 rounds or a prefix with that hash, and the prefix that is found can be
parsed. -/
structure AnswerReadable (newNonce : Block 32) (serverNonce encryptedResponse : Bytes) : Prop where
  hash : 20 ≤ encryptedResponse.length
  rounds : 36 ≤ encryptedResponse.length ∨
    ∃ k ≤ encryptedResponse.length - 20,
      (crypto.mtSha1 (slice (answerWithHash crypto newNonce serverNonce encryptedResponse) 20 k)).toList =
        slice (answerWithHash crypto newNonce serverNonce encryptedResponse) 0 20
  parses : ∀ answerData,
    verifiedAnswer crypto (answerWithHash crypto newNonce serverNonce encryptedResponse) = .ok (some answerData) →
      parseMessage answerData ≠ .error .raised

def Digestible (s : AuthService κ) : InternalMessage ⊕ β → Prop
  | .inl (.resPq _ _ pq fingerprints) =>
    choosePublicKey config fingerprints (s.publicKeys.getD []) = none ∨ 2 ≤ (pqValue pq).toNat
  | .inl (.serverDhParamsOk _ serverNonce encryptedResponse) =>
    ∀ newNonce, s.newNonce = some newNonce → AnswerReadable crypto newNonce serverNonce encryptedResponse
  | _ => True

theorem receivedResPq_handled_iff (pq : Bytes) (fingerprints : List (BitVec 64)) (s : AuthService κ)
    (hstage : s.stage = .pq) (hnonce : s.nonce = some nonce) :
    Handled config s (receivedResPq crypto config draws nonce serverNonce pq fingerprints s) ↔
      choosePublicKey config fingerprints (s.publicKeys.getD []) = none ∨ 2 ≤ (pqValue pq).toNat := by
  unfold receivedResPq
  rw [if_neg (by simp [hnonce])]
  cases hkey : choosePublicKey config fingerprints (s.publicKeys.getD []) with
  | none =>
    simp only [true_or, iff_true]
    exact Handled.reset s s.keychain
  | some publicKey =>
    simp only [reduceCtorEq, false_or]
    rw [← mtFactorize_ok_iff draws.lrand48]
    cases hfact : mtFactorize draws.lrand48 (pqValue pq) with
    | error e =>
      refine ⟨?_, ?_⟩
      · rintro ⟨s', h, -⟩
        cases h
      · rintro ⟨r, h⟩
        cases h
    | ok r =>
      refine ⟨fun _ => ⟨r, rfl⟩, fun _ => ?_⟩
      cases r with
      | none => exact Handled.reset s s.keychain
      | some pq' =>
        obtain ⟨p, q⟩ := pq'
        obtain ⟨data, hdata⟩ := pqInnerData_ok config ((mtFactorize_ok_iff draws.lrand48 _).mp ⟨_, hfact⟩) p q
          nonce serverNonce draws.newNonce
        simp only [bind, Except.bind, hdata, orCrash]
        exact Handled.advanced (by rw [hstage]; rfl)

theorem mtCheckIsSafeG_eq {g : BitVec 32} (h : ¬(g.toInt < 0 ∨ mtCheckIsSafeG g.toNat = false)) :
    2 ≤ g.toInt ∧ g.toInt ≤ 7 := by
  simp only [mtCheckIsSafeG, decide_eq_false_iff_not, not_or, not_not] at h
  have hint : g.toInt = g.toNat := BitVec.toInt_eq_toNat_of_lt (by omega)
  omega

theorem mtCheckIsSafeGAOrB_range {gA dhPrime : Bytes} (h : mtCheckIsSafeGAOrB gA dhPrime = true) :
    1 < ofBe gA ∧ ofBe gA < ofBe dhPrime - 1 := by
  simp only [mtCheckIsSafeGAOrB, Bool.and_eq_true, decide_eq_true_eq] at h
  omega

structure DhInnerDataSafe (nonce serverNonce : Bytes) (g : BitVec 32) (dhPrime gA : Bytes) (s : AuthService κ) :
    Prop where
  nonce : s.nonce = some nonce
  serverNonce : s.serverNonce = some serverNonce
  g_range : 2 ≤ g.toInt ∧ g.toInt ≤ 7
  gA_range : 1 < ofBe gA ∧ ofBe gA < ofBe dhPrime - 1
  checkMod : (mtCheckMod dhPrime g.toNat s.keychain).1 = true
  checkIsSafePrime : (mtCheckIsSafePrime crypto dhPrime (mtCheckMod dhPrime g.toNat s.keychain).2).1 = true

theorem receivedDhInnerData_cases (g : BitVec 32) (dhPrime gA : Bytes) (s : AuthService κ) :
    (∃ keychain, receivedDhInnerData crypto config draws newNonce nonce serverNonce g dhPrime gA s =
        .ok (reset config { s with keychain := keychain })) ∨
      DhInnerDataSafe crypto nonce serverNonce g dhPrime gA s ∧
        ∃ keychain, receivedDhInnerData crypto config draws newNonce nonce serverNonce g dhPrime gA s = (do
          let data ← orCrash (clientData crypto draws newNonce nonce serverNonce
            (mtExp (leBits g).reverse draws.b.toList dhPrime))
          return enterStage .keyVerification { s with
            keychain := keychain
            authKey := some (negotiatedKey crypto config (mtExp gA draws.b.toList dhPrime))
            encryptedClientData := data }) := by
  unfold receivedDhInnerData
  split
  next => exact .inl ⟨s.keychain, rfl⟩
  next hnonce =>
    split
    next => exact .inl ⟨s.keychain, rfl⟩
    next hserverNonce =>
      split
      next => exact .inl ⟨s.keychain, rfl⟩
      next hg =>
        split
        next => exact .inl ⟨s.keychain, rfl⟩
        next hgA =>
          dsimp only
          split
          next => exact .inl ⟨_, rfl⟩
          next hmod =>
            split
            next => exact .inl ⟨_, rfl⟩
            next hprime =>
              exact .inr ⟨⟨not_not.mp hnonce, not_not.mp hserverNonce, mtCheckIsSafeG_eq hg,
                mtCheckIsSafeGAOrB_range (eq_true_of_ne_false hgA), eq_true_of_ne_false hmod,
                eq_true_of_ne_false hprime⟩, _, rfl⟩

theorem receivedDhInnerData_handled (draws : Draws) (newNonce : Block 32) (nonce serverNonce : Bytes) (g : BitVec 32)
    {dhPrime : Bytes} (gA : Bytes) (s : AuthService κ) (hstage : s.stage = .reqDH) (hshort : dhPrime.length < 2 ^ 23) :
    Handled config s (receivedDhInnerData crypto config draws newNonce nonce serverNonce g dhPrime gA s) := by
  rcases receivedDhInnerData_cases crypto config draws newNonce nonce serverNonce g dhPrime gA s with
    ⟨keychain, heq⟩ | ⟨hsafe, keychain, heq⟩
  · rw [heq]
    exact Handled.reset s keychain
  · have hpos : 0 < ofBe dhPrime := by
      have hrange := hsafe.gA_range
      omega
    have hgB : (mtExp (leBits g).reverse draws.b.toList dhPrime).length < 2 ^ 23 :=
      lt_of_le_of_lt (length_mtExp_le _ _ hpos) hshort
    obtain ⟨data, hdata⟩ := clientData_ok crypto draws newNonce nonce serverNonce hgB
    rw [heq, hdata]
    exact Handled.advanced (by rw [hstage]; rfl)

theorem verifiedAnswer_ok_iff (answerWithHash : Bytes) : (∃ r, verifiedAnswer crypto answerWithHash = .ok r) ↔
      20 ≤ answerWithHash.length ∧ (36 ≤ answerWithHash.length ∨ ∃ k ≤ answerWithHash.length - 20,
        (crypto.mtSha1 (slice answerWithHash 20 k)).toList = slice answerWithHash 0 20) := by
  unfold verifiedAnswer
  split
  next hshort =>
      refine ⟨?_, fun h => absurd h.1 (by omega)⟩
      rintro ⟨r, h⟩
      cases h
  next hlen =>
      rw [answerHashLoop_ok_iff, List.length_drop]
      refine ⟨fun h => ⟨by omega, h.imp (fun h => by omega) id⟩, fun h => h.2.imp (fun h => by omega) id⟩

theorem receivedServerDhParamsOk_handled_iff (draws : Draws) (nonce serverNonce encryptedResponse : Bytes)
    (newNonce : Block 32) (s : AuthService κ) (hstage : s.stage = .reqDH) (hnonce : s.nonce = some nonce)
    (hserverNonce : s.serverNonce = some serverNonce) (hnewNonce : s.newNonce = some newNonce) :
    Handled config s (receivedServerDhParamsOk crypto config draws nonce serverNonce encryptedResponse s) ↔
      AnswerReadable crypto newNonce serverNonce encryptedResponse := by
  have hok := verifiedAnswer_ok_iff crypto (answerWithHash crypto newNonce serverNonce encryptedResponse)
  rw [length_answerWithHash] at hok
  unfold receivedServerDhParamsOk
  rw [if_neg (by simp [hnonce, hserverNonce]), hnewNonce]
  dsimp only
  cases hanswer : verifiedAnswer crypto (answerWithHash crypto newNonce serverNonce encryptedResponse) with
  | error e =>
    refine ⟨?_, fun h => ?_⟩
    · rintro ⟨s', h, -⟩
      cases h
    · obtain ⟨r, hr⟩ := hok.mpr ⟨h.hash, h.rounds⟩
      rw [hanswer] at hr
      cases hr
  | ok r =>
    obtain ⟨hhash, hrounds⟩ := hok.mp ⟨r, hanswer⟩
    simp only [bind, Except.bind]
    cases r with
    | none =>
      refine ⟨fun _ => ⟨hhash, hrounds, ?_⟩, fun _ => Handled.reset s s.keychain⟩
      intro answerData h
      rw [hanswer] at h
      cases h
    | some answerData =>
      -- what is left is whether the answer can be parsed
      have hiff : AnswerReadable crypto newNonce serverNonce encryptedResponse ↔
          parseMessage answerData ≠ .error .raised := by
        refine ⟨fun h => h.parses answerData hanswer, fun h => ⟨hhash, hrounds, ?_⟩⟩
        intro answerData' h'
        rw [hanswer] at h'
        cases h'
        exact h
      rw [hiff]
      dsimp only
      cases hparse : parseMessage answerData with
      | error e =>
        cases e with
        | failed =>
          simp only [ne_eq, Except.error.injEq, reduceCtorEq, not_false_eq_true, iff_true]
          exact Handled.reset s s.keychain
        | raised =>
          simp only [ne_eq, not_true_eq_false, iff_false]
          rintro ⟨s', h, -⟩
          cases h
      | ok m =>
        simp only [ne_eq, reduceCtorEq, not_false_eq_true, iff_true]
        have hshort := parseMessage_shortPrime hparse
        cases m with
        | serverDhInnerData innerNonce innerServerNonce g dhPrime gA serverTime =>
          exact receivedDhInnerData_handled crypto config draws newNonce innerNonce innerServerNonce g gA s
            hstage hshort
        | _ => exact Handled.reset s s.keychain

/-! ## Attempts -/

/-- What the fields of an attempt are, with the ghosts. -/
structure Attempt where
  stage : MTDatacenterAuthStage
  nonce : Option Bytes
  serverNonce : Option Bytes
  newNonce : Option (Block 32)
  authKey : Option NegotiatedKey
  resets : Nat
  reports : List (NegotiatedKey × BitVec 64)

def AuthService.attempt (s : AuthService κ) : Attempt :=
  ⟨s.stage, s.nonce, s.serverNonce, s.newNonce, s.authKey, s.resets, s.reports⟩

def DrewNonce (nonce : Bytes) (s : AuthService κ) (e : AuthEvent κ β) : Prop :=
  ∃ draws, e = .messageTransaction draws ∧ draws.nonce.toList = nonce ∧ s.stage = .pq ∧ s.nonce = none

/-- A `resPQ` with the nonce was accepted, and with it the server's nonce; the new nonce was drawn. -/
def AcceptedResPq (nonce serverNonce : Bytes) (newNonce : Block 32) (s : AuthService κ) (e : AuthEvent κ β) : Prop :=
  ∃ draws message pq fingerprints, e = .receivedMessage draws message ∧
    message.body = .inl (.resPq nonce serverNonce pq fingerprints) ∧ draws.newNonce = newNonce ∧
    s.stage = .pq ∧ s.nonce = some nonce

/-- The parameters of the exchange as the server sent them, encrypted for the new nonce, with the hash of the answer and
with both nonces twice. They pass every check, and the key is `gA ^ b mod p` for the `b` that was drawn. -/
structure DhParams (nonce serverNonce : Bytes) (newNonce : Block 32) (key : NegotiatedKey) (s : AuthService κ)
    (e : AuthEvent κ β) where
  draws : Draws
  message : MTIncomingMessage β
  encryptedResponse : Bytes
  answerData : Bytes
  g : BitVec 32
  dhPrime : Bytes
  gA : Bytes
  serverTime : BitVec 32
  event : e = .receivedMessage draws message
  outer : message.body = .inl (.serverDhParamsOk nonce serverNonce encryptedResponse)
  state : s.stage = .reqDH ∧ s.nonce = some nonce ∧ s.serverNonce = some serverNonce ∧ s.newNonce = some newNonce
  hash : (crypto.mtSha1 answerData).toList =
    (answerWithHash crypto newNonce serverNonce encryptedResponse).take 20
  decrypted : answerData <+: (answerWithHash crypto newNonce serverNonce encryptedResponse).drop 20
  inner : parseMessage answerData = .ok (.serverDhInnerData nonce serverNonce g dhPrime gA serverTime)
  g_range : 2 ≤ g.toInt ∧ g.toInt ≤ 7
  gA_range : 1 < ofBe gA ∧ ofBe gA < ofBe dhPrime - 1
  checkMod : (mtCheckMod dhPrime g.toNat s.keychain).1 = true
  checkIsSafePrime :
    (mtCheckIsSafePrime crypto dhPrime (mtCheckMod dhPrime g.toNat s.keychain).2).1 = true
  authKey : key.authKey = bnToBin (ofBe gA ^ ofBe draws.b.toList % ofBe dhPrime)

/-- A `dh_gen_ok` with both nonces and the hash of the new nonce and the key. -/
def ConfirmedKey (nonce serverNonce : Bytes) (newNonce : Block 32) (key : NegotiatedKey) (timestamp : BitVec 64)
    (e : AuthEvent κ β) : Prop :=
  ∃ draws message, e = .receivedMessage draws message ∧ message.messageId = timestamp ∧
    message.body = .inl (.setClientDhParamsResponseOk nonce serverNonce
      (newNonceHash crypto newNonce.toList 1 key.authKey))

/-- **What an event does to an attempt.** -/
inductive AuthChange (s : AuthService κ) (e : AuthEvent κ β) : Attempt → Prop where
  | same : AuthChange s e s.attempt
  | wasReset (stage : MTDatacenterAuthStage) (h : stage = .waitingForPublicKeys ∨ stage = .pq) :
      AuthChange s e ⟨stage, none, none, none, none, s.resets + 1, s.reports⟩
  | keysCame (h : s.stage = .waitingForPublicKeys) : AuthChange s e { s.attempt with stage := .pq }
  | drewNonce (nonce : Bytes) (h : DrewNonce nonce s e) : AuthChange s e { s.attempt with nonce := some nonce }
  | acceptedResPq (nonce serverNonce : Bytes) (newNonce : Block 32) (h : AcceptedResPq nonce serverNonce newNonce s e) :
      AuthChange s e
        { s.attempt with stage := .reqDH, serverNonce := some serverNonce, newNonce := some newNonce }
  | acceptedDhParams (nonce serverNonce : Bytes) (newNonce : Block 32) (key : NegotiatedKey)
      (h : Nonempty (DhParams crypto nonce serverNonce newNonce key s e)) :
      AuthChange s e { s.attempt with stage := .keyVerification, authKey := some key }
  | reported (nonce serverNonce : Bytes) (newNonce : Block 32) (key : NegotiatedKey) (timestamp : BitVec 64)
      (hstate : s.stage = .keyVerification ∧ s.nonce = some nonce ∧ s.serverNonce = some serverNonce ∧
        s.newNonce = some newNonce ∧ s.authKey = some key)
      (h : ConfirmedKey crypto nonce serverNonce newNonce key timestamp e) :
      AuthChange s e { s.attempt with stage := .done, reports := s.reports ++ [(key, timestamp)] }

theorem AuthChange.of_reset (e : AuthEvent κ β) (keychain : Keychain) :
    AuthChange crypto s e (reset config { s with keychain := keychain }).attempt := by
  have hstage : ∀ waits : Bool, (if waits then .waitingForPublicKeys else .pq : MTDatacenterAuthStage) =
      .waitingForPublicKeys ∨ (if waits then .waitingForPublicKeys else .pq : MTDatacenterAuthStage) = .pq := by
    decide
  apply AuthChange.wasReset
  exact hstage _

theorem publicKeysUpdated_change (datacenterId : Int) (publicKeys : Option (List (PublicKey κ))) (s : AuthService κ)
    (e : AuthEvent κ β) : AuthChange crypto s e (publicKeysUpdated config datacenterId publicKeys s).attempt := by
  unfold publicKeysUpdated
  split
  next h =>
      dsimp only
      split
      · exact .keysCame h.1
      · exact .same
  next => exact .same

theorem authMessageTransaction_change {draws : Draws} {s s' : AuthService κ} {data : Option Bytes}
    (h : authMessageTransaction draws s = .ok (data, s')) :
    AuthChange crypto s (.messageTransaction draws : AuthEvent κ β) s'.attempt := by
  unfold authMessageTransaction at h
  split at h
  · cases h
    exact .same
  · split at h
    · cases h
      exact .same
    next hstage =>
        cases h
        cases hnonce : s.nonce with
        | none => exact .drewNonce draws.nonce.toList ⟨draws, rfl, rfl, hstage, hnonce⟩
        | some nonce =>
          have hsame : ({ s with nonce := some nonce } : AuthService κ).attempt = s.attempt := by
            rw [← hnonce]
          rw [Option.getD_some, hsame]
          exact .same
    · obtain ⟨d, -, hd⟩ := except_bind_ok h
      cases hd
      exact .same
    · obtain ⟨d, -, hd⟩ := except_bind_ok h
      cases hd
      exact .same
    · cases h
      exact .same

theorem transactionCompleted_attempt (stage : MTDatacenterAuthStage) (transactionId : Option Nat)
    (preparedMessage : Option (BitVec 64 × BitVec 32)) (s : AuthService κ) :
    (transactionCompleted stage transactionId preparedMessage s).attempt = s.attempt := by
  unfold transactionCompleted
  split
  · split
    · rfl
    · rfl
  · rfl

theorem receivedResPq_change {draws : Draws} {message : MTIncomingMessage β} {nonce serverNonce pq : Bytes}
    {fingerprints : List (BitVec 64)} {s s' : AuthService κ} (hstage : s.stage = .pq)
    (hbody : message.body = .inl (.resPq nonce serverNonce pq fingerprints))
    (h : receivedResPq crypto config draws nonce serverNonce pq fingerprints s = .ok s') :
    AuthChange crypto s (.receivedMessage draws message) s'.attempt := by
  unfold receivedResPq at h
  split at h
  · cases h
    exact .same
  next hnonce =>
      split at h
      · cases h
        exact .of_reset crypto config s _ s.keychain
      · obtain ⟨r, -, h⟩ := except_bind_ok h
        cases r with
        | none =>
          cases h
          exact .of_reset crypto config s _ s.keychain
        | some pq' =>
          obtain ⟨data, -, h⟩ := except_bind_ok h
          cases h
          exact .acceptedResPq nonce serverNonce draws.newNonce
            ⟨draws, message, pq, fingerprints, rfl, hbody, rfl, hstage, not_not.mp hnonce⟩

theorem receivedServerDhParamsOk_change {draws : Draws} {message : MTIncomingMessage β}
    {nonce serverNonce encryptedResponse : Bytes} {s s' : AuthService κ} (hstage : s.stage = .reqDH)
    (hbody : message.body = .inl (.serverDhParamsOk nonce serverNonce encryptedResponse))
    (h : receivedServerDhParamsOk crypto config draws nonce serverNonce encryptedResponse s = .ok s') :
    AuthChange crypto s (.receivedMessage draws message) s'.attempt := by
  unfold receivedServerDhParamsOk at h
  split at h
  · cases h
    exact .same
  next hnonces =>
    simp only [not_or, not_not] at hnonces
    split at h
    · cases h
    next newNonce hnewNonce =>
      obtain ⟨r, hanswer, h⟩ := except_bind_ok h
      cases r with
      | none =>
        cases h
        exact .of_reset crypto config s _ s.keychain
      | some answerData =>
        dsimp only at h
        split at h
        next innerNonce innerServerNonce g dhPrime gA serverTime hparse =>
            obtain ⟨hhash, htrimmed⟩ := verifiedAnswer_some crypto hanswer
            have hcases :=
              receivedDhInnerData_cases crypto config draws newNonce innerNonce innerServerNonce g dhPrime gA s
            rcases hcases with ⟨keychain, heq⟩ | ⟨hsafe, keychain, heq⟩
            · cases heq.symm.trans h
              exact .of_reset crypto config s _ keychain
            obtain ⟨data, -, hdata⟩ := except_bind_ok (heq.symm.trans h)
            cases hdata
            obtain rfl : nonce = innerNonce := Option.some.inj (hnonces.1.symm.trans hsafe.nonce)
            obtain rfl : serverNonce = innerServerNonce := Option.some.inj (hnonces.2.symm.trans hsafe.serverNonce)
            exact .acceptedDhParams nonce serverNonce newNonce _ ⟨{
              draws := draws
              message := message
              encryptedResponse := encryptedResponse
              answerData := answerData
              g := g
              dhPrime := dhPrime
              gA := gA
              serverTime := serverTime
              event := rfl
              outer := hbody
              state := ⟨hstage, hsafe.nonce, hsafe.serverNonce, hnewNonce⟩
              hash := hhash
              decrypted := htrimmed
              inner := hparse
              g_range := hsafe.g_range
              gA_range := hsafe.gA_range
              checkMod := hsafe.checkMod
              checkIsSafePrime := hsafe.checkIsSafePrime
              authKey := rfl }⟩
        · cases h
          exact .of_reset crypto config s _ s.keychain
        · cases h
          exact .of_reset crypto config s _ s.keychain
        · cases h

theorem receivedDhGenOk_change {draws : Draws} {message : MTIncomingMessage β}
    {nonce serverNonce nextNonceHash1 : Bytes} {s s' : AuthService κ} (hstage : s.stage = .keyVerification)
    (hbody : message.body = .inl (.setClientDhParamsResponseOk nonce serverNonce nextNonceHash1))
    (h : receivedDhGenOk crypto config message.messageId nonce serverNonce nextNonceHash1 s = .ok s') :
    AuthChange crypto s (.receivedMessage draws message) s'.attempt := by
  unfold receivedDhGenOk at h
  split at h
  · cases h
    exact .same
  next hnonces =>
    simp only [not_or, not_not] at hnonces
    split at h
    next newNonce key hnewNonce hkey =>
        split at h
        · cases h
          exact .of_reset crypto config s _ s.keychain
        next hhash =>
            cases h
            have hhash' := not_not.mp hhash
            subst hhash'
            exact .reported nonce serverNonce newNonce key message.messageId
              ⟨hstage, hnonces.1, hnonces.2, hnewNonce, hkey⟩ ⟨draws, message, rfl, rfl, hbody⟩
    · cases h

theorem unlessNonces_change (nonce serverNonce : Bytes) (s : AuthService κ) (e : AuthEvent κ β) :
    AuthChange crypto s e
      (if s.nonce ≠ some nonce ∨ s.serverNonce ≠ some serverNonce then s else reset config s).attempt := by
  split
  · exact .same
  · exact .of_reset crypto config s e s.keychain

theorem authReceivedMessage_change {draws : Draws} {message : MTIncomingMessage β} {s s' : AuthService κ}
    (h : authReceivedMessage crypto config draws message s = .ok s') :
    AuthChange crypto s (.receivedMessage draws message) s'.attempt := by
  unfold authReceivedMessage at h
  split at h
  next hstage hbody => exact receivedResPq_change crypto config hstage hbody h
  next hstage hbody => exact receivedServerDhParamsOk_change crypto config hstage hbody h
  · cases h
    exact unlessNonces_change crypto config _ _ s _
  next hstage hbody => exact receivedDhGenOk_change crypto config hstage hbody h
  · cases h
    exact unlessNonces_change crypto config _ _ s _
  · cases h
    exact unlessNonces_change crypto config _ _ s _
  · cases h
    exact .same

/-- **Every event is one of these changes.** -/
theorem stepAuth_change {s s' : AuthService κ} {e : AuthEvent κ β} (h : stepAuth crypto config s e = .ok s') :
    AuthChange crypto s e s'.attempt := by
  cases e with
  | didAddService | protocolErrorReceived errorCode =>
    cases h
    exact .of_reset crypto config s _ s.keychain
  | publicKeysUpdated datacenterId publicKeys =>
    cases h
    exact publicKeysUpdated_change crypto config datacenterId publicKeys s _
  | messageTransaction draws =>
    change (authMessageTransaction draws s).map Prod.snd = .ok s' at h
    cases htrans : authMessageTransaction draws s with
    | error e =>
      rw [htrans] at h
      cases h
    | ok r =>
      rw [htrans] at h
      cases h
      exact authMessageTransaction_change crypto htrans
  | transactionCompleted stage transactionId preparedMessage =>
    cases h
    rw [transactionCompleted_attempt]
    exact .same
  | receivedMessage draws message => exact authReceivedMessage_change crypto config h
  | transactionsMayHaveFailed transactionIds =>
    cases h
    split
    · exact .same
    · exact .same
  | allTransactionsMayHaveFailed | context publicKeys keychain =>
    cases h
    exact .same

/-! ## Runs -/

theorem runAuth_concat (events : List (AuthEvent κ β)) (e : AuthEvent κ β) :
    runAuth crypto config (events ++ [e]) = (runAuth crypto config events).bind fun s => stepAuth crypto config s e := by
  unfold runAuth
  rw [List.foldlM_append]
  simp only [List.foldlM_cons, List.foldlM_nil, bind_pure]
  rfl

/-- In the run, since the last reset, an event came for which `P` holds in the state before it. -/
def InAttempt (events : List (AuthEvent κ β)) (s : AuthService κ) (P : AuthService κ → AuthEvent κ β → Prop) : Prop :=
  ∃ before e after s₀, events = before ++ e :: after ∧ runAuth crypto config before = .ok s₀ ∧
    s₀.resets = s.resets ∧ P s₀ e

section
variable {crypto config}
variable {events : List (AuthEvent κ β)} {s s' : AuthService κ} {e : AuthEvent κ β}
  {P : AuthService κ → AuthEvent κ β → Prop}

theorem InAttempt.concat (h : InAttempt crypto config events s P) (e : AuthEvent κ β) (hresets : s'.resets = s.resets) :
    InAttempt crypto config (events ++ [e]) s' P := by
  obtain ⟨before, e₀, after, s₀, hevents, hrun, hs₀, hP⟩ := h
  refine ⟨before, e₀, after ++ [e], s₀, ?_, hrun, hs₀.trans hresets.symm, hP⟩
  rw [hevents, List.append_assoc, List.cons_append]

theorem InAttempt.last (hrun : runAuth crypto config events = .ok s) (hP : P s e) (hresets : s'.resets = s.resets) :
    InAttempt crypto config (events ++ [e]) s' P :=
  ⟨events, e, [], s, rfl, hrun, hresets.symm, hP⟩

end

/-- What holds after a run: every field of the attempt has its event since the last reset. -/
structure AttemptInv (events : List (AuthEvent κ β)) (s : AuthService κ) : Prop where
  nonce : ∀ nonce, s.nonce = some nonce → InAttempt crypto config events s (DrewNonce nonce)
  nonces : s.stage = .reqDH ∨ s.stage = .keyVerification →
    ∃ nonce serverNonce newNonce, s.nonce = some nonce ∧ s.serverNonce = some serverNonce ∧
      s.newNonce = some newNonce ∧ InAttempt crypto config events s (AcceptedResPq nonce serverNonce newNonce)
  authKey : s.stage = .keyVerification →
    ∃ nonce serverNonce newNonce key, s.nonce = some nonce ∧ s.serverNonce = some serverNonce ∧
      s.newNonce = some newNonce ∧ s.authKey = some key ∧
      InAttempt crypto config events s fun s₀ e => Nonempty (DhParams crypto nonce serverNonce newNonce key s₀ e)

theorem attemptInv_init : AttemptInv crypto config ([] : List (AuthEvent κ β)) initAuth where
  nonce := by simp [initAuth]
  nonces := by simp [initAuth]
  authKey := by simp [initAuth]

section
variable {crypto config}
variable {events : List (AuthEvent κ β)} {s s' : AuthService κ} {e : AuthEvent κ β}

theorem AttemptInv.concat_same (h : AttemptInv crypto config events s) (e : AuthEvent κ β)
    (hstage : s'.stage = .reqDH ∨ s'.stage = .keyVerification → s'.stage = s.stage)
    (hnonce : s'.nonce = s.nonce) (hserverNonce : s'.serverNonce = s.serverNonce) (hnewNonce : s'.newNonce = s.newNonce)
    (hauthKey : s'.authKey = s.authKey) (hresets : s'.resets = s.resets) :
    AttemptInv crypto config (events ++ [e]) s' where
  nonce nonce hsome := (h.nonce nonce (hnonce.symm.trans hsome)).concat e hresets
  nonces hs := by
    have hs' := hstage hs
    rw [hs'] at hs
    obtain ⟨nonce, serverNonce, newNonce, h1, h2, h3, hin⟩ := h.nonces hs
    exact ⟨nonce, serverNonce, newNonce, hnonce.trans h1, hserverNonce.trans h2, hnewNonce.trans h3, hin.concat e hresets⟩
  authKey hs := by
    have hs' := hstage (.inr hs)
    rw [hs'] at hs
    obtain ⟨nonce, serverNonce, newNonce, key, h1, h2, h3, h4, hin⟩ := h.authKey hs
    exact ⟨nonce, serverNonce, newNonce, key, hnonce.trans h1, hserverNonce.trans h2, hnewNonce.trans h3,
      hauthKey.trans h4, hin.concat e hresets⟩

/-- **One event keeps the invariant.** -/
theorem attemptInv_stepAuth (h : AttemptInv crypto config events s) (hrun : runAuth crypto config events = .ok s)
    (hstep : stepAuth crypto config s e = .ok s') : AttemptInv crypto config (events ++ [e]) s' := by
  have hchange := stepAuth_change crypto config hstep
  generalize hattempt : s'.attempt = a at hchange
  have hstage : s'.stage = a.stage := congrArg Attempt.stage hattempt
  have hnonce : s'.nonce = a.nonce := congrArg Attempt.nonce hattempt
  have hserverNonce : s'.serverNonce = a.serverNonce := congrArg Attempt.serverNonce hattempt
  have hnewNonce : s'.newNonce = a.newNonce := congrArg Attempt.newNonce hattempt
  have hauthKey : s'.authKey = a.authKey := congrArg Attempt.authKey hattempt
  have hresets : s'.resets = a.resets := congrArg Attempt.resets hattempt
  cases hchange with
  | same => exact h.concat_same e (fun _ => hstage) hnonce hserverNonce hnewNonce hauthKey hresets
  | wasReset stage hnew =>
    -- nothing is left of the attempt
    have hout : ¬(s'.stage = .reqDH ∨ s'.stage = .keyVerification) := by
      rw [hstage]
      rcases hnew with rfl | rfl <;> simp
    refine ⟨?_, fun hs => absurd hs hout, fun hs => absurd (.inr hs) hout⟩
    intro nonce hsome
    rw [hnonce] at hsome
    cases hsome
  | keysCame hwait | reported nonce serverNonce newNonce key timestamp hstate hconfirmed =>
    refine h.concat_same e ?_ hnonce hserverNonce hnewNonce hauthKey hresets
    rw [hstage]
    simp
  | drewNonce nonce hdrew =>
    have hpq : s.stage = .pq := hdrew.choose_spec.2.2.1
    have hs' : s'.stage = .pq := hstage.trans hpq
    refine ⟨?_, ?_, ?_⟩
    · intro nonce' hsome
      rw [hnonce] at hsome
      cases hsome
      exact .last hrun hdrew hresets
    · intro hs
      rw [hs'] at hs
      simp at hs
    · intro hs
      rw [hs'] at hs
      cases hs
  | acceptedResPq nonce serverNonce newNonce haccepted =>
    have hnonce₀ : s.nonce = some nonce := haccepted.choose_spec.choose_spec.choose_spec.choose_spec.2.2.2.2
    refine ⟨?_, ?_, ?_⟩
    · intro nonce' hsome
      exact (h.nonce nonce' (hnonce.symm.trans hsome)).concat e hresets
    · intro _
      exact ⟨nonce, serverNonce, newNonce, hnonce.trans hnonce₀, hserverNonce, hnewNonce,
        .last hrun haccepted hresets⟩
    · intro hs
      rw [hstage] at hs
      cases hs
  | acceptedDhParams nonce serverNonce newNonce key haccepted =>
    obtain ⟨params⟩ := haccepted
    obtain ⟨hs₀, hnonce₀, hserverNonce₀, hnewNonce₀⟩ := params.state
    refine ⟨?_, ?_, ?_⟩
    · intro nonce' hsome
      exact (h.nonce nonce' (hnonce.symm.trans hsome)).concat e hresets
    · intro _
      obtain ⟨n, sn, nn, h1, h2, h3, hin⟩ := h.nonces (.inl hs₀)
      exact ⟨n, sn, nn, hnonce.trans h1, hserverNonce.trans h2, hnewNonce.trans h3, hin.concat e hresets⟩
    · intro _
      exact ⟨nonce, serverNonce, newNonce, key, hnonce.trans hnonce₀, hserverNonce.trans hserverNonce₀,
        hnewNonce.trans hnewNonce₀, hauthKey, .last hrun ⟨params⟩ hresets⟩

end

/-- **The invariant holds after every run.** -/
theorem attemptInv_runAuth (events : List (AuthEvent κ β)) {s : AuthService κ}
    (hrun : runAuth crypto config events = .ok s) : AttemptInv crypto config events s := by
  induction events using List.reverseRecOn generalizing s with
  | nil =>
    cases hrun
    exact attemptInv_init crypto config
  | append_singleton events e ih =>
    rw [runAuth_concat] at hrun
    obtain ⟨s₀, hs₀, hstep⟩ := except_bind_ok hrun
    exact attemptInv_stepAuth (ih hs₀) hs₀ hstep

/-- The key that is reported is the one of the current attempt: its nonce was drawn since the last reset, the server's
nonce came with an accepted `resPQ`, the key is that of accepted parameters of the exchange, and the message that is
handled confirms exactly this key. -/
def SoundReport (events : List (AuthEvent κ β)) (s : AuthService κ) (e : AuthEvent κ β) (key : NegotiatedKey)
    (timestamp : BitVec 64) : Prop :=
  ∃ nonce serverNonce newNonce,
    InAttempt crypto config events s (DrewNonce nonce) ∧
    InAttempt crypto config events s (AcceptedResPq nonce serverNonce newNonce) ∧
    InAttempt crypto config events s
      (fun s₀ e₀ => Nonempty (DhParams crypto nonce serverNonce newNonce key s₀ e₀)) ∧
    ConfirmedKey crypto nonce serverNonce newNonce key timestamp e

/-- At every event of the run, nothing is reported, or one key, and that key is sound. -/
def ReportsSound (events : List (AuthEvent κ β)) : Prop :=
  ∀ before e after s s', events = before ++ e :: after → runAuth crypto config before = .ok s →
    stepAuth crypto config s e = .ok s' →
    s'.reports = s.reports ∨
      ∃ key timestamp, s'.reports = s.reports ++ [(key, timestamp)] ∧
        SoundReport crypto config before s e key timestamp

/-- **Only keys of the current attempt are reported**, whatever the server sends and in whatever order. -/
theorem runAuth_reportsSound (events : List (AuthEvent κ β)) : ReportsSound crypto config events := by
  intro before e after s s' _ hrun hstep
  have hinv := attemptInv_runAuth crypto config before hrun
  have hchange := stepAuth_change crypto config hstep
  generalize hattempt : s'.attempt = a at hchange
  have hreports : s'.reports = a.reports := congrArg Attempt.reports hattempt
  rw [hreports]
  cases hchange with
  | reported nonce serverNonce newNonce key timestamp hstate hconfirmed =>
      obtain ⟨hstage, hnonce, hserverNonce, hnewNonce, hkey⟩ := hstate
      obtain ⟨n, sn, nn, hn, hsn, hnn, hresPq⟩ := hinv.nonces (Or.inr hstage)
      obtain ⟨n', sn', nn', key', hn', hsn', hnn', hkey', hparams⟩ := hinv.authKey hstage
      rw [hnonce] at hn hn'
      rw [hserverNonce] at hsn hsn'
      rw [hnewNonce] at hnn hnn'
      rw [hkey] at hkey'
      cases hn
      cases hn'
      cases hsn
      cases hsn'
      cases hnn
      cases hnn'
      cases hkey'
      exact Or.inr ⟨key, timestamp, rfl, nonce, serverNonce, newNonce, hinv.nonce nonce hnonce, hresPq, hparams, hconfirmed⟩
  | _ => exact Or.inl rfl

/-! ## Which messages end the program -/

theorem receivedDhGenOk_handled (messageId : BitVec 64) (nonce serverNonce nextNonceHash1 : Bytes) (s : AuthService κ)
    (hstage : s.stage = .keyVerification) {newNonce : Block 32} {key : NegotiatedKey}
    (hnewNonce : s.newNonce = some newNonce) (hkey : s.authKey = some key) :
    Handled config s (receivedDhGenOk crypto config messageId nonce serverNonce nextNonceHash1 s) := by
  unfold receivedDhGenOk
  rw [hnewNonce, hkey]
  dsimp only
  split_ifs
  · exact Handled.ignored s
  · exact Handled.reset s s.keychain
  · exact Handled.advanced (by rw [hstage]; rfl)

theorem unlessNonces_handled (nonce serverNonce : Bytes) (s : AuthService κ) :
    Handled config s (.ok (if s.nonce ≠ some nonce ∨ s.serverNonce ≠ some serverNonce then s else reset config s)) := by
  split
  · exact Handled.ignored s
  · exact Handled.reset s s.keychain

/-- **Exactly which messages the service survives.** After any run, a message is ignored, leads to a reset or to the
next stage if and only if it is digestible or does not pass the comparison of the nonces. -/
theorem authReceivedMessage_handled_iff (events : List (AuthEvent κ β)) (s : AuthService κ)
    (hrun : runAuth crypto config events = .ok s) (draws : Draws) (message : MTIncomingMessage β) :
    Handled config s (authReceivedMessage crypto config draws message s) ↔
      (PassesNonces s message.body → Digestible crypto config s message.body) := by
  have hinv := attemptInv_runAuth crypto config events hrun
  unfold authReceivedMessage
  split
  next nonce serverNonce pq fingerprints hstage hbody =>
      rw [hbody]
      by_cases hnonce : s.nonce = some nonce
      · rw [receivedResPq_handled_iff crypto config draws nonce serverNonce pq fingerprints s hstage hnonce]
        exact ⟨fun h _ => h, fun h => h ⟨hstage, hnonce⟩⟩
      · refine ⟨fun _ h => absurd h.2 hnonce, fun _ => ?_⟩
        unfold receivedResPq
        rw [if_pos hnonce]
        exact Handled.ignored s
  next nonce serverNonce encryptedResponse hstage hbody =>
      rw [hbody]
      obtain ⟨-, -, newNonce, -, -, hnewNonce, -⟩ := hinv.nonces (Or.inl hstage)
      by_cases hnonces : s.nonce = some nonce ∧ s.serverNonce = some serverNonce
      · rw [receivedServerDhParamsOk_handled_iff crypto config draws nonce serverNonce encryptedResponse newNonce s hstage
          hnonces.1 hnonces.2 hnewNonce]
        refine ⟨fun h _ newNonce' hsome => ?_, fun h => h ⟨hstage, hnonces.1, hnonces.2⟩ newNonce hnewNonce⟩
        obtain rfl : newNonce = newNonce' := Option.some.inj (hnewNonce.symm.trans hsome)
        exact h
      · refine ⟨fun _ h => absurd h.2 hnonces, fun _ => ?_⟩
        unfold receivedServerDhParamsOk
        rw [if_pos (not_and_or.mp hnonces)]
        exact Handled.ignored s
  next hstage hbody =>
      rw [hbody]
      exact ⟨fun _ h => h.elim, fun _ => unlessNonces_handled config _ _ s⟩
  next hstage hbody =>
      rw [hbody]
      obtain ⟨-, -, newNonce, key, -, -, hnewNonce, hkey, -⟩ := hinv.authKey hstage
      exact ⟨fun _ h => h.elim, fun _ => receivedDhGenOk_handled crypto config _ _ _ _ s hstage hnewNonce hkey⟩
  next hstage hbody =>
      rw [hbody]
      exact ⟨fun _ h => h.elim, fun _ => unlessNonces_handled config _ _ s⟩
  next hstage hbody =>
      rw [hbody]
      exact ⟨fun _ h => h.elim, fun _ => unlessNonces_handled config _ _ s⟩
  next hresPq hdhParams _ _ _ _ =>
      -- the two messages that are compared were the first two cases
      refine ⟨fun _ h => ?_, fun _ => Handled.ignored s⟩
      unfold PassesNonces at h
      split at h
      next hbody => exact (hresPq _ _ _ _ h.1 hbody).elim
      next hbody => exact (hdhParams _ _ _ h.1 hbody).elim
      next => exact h.elim

end

/-! ### A `pq` of zero and of fifteen -/

/-- Every digest is zero, and AES and RSA do nothing. -/
def zeroAuthCrypto : AuthCrypto Unit where
  mtSha1 _ := Vector.replicate 20 0
  aes := identityAes (Block 32)
  mtRsaEncrypt _ data := data
  isPrime _ := true

def oneKeyConfig : AuthConfig Unit := ⟨false, 1, false, [⟨(), 7⟩]⟩

def zeroDraws : Draws := ⟨Vector.replicate 16 0, Vector.replicate 32 0, Vector.replicate 256 0, fun _ => 3, fun _ => 0⟩

/-- The service was added and has asked for a `pq`. -/
def askedForPq : List (AuthEvent Unit Unit) := [.didAddService, .messageTransaction zeroDraws]

def awaitsResPq : AuthService Unit := { reset oneKeyConfig initAuth with nonce := some (List.replicate 16 0) }

/-- A `resPQ` with the right nonce and a known fingerprint. -/
def resPqMessage (pq : Bytes) : MTIncomingMessage Unit :=
  ⟨1, 0, 0, 0, 0, .inl (.resPq (List.replicate 16 0) (List.replicate 16 0) pq [7])⟩

theorem runAuth_askedForPq : runAuth zeroAuthCrypto oneKeyConfig askedForPq = .ok awaitsResPq := rfl

theorem handled_fifteen :
    Handled oneKeyConfig awaitsResPq
      (authReceivedMessage zeroAuthCrypto oneKeyConfig zeroDraws (resPqMessage [15]) awaitsResPq) :=
  (authReceivedMessage_handled_iff zeroAuthCrypto oneKeyConfig askedForPq awaitsResPq runAuth_askedForPq zeroDraws
    (resPqMessage [15])).mpr fun _ => Or.inr (by decide)

/-- A `pq` of zero passes the comparison of the nonces and is divided by. -/
theorem not_handled_zero :
    runAuth zeroAuthCrypto oneKeyConfig askedForPq = .ok awaitsResPq ∧
      PassesNonces awaitsResPq (resPqMessage [0]).body ∧
      authReceivedMessage zeroAuthCrypto oneKeyConfig zeroDraws (resPqMessage [0]) awaitsResPq =
        .error .divisionByZero ∧
      ¬Handled oneKeyConfig awaitsResPq
        (authReceivedMessage zeroAuthCrypto oneKeyConfig zeroDraws (resPqMessage [0]) awaitsResPq) := by
  have hcrash : authReceivedMessage zeroAuthCrypto oneKeyConfig zeroDraws (resPqMessage [0]) awaitsResPq =
      .error .divisionByZero := by
    have hpq : pqValue [0] = 0 := by decide
    have hfact : mtFactorize zeroDraws.lrand48 0 = .error .divisionByZero := by
      unfold mtFactorize
      rw [factorizeLoop_zero]
      rfl
    show receivedResPq zeroAuthCrypto oneKeyConfig zeroDraws _ _ [0] [7] awaitsResPq = _
    unfold receivedResPq
    rw [hpq, hfact]
    rfl
  refine ⟨runAuth_askedForPq, ⟨rfl, rfl⟩, hcrash, ?_⟩
  rw [hcrash]
  rintro ⟨s', h, -⟩
  cases h

/-- The answer to a request for parameters: `p = 5`, which the keychain knows as safe, `g = 4` and `gA = 2`. -/
def dhAnswer : Bytes :=
  let inner := leBits 0xb5890dba#32 ++ List.replicate 32 0 ++ leBits 4#32 ++ tlBytes [5] ++ tlBytes [2] ++ leBits 0#32
  mtAesEncryptInplace zeroAuthCrypto.aes (List.replicate 20 0 ++ inner ++ List.replicate 8 0)
    (tmpAesKey zeroAuthCrypto zeroDraws.newNonce (List.replicate 16 0))
    (tmpAesIv zeroAuthCrypto zeroDraws.newNonce (List.replicate 16 0))

def wholeExchange : List (AuthEvent Unit Unit) :=
  [.context none [(.isPrimeSafe [5], true)], .didAddService, .messageTransaction zeroDraws,
   .receivedMessage zeroDraws (resPqMessage [15]),
   .receivedMessage zeroDraws
     ⟨2, 0, 0, 0, 0, .inl (.serverDhParamsOk (List.replicate 16 0) (List.replicate 16 0) dhAnswer)⟩,
   .receivedMessage zeroDraws
     ⟨3, 0, 0, 0, 0, .inl (.setClientDhParamsResponseOk (List.replicate 16 0) (List.replicate 16 0)
       (List.replicate 16 0))⟩]

example : (runAuth zeroAuthCrypto oneKeyConfig wholeExchange).map AuthService.reports = .ok [(⟨[1], 0, false⟩, 3)] := by
  decide +kernel

end TelegramClient.MtProto
