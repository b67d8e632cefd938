import TelegramClient.MtProto.Aes
import Mathlib.Data.List.Induction

/-!
# `MTAesCtr`: the counter-mode stream of a connection

* `ctr128Inc` : the byte loop that steps the counter (`ctr128Inc_eq`: it is the next big-endian number);
* `runOps_spec`, `runOps_init` : any sequence of calls and of rebuilds.
-/

namespace TelegramClient.MtProto
open List (length_append length_nil)

/-! ## The counter -/

/-- The loop of `ctr128_inc`, with `n` bytes left and the carry `c`. -/
def ctr128IncLoop : Nat → Nat → Bytes → Bytes
  | 0, _, counter => counter
  | n + 1, c, counter =>
    let c := c + (counter.getD n 0).toNat
    ctr128IncLoop n (c / 256) (counter.set n (UInt8.ofNat c))

@[simp] theorem length_ctr128IncLoop (n c : Nat) (counter : Bytes) :
    (ctr128IncLoop n c counter).length = counter.length := by
  induction n generalizing c counter with
  | zero => rfl
  | succ n ih => rw [ctr128IncLoop, ih, List.length_set]

/-- `ctr128_inc`. -/
def ctr128Inc (counter : Block 16) : Block 16 := ⟨(ctr128IncLoop 16 1 counter.toList).toArray, by simp⟩

/-- `ctr128_inc_aligned`: on a little-endian machine it always takes its first branch. -/
def ctr128IncAligned (counter : Block 16) : Block 16 := ctr128Inc counter

theorem beBytes_succ (n v : Nat) : beBytes (n + 1) v = beBytes n (v / 256) ++ [UInt8.ofNat v] := by
  rw [beBytes, leBytes, List.reverse_cons, beBytes]

theorem ctr128IncLoop_eq (pre post : Bytes) (c : Nat) :
    ctr128IncLoop pre.length c (pre ++ post) = beBytes pre.length (ofBe pre + c) ++ post := by
  induction pre using List.reverseRecOn generalizing post c with
  | nil => rfl
  | append_singleton pre b ih =>
    have hbyte : ((pre ++ [b]) ++ post).getD pre.length 0 = b := by simp
    have hset (v : UInt8) : ((pre ++ [b]) ++ post).set pre.length v = pre ++ (v :: post) := by simp
    have hlow : UInt8.ofNat (c + b.toNat) = UInt8.ofNat (256 * ofBe pre + b.toNat + c) := by
      apply UInt8.toNat_inj.mp
      rw [UInt8.toNat_ofNat', UInt8.toNat_ofNat']
      omega
    have hhigh : (256 * ofBe pre + b.toNat + c) / 256 = ofBe pre + (c + b.toNat) / 256 := by omega
    rw [length_append, List.length_singleton, ctr128IncLoop, hbyte, hset, ih, ofBe_concat, beBytes_succ,
      hhigh, hlow]
    simp

theorem ctr128Inc_eq (counter : Block 16) : ctr128Inc counter = counterBlock counter 1 := by
  apply Vector.toList_inj.mp
  have h := ctr128IncLoop_eq counter.toList [] 1
  rw [Vector.length_toList, List.append_nil, List.append_nil] at h
  rw [toList_counterBlock, ← h]
  simp [ctr128Inc, Vector.toList]

/-! ## The stream object -/

structure MTAesCtr (Key : Type) where
  cryptor : Key
  ivec : Block 16
  num : Nat
  ecount : Block 16

variable {Key : Type} (aes : Aes Key)

/-- `initWithKey:keyLength:iv:decrypt:`. -/
def MTAesCtr.init (key : Key) (iv : Block 16) : MTAesCtr Key := ⟨key, iv, 0, Vector.replicate 16 0⟩

/-- `initWithKey:keyLength:iv:ecount:num:`. -/
def MTAesCtr.initWithState (key : Key) (iv ecount : Block 16) (num : Nat) : MTAesCtr Key := ⟨key, iv, num, ecount⟩

/-- `CCCryptorUpdate(_cryptor, _ivec, 16, _ecount, ..)` and a step of the counter. -/
def MTAesCtr.nextBlock (inc : Block 16 → Block 16) (st : MTAesCtr Key) : MTAesCtr Key :=
  { st with ecount := aes.encryptBlock st.cryptor st.ivec, ivec := inc st.ivec }

/-- `while (n && len)`: the output, the rest of the input and `n`. -/
def leadingLoop (ecount : Bytes) : Nat → Bytes → Bytes × Bytes × Nat
  | n, [] => ([], [], n)
  | n, b :: bs =>
    if n = 0 then ([], b :: bs, n)
    else
      let r := leadingLoop ecount ((n + 1) % 16) bs
      ((b ^^^ ecount.getD n 0) :: r.1, r.2)

/-- `while (len >= 16)`: the object, the output, the rest of the input and `n`. -/
def blockLoop (st : MTAesCtr Key) (n : Nat) (input : Bytes) : MTAesCtr Key × Bytes × Bytes × Nat :=
  if 16 ≤ input.length then
    let st := st.nextBlock aes ctr128IncAligned
    let r := blockLoop st 0 (input.drop 16)
    (r.1, xorWords (input.take 16) st.ecount.toList ++ r.2.1, r.2.2)
  else (st, [], input, n)
  termination_by input.length
  decreasing_by rw [List.length_drop]; omega

/-- `while (len--)`: the output and `n`. -/
def tailLoop (ecount input : Bytes) : Nat → Nat → Bytes × Nat
  | 0, n => ([], n)
  | len + 1, n =>
    let r := tailLoop ecount input len (n + 1)
    ((input.getD n 0 ^^^ ecount.getD n 0) :: r.1, r.2)

/-- `while (l < len)`: the object, the output and `n`. -/
def byteLoop (st : MTAesCtr Key) : Nat → Bytes → MTAesCtr Key × Bytes × Nat
  | n, [] => (st, [], n)
  | n, b :: bs =>
    let st' := if n = 0 then st.nextBlock aes ctr128Inc else st
    let r := byteLoop st' ((n + 1) % 16) bs
    (r.1, (b ^^^ st'.ecount.toList.getD n 0) :: r.2.1, r.2.2)

/-- `encryptIn:out:len:`. `aligned` is the outcome of the test on the three pointers, and `none` the failed
assertion on `_num`. -/
def MTAesCtr.encryptIn (st : MTAesCtr Key) (aligned : Bool) (input : Bytes) : Option (MTAesCtr Key × Bytes) :=
  if st.num < 16 then
    let (out, input, n) := leadingLoop st.ecount.toList st.num input
    if aligned then
      let (st, out', input, n) := blockLoop aes st n input
      if input.length ≠ 0 then
        let st := st.nextBlock aes ctr128IncAligned
        let (out'', n) := tailLoop st.ecount.toList input input.length n
        some ({ st with num := n }, out ++ out' ++ out'')
      else some ({ st with num := n }, out ++ out')
    else
      let (st, out', n) := byteLoop aes st n input
      some ({ st with num := n }, out ++ out')
  else none

/-! ## The loops -/

/-- The object after `p` bytes of the stream of `key` and `iv`, with the local `n` for `_num`. -/
def MTAesCtr.At (key : Key) (iv : Block 16) (p : Nat) (st : MTAesCtr Key) (n : Nat) : Prop :=
  st.cryptor = key ∧ CtrAt (aes.encryptBlock key) iv p st.ivec st.ecount n

variable {iv : Block 16} {p n : Nat}

theorem leadingLoop_spec {E : Block 16 → Block 16} {ivec ecount : Block 16} (input : Bytes)
    (h : CtrAt E iv p ivec ecount n) :
    ∃ done rest n', leadingLoop ecount.toList n input = (xorKeystream E iv p done, rest, n') ∧
      input = done ++ rest ∧ CtrAt E iv (p + done.length) ivec ecount n' ∧ (rest ≠ [] → n' = 0) := by
  induction input generalizing p n with
  | nil =>
    refine ⟨[], [], n, rfl, rfl, ?_, fun hne => absurd rfl hne⟩
    rwa [length_nil, Nat.add_zero]
  | cons b bs ih =>
    by_cases hn : n = 0
    · refine ⟨[], b :: bs, n, ?_, rfl, ?_, fun _ => hn⟩
      · rw [leadingLoop, if_pos hn]
        rfl
      · rwa [length_nil, Nat.add_zero]
    · obtain ⟨done, rest, n', hloop, hsplit, hat, hrest⟩ := ih (h.succ (by omega) hn)
      refine ⟨b :: done, rest, n', ?_, ?_, ?_, hrest⟩
      · rw [leadingLoop, if_neg hn, hloop, xorKeystream, h.keystreamByte_eq hn]
      · rw [hsplit, List.cons_append]
      · rwa [List.length_cons, Nat.add_comm done.length, ← Nat.add_assoc]

variable {aes}

variable {key : Key} {st : MTAesCtr Key}

theorem MTAesCtr.At.setNum (h : st.At aes key iv p n) : ({ st with num := n } : MTAesCtr Key).At aes key iv p n := h

theorem nextBlock_aligned (st : MTAesCtr Key) : st.nextBlock aes ctr128IncAligned = st.nextBlock aes ctr128Inc := rfl

theorem MTAesCtr.At.nextBlock (h : st.At aes key iv p n) (hn : n = 0) {l : Bytes} (h0 : l ≠ []) (hl : l.length ≤ 16) :
    xorKeystream (aes.encryptBlock key) iv p l = xorBytes l (st.nextBlock aes ctr128Inc).ecount.toList ∧
      (st.nextBlock aes ctr128Inc).At aes key iv (p + l.length) (l.length % 16) := by
  obtain ⟨hkey, hctr⟩ := h
  have hlen : 0 < l.length := List.length_pos_iff.mpr h0
  have hadv := hctr.advance (by omega) hn hlen hl
  unfold MTAesCtr.At MTAesCtr.nextBlock
  dsimp only
  rw [hctr.xorKeystream_block (by omega) hn hl, hkey, ctr128Inc_eq]
  exact ⟨rfl, rfl, hadv⟩

theorem blockLoop_spec (input : Bytes) (h : st.At aes key iv p n) (hn : input ≠ [] → n = 0) :
    ∃ st' done rest n', blockLoop aes st n input = (st', xorKeystream (aes.encryptBlock key) iv p done, rest, n') ∧
      input = done ++ rest ∧ st'.At aes key iv (p + done.length) n' ∧ rest.length < 16 ∧ (rest ≠ [] → n' = 0) := by
  fun_induction blockLoop aes st n input generalizing p with
  | case1 st n input hlen st' r =>
    rename_i ih
    have hne : input ≠ [] := by
      rintro rfl
      simp at hlen
    have htake : (input.take 16).length = 16 := by rw [List.length_take]; omega
    have hblock := h.nextBlock (hn hne) (l := input.take 16) (by rw [← List.length_pos_iff]; omega) (by omega)
    rw [htake] at hblock
    obtain ⟨st₂, done, rest, n', hloop, hsplit, hat, hlt, hrest⟩ := ih hblock.2 fun _ => rfl
    refine ⟨st₂, input.take 16 ++ done, rest, n', ?_, ?_, ?_, hlt, hrest⟩
    · rw [show r = _ from hloop, xorKeystream_append, hblock.1, htake,
        xorWords_eq htake (by simp)]
      rfl
    · rw [List.append_assoc, ← hsplit, List.take_append_drop]
    · rwa [length_append, htake, ← Nat.add_assoc]
  | case2 st n input hlen =>
    refine ⟨st, [], input, n, rfl, rfl, ?_, by omega, hn⟩
    rwa [length_nil, Nat.add_zero]

theorem tailLoop_eq (ecount input : Bytes) (len n : Nat) (hin : n + len = input.length)
    (hecount : n + len ≤ ecount.length) :
    tailLoop ecount input len n = (xorBytes (input.drop n) (ecount.drop n), n + len) := by
  induction len generalizing n with
  | zero =>
    have hdrop : input.drop n = [] := List.drop_of_length_le (by omega)
    rw [tailLoop, hdrop]
    rfl
  | succ len ih =>
    have hi : n < input.length := by omega
    have he : n < ecount.length := by omega
    rw [tailLoop, ih (n + 1) (by omega) (by omega), List.drop_eq_getElem_cons hi, List.drop_eq_getElem_cons he,
      List.getD_eq_getElem?_getD, List.getD_eq_getElem?_getD, List.getElem?_eq_getElem hi,
      List.getElem?_eq_getElem he, Nat.add_right_comm n 1 len]
    rfl

theorem byteLoop_spec (input : Bytes) (h : st.At aes key iv p n) :
    ∃ st' n', byteLoop aes st n input = (st', xorKeystream (aes.encryptBlock key) iv p input, n') ∧
      st'.At aes key iv (p + input.length) n' := by
  induction input generalizing p n st with
  | nil =>
    refine ⟨st, n, rfl, ?_⟩
    rwa [length_nil, Nat.add_zero]
  | cons b bs ih =>
    rw [List.length_cons, Nat.add_comm bs.length, ← Nat.add_assoc]
    by_cases hn : n = 0
    · subst hn
      have hbyte : keystreamByte (aes.encryptBlock key) iv p =
          (st.nextBlock aes ctr128Inc).ecount.toList.getD 0 0 := by
        rw [h.2.keystreamByte_of_num_zero (by omega) rfl, ← h.1]
        rfl
      have hnext := (h.nextBlock rfl (l := [b]) (by simp) (by simp)).2
      rw [List.length_singleton, Nat.one_mod] at hnext
      obtain ⟨st', n', hloop, hat⟩ := ih hnext
      refine ⟨st', n', ?_, hat⟩
      rw [byteLoop, if_pos rfl, ← hbyte, Nat.zero_add, Nat.one_mod, hloop, xorKeystream]
    · have hsucc : st.At aes key iv (p + 1) ((n + 1) % 16) := ⟨h.1, h.2.succ (by omega) hn⟩
      obtain ⟨st', n', hloop, hat⟩ := ih hsucc
      refine ⟨st', n', ?_, hat⟩
      rw [byteLoop, if_neg hn, hloop, xorKeystream, h.2.keystreamByte_eq hn]

/-! ## Calls -/

/-- **One call**, on either path: the input is xored with the next bytes of the keystream. -/
theorem encryptIn_spec (aligned : Bool) (input : Bytes) (h : st.At aes key iv p st.num) :
    ∃ st', st.encryptIn aes aligned input = some (st', xorKeystream (aes.encryptBlock key) iv p input) ∧
      st'.At aes key iv (p + input.length) st'.num := by
  have hnum : st.num < 16 := h.2.num_lt (by omega)
  obtain ⟨done, rest, n, hlead, hsplit, hat, hrest⟩ := leadingLoop_spec input h.2
  have hst : st.At aes key iv (p + done.length) n := ⟨h.1, hat⟩
  unfold MTAesCtr.encryptIn
  rw [if_pos hnum, hlead, hsplit, xorKeystream_append, length_append, ← Nat.add_assoc]
  dsimp only
  cases aligned with
  | false =>
    obtain ⟨st', n', hloop, hat'⟩ := byteLoop_spec rest hst
    refine ⟨{ st' with num := n' }, ?_, hat'.setNum⟩
    simp [hloop]
  | true =>
    obtain ⟨st', blocks, tail, n', hloop, hsplit', hat', hlt, htail⟩ := blockLoop_spec rest hst hrest
    rw [if_pos rfl, hloop, hsplit', xorKeystream_append, length_append, ← Nat.add_assoc]
    dsimp only
    by_cases hne : tail = []
    · subst hne
      rw [length_nil, Nat.add_zero]
      refine ⟨{ st' with num := n' }, ?_, hat'.setNum⟩
      simp [xorKeystream]
    · have hn' := htail hne
      obtain ⟨hxor, hnext⟩ := hat'.nextBlock hn' hne (by omega)
      rw [Nat.mod_eq_of_lt hlt] at hnext
      have htailLoop := tailLoop_eq (st'.nextBlock aes ctr128Inc).ecount.toList tail tail.length 0 (by omega)
        (by simp; omega)
      rw [Nat.zero_add, List.drop_zero, List.drop_zero] at htailLoop
      refine ⟨{ st'.nextBlock aes ctr128Inc with num := tail.length }, ?_, hnext.setNum⟩
      rw [if_pos (by simpa using hne), hn', hxor]
      simp only [nextBlock_aligned, htailLoop, List.append_assoc]

/-- What a connection does with its stream object. -/
inductive CtrOp where
  | encryptIn (aligned : Bool) (input : Bytes)
  /-- The state is saved and the object built anew from it. -/
  | rebuild

def CtrOp.input : CtrOp → Bytes
  | .encryptIn _ input => input
  | .rebuild => []

variable (aes)

def MTAesCtr.step (st : MTAesCtr Key) : CtrOp → Option (MTAesCtr Key × Bytes)
  | .encryptIn aligned input => st.encryptIn aes aligned input
  | .rebuild => some (.initWithState st.cryptor st.ivec st.ecount st.num, [])

/-- The operations one after the other: the last state and the concatenated output. -/
def MTAesCtr.runOps (st : MTAesCtr Key) : List CtrOp → Option (MTAesCtr Key × Bytes)
  | [] => some (st, [])
  | op :: ops => do
    let (st, out) ← st.step aes op
    let (st, out') ← st.runOps ops
    return (st, out ++ out')

variable {aes}

theorem step_spec (op : CtrOp) (h : st.At aes key iv p st.num) :
    ∃ st', st.step aes op = some (st', xorKeystream (aes.encryptBlock key) iv p op.input) ∧
      st'.At aes key iv (p + op.input.length) st'.num := by
  cases op with
  | encryptIn aligned input => exact encryptIn_spec aligned input h
  | rebuild =>
    rw [CtrOp.input, length_nil, Nat.add_zero]
    exact ⟨_, rfl, h⟩

theorem runOps_spec (ops : List CtrOp) (h : st.At aes key iv p st.num) :
    ∃ st', st.runOps aes ops = some (st', xorKeystream (aes.encryptBlock key) iv p (ops.flatMap CtrOp.input)) ∧
      st'.At aes key iv (p + (ops.flatMap CtrOp.input).length) st'.num := by
  induction ops generalizing p st with
  | nil =>
    rw [List.flatMap_nil, length_nil, Nat.add_zero]
    exact ⟨st, rfl, h⟩
  | cons op ops ih =>
    obtain ⟨st₁, hstep, hat⟩ := step_spec op h
    obtain ⟨st₂, hrun, hat₂⟩ := ih hat
    refine ⟨st₂, ?_, ?_⟩
    · rw [MTAesCtr.runOps, hstep, List.flatMap_cons, xorKeystream_append]
      simp [hrun]
    · rwa [List.flatMap_cons, length_append, ← Nat.add_assoc]

/-- **The stream.** However the input is cut into calls, whichever path each call takes and wherever the object
is saved and built anew, the output is the input xored with `E(iv), E(iv+1), ...`, and `_num` stays below 16. -/
theorem runOps_init {Key : Type} (aes : Aes Key) (key : Key) (iv : Block 16) (ops : List CtrOp) :
    ∃ st, (MTAesCtr.init key iv).runOps aes ops =
        some (st, xorKeystream (aes.encryptBlock key) iv 0 (ops.flatMap CtrOp.input)) ∧
      st.num < 16 := by
  have hinit : (MTAesCtr.init key iv).At aes key iv 0 (MTAesCtr.init key iv).num :=
    ⟨rfl, CtrAt.init (aes.encryptBlock key) iv (Vector.replicate 16 0) (by omega)⟩
  obtain ⟨st, hrun, hat⟩ := runOps_spec ops hinit
  exact ⟨st, hrun, hat.2.num_lt (by omega)⟩

end TelegramClient.MtProto
