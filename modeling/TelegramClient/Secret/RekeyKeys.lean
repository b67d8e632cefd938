import TelegramClient.Secret.Rekey
import Mathlib.Data.List.Induction
import Mathlib.Data.List.Nodup

/-!
# The stored keys of a secret chat

* `newest`, `KeysOk` : the key for new messages; fingerprints are not zero and differ, numbers increase;
* `store_cases` : what `storeEncryptionKey` does; `Successor` : the newest key after it.
-/

namespace TelegramClient.Secret
open List

open MtProto

def newest (keys : List EncryptionKeyData) : EncryptionKeyData := keys.getLast?.getD default

@[simp] theorem newest_append_singleton (keys : List EncryptionKeyData) (record : EncryptionKeyData) :
    newest (keys ++ [record]) = record := by simp [newest]

structure KeysOk (keys : List EncryptionKeyData) : Prop where
  nonempty : keys ≠ []
  nonzero : ∀ record ∈ keys, record.keyId ≠ 0
  distinct : (keys.map EncryptionKeyData.keyId).Nodup
  increasing : keys.Pairwise fun record record' => record.firstSeqOut < record'.firstSeqOut

variable {keys : List EncryptionKeyData}

theorem getLast?_eq_newest (h : keys ≠ []) : keys.getLast? = some (newest keys) := by
  induction keys using List.reverseRecOn with
  | nil => exact absurd rfl h
  | append_singleton keys record ih => simp

theorem newest_mem (h : keys ≠ []) : newest keys ∈ keys :=
  mem_of_getLast? (getLast?_eq_newest h)

theorem KeysOk.newest_mem (h : KeysOk keys) : newest keys ∈ keys :=
  Secret.newest_mem h.nonempty

theorem KeysOk.split (h : KeysOk keys) :
    ∃ older, keys = older ++ [newest keys] ∧ ∀ record ∈ older, record.firstSeqOut < (newest keys).firstSeqOut := by
  have hincreasing := h.increasing
  have hnonempty := h.nonempty
  clear h
  induction keys using List.reverseRecOn with
  | nil => exact absurd rfl hnonempty
  | append_singleton keys record ih =>
    refine ⟨keys, by rw [newest_append_singleton], ?_⟩
    rw [newest_append_singleton]
    intro other hother
    exact (pairwise_append.mp hincreasing).2.2 other hother record mem_cons_self

variable {record : EncryptionKeyData}

theorem KeysOk.first_le (h : KeysOk keys) (hrec : record ∈ keys) :
    record.firstSeqOut ≤ (newest keys).firstSeqOut := by
  obtain ⟨older, hkeys, holder⟩ := h.split
  rw [hkeys] at hrec
  rcases mem_append.mp hrec with hrec | hrec
  · exact (holder record hrec).le
  · rw [mem_singleton.mp hrec]

theorem KeysOk.eq_of_keyId (h : KeysOk keys) {record' : EncryptionKeyData} (hrec : record ∈ keys)
    (hrecord' : record' ∈ keys) (hid : record.keyId = record'.keyId) : record = record' :=
  inj_on_of_nodup_map h.distinct hrec hrecord' hid

/-! ## Finding a key -/

variable {keyId : BitVec 64}

theorem encryptionKey_of_ne_zero (keys : List EncryptionKeyData) (hzero : keyId ≠ 0) :
    encryptionKeyForConversationId keys keyId = (keys.filter fun record => record.keyId = keyId).getLast? :=
  if_neg hzero

theorem encryptionKey_some (hzero : keyId ≠ 0) (h : encryptionKeyForConversationId keys keyId = some record) :
    record ∈ keys ∧ record.keyId = keyId := by
  rw [encryptionKey_of_ne_zero keys hzero] at h
  simpa using mem_filter.mp (mem_of_getLast? h)

/-- **A stored key is found.** -/
theorem KeysOk.encryptionKey_of_mem (h : KeysOk keys) (hrec : record ∈ keys) :
    encryptionKeyForConversationId keys record.keyId = some record := by
  cases hfound : encryptionKeyForConversationId keys record.keyId with
  | none =>
    rw [encryptionKey_of_ne_zero keys (h.nonzero record hrec), getLast?_eq_none_iff,
      filter_eq_nil_iff] at hfound
    simpa using hfound record hrec
  | some found =>
    obtain ⟨hm, hid⟩ := encryptionKey_some (h.nonzero record hrec) hfound
    rw [h.eq_of_keyId hm hrec hid]

theorem KeysOk.encryptionKey_zero (h : KeysOk keys) : encryptionKeyForConversationId keys 0 = some (newest keys) := by
  rw [encryptionKeyForConversationId, if_pos rfl, getLast?_eq_newest h.nonempty]

theorem encryptionKey_isNone_iff (h : KeysOk keys) :
    (encryptionKeyForConversationId keys keyId).isNone = true ↔ keyId ≠ 0 ∧ ∀ record ∈ keys, record.keyId ≠ keyId := by
  by_cases hzero : keyId = 0
  · rw [hzero, h.encryptionKey_zero]
    simp
  · rw [encryptionKey_of_ne_zero keys hzero, Option.isNone_iff_eq_none, getLast?_eq_none_iff,
      filter_eq_nil_iff]
    simpa using fun _ => hzero

/-! ## Storing and disposing -/

theorem foldl_max_spec {α : Type} (f : α → Nat) (xs : List α) (n : Nat) :
    n ≤ xs.foldl (fun m x => max m (f x)) n ∧ (∀ x ∈ xs, f x ≤ xs.foldl (fun m x => max m (f x)) n) ∧
      (xs.foldl (fun m x => max m (f x)) n = n ∨ ∃ x ∈ xs, f x = xs.foldl (fun m x => max m (f x)) n) := by
  induction xs generalizing n with
  | nil => simp
  | cons x xs ih =>
    obtain ⟨hle, hall, hattained⟩ := ih (max n (f x))
    rw [foldl_cons]
    refine ⟨by omega, ?_, ?_⟩
    · intro y hy
      rcases mem_cons.mp hy with rfl | hy
      · omega
      · exact hall y hy
    · rcases hattained with hsame | ⟨y, hy, hsame⟩
      · by_cases hgreater : n < f x
        · exact .inr ⟨x, mem_cons_self, by omega⟩
        · exact .inl (by omega)
      · exact .inr ⟨y, mem_cons_of_mem _ hy, hsame⟩

theorem KeysOk.maxKeySeqOut_eq (h : KeysOk keys) : maxKeySeqOut keys = (newest keys).firstSeqOut := by
  obtain ⟨-, hall, hattained⟩ := foldl_max_spec EncryptionKeyData.firstSeqOut keys 0
  have hge := hall _ h.newest_mem
  unfold maxKeySeqOut
  rcases hattained with hzero | ⟨record, hrec, hsame⟩
  · omega
  · have := h.first_le hrec
    omega

/-- **Only the newest key is left**, or nothing is removed. -/
theorem KeysOk.discard_eq (h : KeysOk keys) (beforeSeqOut : Nat) : discardEncryptionKeys keys beforeSeqOut =
      if (newest keys).firstSeqOut < beforeSeqOut then [newest keys] else keys := by
  rw [discardEncryptionKeys, h.maxKeySeqOut_eq]
  split
  · obtain ⟨older, hkeys, holder⟩ := h.split
    generalize newest keys = last at hkeys holder ⊢
    rw [hkeys, filter_append]
    have holder' : older.filter (fun record => decide (record.firstSeqOut = last.firstSeqOut)) = [] := by
      rw [filter_eq_nil_iff]
      intro record hrec
      have := holder record hrec
      simp
      omega
    rw [holder']
    simp
  · rfl

theorem KeysOk.singleton (h : KeysOk keys) : KeysOk [newest keys] where
  nonempty := cons_ne_nil _ _
  nonzero := by simpa using h.nonzero _ h.newest_mem
  distinct := nodup_singleton _
  increasing := pairwise_singleton _ _

variable {key : Bytes}

theorem KeysOk.store (h : KeysOk keys) {firstSeqOut : Nat} (hzero : keyId ≠ 0)
    (hfresh : ∀ record ∈ keys, record.keyId ≠ keyId) (hfirst : ∀ record ∈ keys, record.firstSeqOut < firstSeqOut) :
    KeysOk (keys ++ [⟨keyId, key, firstSeqOut⟩]) where
  nonempty := by simp
  nonzero := by
    intro record hrec
    rcases mem_append.mp hrec with hrec | hrec
    · exact h.nonzero record hrec
    · rw [mem_singleton.mp hrec]
      exact hzero
  distinct := by
    rw [map_append, nodup_append]
    refine ⟨h.distinct, nodup_singleton _, ?_⟩
    intro id hid id' hid' hsame
    obtain ⟨record, hrec, rfl⟩ := mem_map.mp hid
    rw [mem_singleton.mp hid'] at hsame
    exact hfresh record hrec hsame
  increasing := by
    rw [pairwise_append]
    refine ⟨h.increasing, pairwise_singleton _ _, ?_⟩
    intro record hrec record' hrecord'
    rw [mem_singleton.mp hrecord']
    exact hfirst record hrec

theorem store_cases (h : KeysOk keys) (key : Bytes) (keyId : BitVec 64) (firstSeqOut : Nat) :
    (keyId ≠ 0 ∧ (∀ record ∈ keys, record.keyId ≠ keyId) ∧
        storeEncryptionKey keys key keyId firstSeqOut = keys ++ [⟨keyId, key, firstSeqOut⟩]) ∨
      ((keyId = 0 ∨ ∃ record ∈ keys, record.keyId = keyId) ∧ storeEncryptionKey keys key keyId firstSeqOut = keys) := by
  unfold storeEncryptionKey
  split
  next hnone =>
      obtain ⟨hzero, hfresh⟩ := (encryptionKey_isNone_iff h).mp hnone
      exact .inl ⟨hzero, hfresh, rfl⟩
  next hnone =>
      refine .inr ⟨?_, rfl⟩
      rw [encryptionKey_isNone_iff h] at hnone
      by_cases hzero : keyId = 0
      · exact .inl hzero
      · push Not at hnone
        exact .inr (hnone hzero)

/-! ## The same key -/

def SameKey (record record' : EncryptionKeyData) : Prop := record.keyId = record'.keyId ∧ record.key = record'.key

theorem SameKey.refl (record : EncryptionKeyData) : SameKey record record := ⟨rfl, rfl⟩

theorem SameKey.symm {record' : EncryptionKeyData} (h : SameKey record record') : SameKey record' record :=
  ⟨h.1.symm, h.2.symm⟩

theorem SameKey.trans {r₁ r₂ r₃ : EncryptionKeyData} (h : SameKey r₁ r₂) (h' : SameKey r₂ r₃) : SameKey r₁ r₃ :=
  ⟨h.1.trans h'.1, h.2.trans h'.2⟩

/-- The key after `previous` when `key` is stored next to it alone. -/
def Successor (previous : EncryptionKeyData) (key : Bytes) (keyId : BitVec 64) (next : EncryptionKeyData) : Prop :=
  if keyId = 0 ∨ previous.keyId = keyId then SameKey next previous else next.keyId = keyId ∧ next.key = key

theorem successor_store (h : KeysOk [record]) (key : Bytes) (keyId : BitVec 64) (firstSeqOut : Nat) :
    Successor record key keyId (newest (storeEncryptionKey [record] key keyId firstSeqOut)) := by
  unfold Successor
  rcases store_cases h key keyId firstSeqOut with ⟨hzero, hfresh, hstore⟩ | ⟨hold, hstore⟩
  · rw [hstore, newest_append_singleton, if_neg]
    · exact ⟨rfl, rfl⟩
    · rintro (hzero' | hsame)
      · exact hzero hzero'
      · exact hfresh record mem_cons_self hsame
  · rw [hstore, if_pos]
    · exact SameKey.refl _
    · simpa using hold

theorem Successor.of_sameKey {previous previous' next : EncryptionKeyData} (h : Successor previous key keyId next)
    (hsame : SameKey previous previous') : Successor previous' key keyId next := by
  unfold Successor at h ⊢
  rw [← hsame.1]
  split at h
  next hold =>
      rw [if_pos hold]
      exact h.trans hsame
  next hold =>
      rw [if_neg hold]
      exact h

theorem Successor.sameKey {previous next next' : EncryptionKeyData} (h : Successor previous key keyId next)
    (h' : Successor previous key keyId next') : SameKey next next' := by
  unfold Successor at h h'
  split at h
  next hold =>
      rw [if_pos hold] at h'
      exact h.trans h'.symm
  next hold =>
      rw [if_neg hold] at h'
      exact ⟨h.1.trans h'.1.symm, h.2.trans h'.2.symm⟩

end TelegramClient.Secret
