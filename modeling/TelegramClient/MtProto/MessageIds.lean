import TelegramClient.MtProto.SessionInfo
import Mathlib.Data.List.Pairwise

/-!
# The client's message ids

One session asks for ids again and again, at the readings of the clock (`generateClientMessageId:`).

* `ClockReading` : what the clock, a `double`, can read;
* `generateClientMessageIds_inOrder_iff` : **the ids are in order exactly for spaced readings**.

The id of a call is a multiple of 4 that may lie above the reading. A reading that equals it is moved past it, a reading
below it is not.
-/

namespace TelegramClient.MtProto
open MTSessionInfo (alignMessageId generateClientMessageId initWithSessionId)

/-- `(int64_t)([_context globalTime] * 4294967296)`. The conversion is defined below `2^63`, and the last `double` there
is `2^63 - 1024`. -/
structure ClockReading where
  value : BitVec 64
  inRange : value.toInt ≤ 2 ^ 63 - 1024
deriving DecidableEq

namespace MTSessionInfo

/-- What the calls of `generateClientMessageId:` return, one call for each reading, and whether they raise the flag. -/
def generateClientMessageIds (session : MTSessionInfo) : List ClockReading → List (BitVec 64 × Bool)
  | [] => []
  | now :: readings =>
    let (messageId, monotonityViolated, session') := session.generateClientMessageId now.value
    (messageId, monotonityViolated) :: generateClientMessageIds session' readings

end MTSessionInfo

/-- No call raises the flag, and the ids are multiples of 4 that increase. -/
def InOrder (calls : List (BitVec 64 × Bool)) : Prop :=
  (∀ call ∈ calls, call.2 = false ∧ 4 ∣ call.1.toInt) ∧
    calls.Pairwise fun call call' => call.1.toInt < call'.1.toInt

instance (calls : List (BitVec 64 × Bool)) : Decidable (InOrder calls) :=
  @instDecidableAnd _ _ (List.decidableBAll _ calls) inferInstance

/-! ## The least id of a call -/

/-- The least multiple of 4 that is not below `t`. -/
def roundUpToFour (t : Int) : Int := 4 * ((t + 3) / 4)

variable (t : Int)

theorem le_roundUpToFour : t ≤ roundUpToFour t := by
  unfold roundUpToFour
  omega

theorem roundUpToFour_lt : roundUpToFour t < t + 4 := by
  unfold roundUpToFour
  omega

theorem four_dvd_roundUpToFour : 4 ∣ roundUpToFour t := Int.dvd_mul_right 4 _

theorem roundUpToFour_le {t m : Int} (hm : 4 ∣ m) (h : t ≤ m) : roundUpToFour t ≤ m := by
  unfold roundUpToFour
  omega

theorem toInt_add_one_of_lt {t : BitVec 64} (h : t.toInt + 1 < 2 ^ 63) : (t + 1).toInt = t.toInt + 1 := by
  have hlow := BitVec.le_toInt t
  rw [BitVec.toInt_add, show (1 : BitVec 64).toInt = 1 by decide]
  exact Int.bmod_eq_of_le (by omega) (by omega)

/-- The rounding loop, where nothing wraps around. -/
theorem toInt_alignMessageId {steps : Nat} {t : BitVec 64} (hfit : roundUpToFour t.toInt < 2 ^ 63)
    (hsteps : roundUpToFour t.toInt ≤ t.toInt + steps) :
    (alignMessageId steps t).toInt = roundUpToFour t.toInt := by
  have hle := le_roundUpToFour t.toInt
  have hdvd := four_dvd_roundUpToFour t.toInt
  have hrem (x : Int) : x.tmod 4 = 0 ↔ 4 ∣ x := (Int.dvd_iff_tmod_eq_zero).symm
  induction steps generalizing t with
  | zero =>
    show t.toInt = _
    omega
  | succ steps ih =>
    rw [alignMessageId]
    split
    · next hmod =>
      rw [ne_eq, hrem] at hmod
      have hnext : (t + 1).toInt = t.toInt + 1 := toInt_add_one_of_lt (by omega)
      have hsame : roundUpToFour (t + 1).toInt = roundUpToFour t.toInt := by
        rw [hnext]
        unfold roundUpToFour
        omega
      rw [← hsame]
      apply ih <;> rw [hsame]
      · exact hfit
      · omega
      · omega
      · exact hdvd
    · next hmod =>
      rw [not_not, hrem] at hmod
      exact le_antisymm hle (roundUpToFour_le hmod (le_refl _))

variable {session : MTSessionInfo}

/-- The id of a reading that has reached the last id: the least multiple of 4 from the reading on that is above it. -/
theorem toInt_generateClientMessageId {now : ClockReading} (hlast : 4 ∣ session.lastClientMessageId.toInt)
    (h : session.lastClientMessageId.toInt ≤ now.value.toInt) : (session.generateClientMessageId now.value).1.toInt =
      max (roundUpToFour now.value.toInt) (session.lastClientMessageId.toInt + 4) := by
  have hrange := now.inRange
  have hround := roundUpToFour_lt now.value.toInt
  have hup := le_roundUpToFour now.value.toInt
  unfold generateClientMessageId
  dsimp only
  split
  · next heq =>
    have hnext : (session.lastClientMessageId + 1).toInt = session.lastClientMessageId.toInt + 1 :=
      toInt_add_one_of_lt (by rw [← heq]; omega)
    have hid : roundUpToFour (session.lastClientMessageId + 1).toInt = session.lastClientMessageId.toInt + 4 := by
      rw [hnext]
      unfold roundUpToFour
      omega
    have hreach : roundUpToFour now.value.toInt ≤ session.lastClientMessageId.toInt + 4 := by
      rw [heq] at hround ⊢
      omega
    rw [toInt_alignMessageId, hid, max_eq_right hreach]
    · rw [hid, ← heq]
      omega
    · rw [hid, hnext]
      omega
  · next hne =>
    have hlt : session.lastClientMessageId.toInt < now.value.toInt := by
      refine lt_of_le_of_ne h fun heq => hne ?_
      exact (BitVec.eq_of_toInt_eq heq).symm
    have hreach : session.lastClientMessageId.toInt + 4 ≤ roundUpToFour now.value.toInt := by
      unfold roundUpToFour
      omega
    rw [toInt_alignMessageId, max_eq_left hreach]
    · omega
    · push_cast
      omega

/-! ## Spaced readings -/

/-- Each reading has reached the ids that the calls before it need at least: 4 for each call after `last`, and for each
earlier reading the multiple of 4 above it and 4 for each call in between. -/
def SpacedAfter (last : Int) (readings : List Int) : Prop :=
  ∀ (i : Nat) (t : Int), readings[i]? = some t →
    last + 4 * i ≤ t ∧
      ∀ (j : Nat) (t' : Int), readings[j]? = some t' → j < i → roundUpToFour t' + 4 * (i - j - 1) ≤ t

/-- The readings of a new session are spaced: its last id is 0 before the first call. -/
def Spaced (readings : List ClockReading) : Prop := SpacedAfter 0 (readings.map fun now => now.value.toInt)

theorem spacedAfter_cons {last t : Int} {readings : List Int} :
    SpacedAfter last (t :: readings) ↔ last ≤ t ∧ SpacedAfter (max (roundUpToFour t) (last + 4)) readings := by
  constructor
  · intro h
    refine ⟨by simpa using (h 0 t rfl).1, fun i t' ht' => ?_⟩
    obtain ⟨hlast, hearlier⟩ := h (i + 1) t' ht'
    have hfirst := hearlier 0 t rfl (Nat.succ_pos i)
    push_cast at hlast hfirst
    refine ⟨by omega, fun j u hu hlt => ?_⟩
    have hu' := hearlier (j + 1) u hu (by omega)
    push_cast at hu'
    omega
  · rintro ⟨hle, h⟩ i t' ht'
    cases i with
    | zero =>
      obtain rfl : t = t' := by simpa using ht'
      exact ⟨by simpa using hle, fun j u _ hlt => absurd hlt (Nat.not_lt_zero j)⟩
    | succ i =>
      obtain ⟨hmax, hearlier⟩ := h i t' ht'
      push_cast
      refine ⟨by omega, fun j u hu hlt => ?_⟩
      cases j with
      | zero =>
        obtain rfl : t = u := by simpa using hu
        push_cast
        omega
      | succ j =>
        have hu' := hearlier j u hu (by omega)
        push_cast
        omega

theorem lastClientMessageId_generateClientMessageId (session : MTSessionInfo) (now : BitVec 64) :
    (session.generateClientMessageId now).2.2.lastClientMessageId = (session.generateClientMessageId now).1 := rfl

theorem monotonityViolated_iff (session : MTSessionInfo) (now : BitVec 64) :
    (session.generateClientMessageId now).2.1 = false ↔ session.lastClientMessageId.toInt ≤ now.toInt := by
  simp [generateClientMessageId]

theorem inOrder_cons {call : BitVec 64 × Bool} {calls : List (BitVec 64 × Bool)} :
    InOrder (call :: calls) ↔ (call.2 = false ∧ 4 ∣ call.1.toInt) ∧ (∀ call' ∈ calls, call.1.toInt < call'.1.toInt) ∧
      InOrder calls := by
  unfold InOrder
  rw [List.forall_mem_cons, List.pairwise_cons]
  tauto

/-- From a state whose last id is a multiple of 4, the calls are in order, and above the last id, exactly when the
readings are spaced after it. -/
theorem inOrder_iff_spacedAfter (hlast : 4 ∣ session.lastClientMessageId.toInt) (readings : List ClockReading) :
    (InOrder (session.generateClientMessageIds readings) ↔
      SpacedAfter session.lastClientMessageId.toInt (readings.map fun now => now.value.toInt)) ∧
    (SpacedAfter session.lastClientMessageId.toInt (readings.map fun now => now.value.toInt) →
      ∀ call ∈ session.generateClientMessageIds readings, session.lastClientMessageId.toInt < call.1.toInt) := by
  induction readings generalizing session with
  | nil => simp [MTSessionInfo.generateClientMessageIds, InOrder, SpacedAfter]
  | cons now readings ih =>
    rw [List.map_cons, spacedAfter_cons, MTSessionInfo.generateClientMessageIds, inOrder_cons]
    by_cases hle : session.lastClientMessageId.toInt ≤ now.value.toInt
    · have hid := toInt_generateClientMessageId hlast hle
      have hdvd : 4 ∣ (session.generateClientMessageId now.value).1.toInt := by
        have hround := four_dvd_roundUpToFour now.value.toInt
        rw [hid]
        omega
      have hflag := (monotonityViolated_iff session now.value).mpr hle
      rw [← lastClientMessageId_generateClientMessageId] at hdvd
      obtain ⟨hiff, habove⟩ := ih hdvd
      rw [lastClientMessageId_generateClientMessageId, hid] at hiff habove
      rw [lastClientMessageId_generateClientMessageId] at hdvd
      constructor
      · constructor
        · rintro ⟨-, -, hrest⟩
          exact ⟨hle, hiff.mp hrest⟩
        · rintro ⟨-, hrest⟩
          refine ⟨⟨hflag, hdvd⟩, fun call hcall => ?_, hiff.mpr hrest⟩
          rw [hid]
          exact habove hrest call hcall
      · rintro ⟨-, hrest⟩ call hcall
        rcases List.mem_cons.mp hcall with rfl | hcall
        · show _ < (session.generateClientMessageId now.value).1.toInt
          omega
        · have hcallAbove := habove hrest call hcall
          omega
    · have hflag : ¬(session.generateClientMessageId now.value).2.1 = false := by
        rw [monotonityViolated_iff]
        exact hle
      constructor
      · constructor
        · rintro ⟨⟨hfalse, -⟩, -⟩
          exact absurd hfalse hflag
        · rintro ⟨hle', -⟩
          exact absurd hle' hle
      · rintro ⟨hle', -⟩
        exact absurd hle' hle

/-- **The message ids of a new session are in order exactly for spaced readings.** -/
theorem generateClientMessageIds_inOrder_iff (sessionId : BitVec 64) (readings : List ClockReading) :
    InOrder ((initWithSessionId sessionId).generateClientMessageIds readings) ↔ Spaced readings :=
  have hlast : 4 ∣ (initWithSessionId sessionId).lastClientMessageId.toInt := Int.dvd_zero 4
  (inOrder_iff_spacedAfter hlast readings).1

/-- Three calls within one tick: the third one finds the clock behind the last id, and hands out the first id again. -/
theorem threeCalls_oneTick :
    ∃ readings : List ClockReading,
      (readings.Pairwise fun now now' => now.value.toInt ≤ now'.value.toInt) ∧
        (initWithSessionId 1).generateClientMessageIds readings =
          [(0x6553f10000000000, false), (0x6553f10000000004, false), (0x6553f10000000000, true)] ∧
        ¬InOrder ((initWithSessionId 1).generateClientMessageIds readings) :=
  ⟨List.replicate 3 ⟨0x6553f10000000000, by decide⟩, by decide, by decide, by decide⟩

end TelegramClient.MtProto
