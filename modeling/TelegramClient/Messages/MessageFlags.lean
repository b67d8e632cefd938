import Mathlib.Data.List.Induction
import TelegramClient.Database.PeerIds

/-!
# Flags of a message

Six flags and the layer of a message are fields of one 64-bit number (`TGMessage.mm`).

* `setFlag`, `hasFlag`, `setForceReply`, `setLayer`, `messageLayer` : the accessors;
* `fieldsIndependent_iff` : **it holds of all calls for which the last call of that kind finds nothing to clear**.
-/

namespace TelegramClient.Messages
open List hiding get
open Database

/-! ## `TGMessageFlags` -/

def messageFlagBroadcast : BitVec 64 := 1

def messageFlagLayerMask : BitVec 64 := 2 ||| 4 ||| 8 ||| 16 ||| 32

def messageFlagContainsMention : BitVec 64 := 64

def messageFlagForceReply : BitVec 64 := 1 <<< 7

def messageFlagLayerMaskExtended : BitVec 64 := 0xff <<< 8

def messageFlagSilent : BitVec 64 := 1 <<< 16

def messageFlagEdited : BitVec 64 := 1 <<< 17

def messageFlagContainsUnseenMention : BitVec 64 := 1 <<< 18

/-! ## The accessors -/

def setFlag (mask flags : BitVec 64) (value : Bool) : BitVec 64 := if value then flags ||| mask else flags &&& ~~~mask

def hasFlag (mask flags : BitVec 64) : Bool := flags &&& mask != 0

def setIsBroadcast (flags : BitVec 64) (isBroadcast : Bool) : BitVec 64 := setFlag messageFlagBroadcast flags isBroadcast

def isBroadcast (flags : BitVec 64) : Bool := hasFlag messageFlagBroadcast flags

/-- `setForceReply:`. To reset the flag, the mask is not complemented. -/
def setForceReply (flags : BitVec 64) (forceReply : Bool) : BitVec 64 :=
  if forceReply then flags ||| messageFlagForceReply else flags &&& messageFlagForceReply

def forceReply (flags : BitVec 64) : Bool := hasFlag messageFlagForceReply flags

def setIsSilent (flags : BitVec 64) (isSilent : Bool) : BitVec 64 := setFlag messageFlagSilent flags isSilent

def isSilent (flags : BitVec 64) : Bool := hasFlag messageFlagSilent flags

def setIsEdited (flags : BitVec 64) (isEdited : Bool) : BitVec 64 := setFlag messageFlagEdited flags isEdited

def isEdited (flags : BitVec 64) : Bool := hasFlag messageFlagEdited flags

def setContainsMention (flags : BitVec 64) (containsMention : Bool) : BitVec 64 :=
  setFlag messageFlagContainsMention flags containsMention

def containsMention (flags : BitVec 64) : Bool := hasFlag messageFlagContainsMention flags

def setContainsUnseenMention (flags : BitVec 64) (containsUnseenMention : Bool) : BitVec 64 :=
  setFlag messageFlagContainsUnseenMention flags containsUnseenMention

def containsUnseenMention (flags : BitVec 64) : Bool := hasFlag messageFlagContainsUnseenMention flags

/-- `layerLow` of `setLayer:`. -/
def layerLow (layer : Nat) : BitVec 32 := if (BitVec.ofNat 32 layer).slt 31 then BitVec.ofNat 32 layer else 31

def layerHigh (layer : Nat) : BitVec 32 := BitVec.ofNat 32 layer - layerLow layer

/-- The bits of the layer in the lower part of its field. -/
def layerLowBits (layer : Nat) : BitVec 64 := ((layerLow layer &&& (1 ||| 2 ||| 4 ||| 8 ||| 16)) <<< 1).signExtend 64

def layerHighBits (layer : Nat) : BitVec 64 := ((layerHigh layer &&& 0xff) <<< 8).signExtend 64

def setLayer (flags : BitVec 64) (layer : Nat) : BitVec 64 :=
  let flags := (flags &&& ~~~messageFlagLayerMask) ||| layerLowBits layer
  (flags &&& ~~~messageFlagLayerMaskExtended) ||| layerHighBits layer

def layerFromFlags (flags : BitVec 64) : Nat :=
  let layerLow := ((flags &&& messageFlagLayerMask).sshiftRight 1).truncate 32
  let layerHigh := ((flags &&& messageFlagLayerMaskExtended).sshiftRight 8).truncate 32
  let value := layerLow + layerHigh
  if value.slt 1 then 1 else (value.signExtend 64).toNat

/-- `layer` of a message in the chat `cid`. -/
def messageLayer (cid : Int) (flags : BitVec 64) : Nat :=
  if !peerIdIsSecretChat cid then 70
  else
    let value := layerFromFlags flags
    if value < 1 then 1 else value

/-! ## Calls -/

inductive MessageFlag
  | isBroadcast
  | containsMention
  | forceReply
  | isSilent
  | isEdited
  | containsUnseenMention
deriving DecidableEq

namespace MessageFlag

def mask : MessageFlag → BitVec 64
  | isBroadcast => messageFlagBroadcast
  | containsMention => messageFlagContainsMention
  | forceReply => messageFlagForceReply
  | isSilent => messageFlagSilent
  | isEdited => messageFlagEdited
  | containsUnseenMention => messageFlagContainsUnseenMention

def set : MessageFlag → BitVec 64 → Bool → BitVec 64
  | isBroadcast => setIsBroadcast
  | containsMention => setContainsMention
  | forceReply => setForceReply
  | isSilent => setIsSilent
  | isEdited => setIsEdited
  | containsUnseenMention => setContainsUnseenMention

def get : MessageFlag → BitVec 64 → Bool
  | isBroadcast => Messages.isBroadcast
  | containsMention => Messages.containsMention
  | forceReply => Messages.forceReply
  | isSilent => Messages.isSilent
  | isEdited => Messages.isEdited
  | containsUnseenMention => Messages.containsUnseenMention

end MessageFlag

abbrev MessageLayer := {layer : Nat // 1 ≤ layer ∧ layer ≤ 286}

inductive FlagCall
  | set (flag : MessageFlag) (value : Bool)
  | setLayer (layer : MessageLayer)
deriving DecidableEq

namespace FlagCall

def run (flags : BitVec 64) : FlagCall → BitVec 64
  | set flag value => flag.set flags value
  | setLayer layer => Messages.setLayer flags layer

def resetForceReply : FlagCall := set .forceReply false

def givenFlag (flag : MessageFlag) : FlagCall → Option Bool
  | set flag' value => if flag' = flag then some value else none
  | setLayer _ => none

def givenLayer : FlagCall → Option Nat
  | set _ _ => none
  | setLayer layer => some layer

def touched : FlagCall → BitVec 64
  | set flag _ => flag.mask
  | setLayer _ => messageFlagLayerMask ||| messageFlagLayerMaskExtended

end FlagCall

def runCalls (flags : BitVec 64) (calls : List FlagCall) : BitVec 64 := calls.foldl FlagCall.run flags

def lastFlag (flag : MessageFlag) (calls : List FlagCall) : Option Bool := (calls.filterMap (FlagCall.givenFlag flag)).getLast?

def lastLayer (calls : List FlagCall) : Option Nat := (calls.filterMap FlagCall.givenLayer).getLast?

def touched (calls : List FlagCall) : BitVec 64 := calls.foldr (fun call bits => call.touched ||| bits) 0

/-- Each field has what it was given last, and the bits of other fields are as they were. -/
structure FieldsIndependent (cid : Int) (flags : BitVec 64) (calls : List FlagCall) : Prop where
  flag : ∀ flag : MessageFlag, flag.get (runCalls flags calls) = (lastFlag flag calls).getD (flag.get flags)
  layer : messageLayer cid (runCalls flags calls) = (lastLayer calls).getD (messageLayer cid flags)
  rest : runCalls flags calls &&& ~~~touched calls = flags &&& ~~~touched calls

/-- `setForceReply` with `false` between `before` and `after` clears nothing: the other flags were false and the layer
was 1, the flag was never raised, and the other bits are zero. -/
structure ClearsNothing (cid : Int) (flags : BitVec 64) (before after : List FlagCall) : Prop where
  flag : ∀ flag ≠ MessageFlag.forceReply,
    (lastFlag flag after).isSome ∨ (lastFlag flag before).getD (flag.get flags) = false
  forceReply : (lastFlag .forceReply after).isSome ∨ forceReply flags = false ∧ FlagCall.set .forceReply true ∉ before
  layer : (lastLayer after).isSome ∨ (lastLayer before).getD (messageLayer cid flags) = 1
  rest : flags &&& ~~~touched (before ++ .resetForceReply :: after) = 0

/-! ## Bits under masks -/

section
variable {w : Nat} {word mask mask' value : BitVec w}

theorem or_and_of_disjoint (h : mask &&& mask' = 0) : (word ||| mask) &&& mask' = word &&& mask' := by
  rw [BitVec.and_or_distrib_right, h]
  exact BitVec.or_zero

theorem and_not_and_of_disjoint (h : mask &&& mask' = 0) : word &&& ~~~mask &&& mask' = word &&& mask' := by
  ext i hi
  have hbit := congrArg (fun x => x[i]) h
  simp only [BitVec.getElem_and, BitVec.getElem_not] at hbit ⊢
  cases hmask : mask[i] <;> cases hmask' : mask'[i] <;> simp_all

section
variable (h : value &&& ~~~mask = 0)
include h

theorem and_of_subset : value &&& mask = value := by
  ext i hi
  have hbit := congrArg (fun x => x[i]) h
  simp only [BitVec.getElem_and, BitVec.getElem_not] at hbit ⊢
  cases hmask : mask[i] <;> cases hval : value[i] <;> simp_all

theorem and_eq_zero_of_subset (hmask : mask &&& mask' = 0) : value &&& mask' = 0 := by
  rw [← and_of_subset h, BitVec.and_assoc, hmask]
  exact BitVec.and_zero

theorem put_and_self : (word &&& ~~~mask ||| value) &&& mask = value := by
  rw [BitVec.and_or_distrib_right, BitVec.and_assoc, BitVec.not_and_self, and_of_subset h]
  simp

theorem put_and_of_disjoint (hmask : mask &&& mask' = 0) : (word &&& ~~~mask ||| value) &&& mask' = word &&& mask' := by
  rw [or_and_of_disjoint (and_eq_zero_of_subset h hmask), and_not_and_of_disjoint hmask]

end

end

/-! ## One call -/

variable {mask : BitVec 64} (flags : BitVec 64)

theorem setFlag_and_of_disjoint {mask' : BitVec 64} (value : Bool) (h : mask &&& mask' = 0) :
    setFlag mask flags value &&& mask' = flags &&& mask' := by
  cases value with
  | true => exact or_and_of_disjoint h
  | false => exact and_not_and_of_disjoint h

theorem hasFlag_setFlag (hmask : mask ≠ 0) (flags : BitVec 64) (value : Bool) :
    hasFlag mask (setFlag mask flags value) = value := by
  cases value with
  | true =>
    show ((flags ||| mask) &&& mask != 0) = true
    rw [BitVec.and_or_distrib_right, BitVec.and_self, bne_iff_ne]
    intro h
    exact hmask (BitVec.or_eq_zero_iff.mp h).2
  | false =>
    show (flags &&& ~~~mask &&& mask != 0) = false
    rw [BitVec.and_assoc, BitVec.not_and_self]
    simp

variable (flag : MessageFlag) (layer : MessageLayer)

theorem layerBits :
    layerLowBits layer &&& ~~~messageFlagLayerMask = 0 ∧ layerHighBits layer &&& ~~~messageFlagLayerMaskExtended = 0 ∧
      layerFromFlags (layerLowBits layer ||| layerHighBits layer) = layer := by
  have htable : ∀ layer : Fin 287, 1 ≤ layer.val →
      layerLowBits layer &&& ~~~messageFlagLayerMask = 0 ∧ layerHighBits layer &&& ~~~messageFlagLayerMaskExtended = 0 ∧
        layerFromFlags (layerLowBits layer ||| layerHighBits layer) = layer := by
    decide +kernel
  exact htable ⟨layer, Nat.lt_succ_of_le layer.2.2⟩ layer.2.1

theorem setLayer_and_of_disjoint (h : (messageFlagLayerMask ||| messageFlagLayerMaskExtended) &&& mask = 0) :
    setLayer flags layer &&& mask = flags &&& mask := by
  rw [BitVec.and_or_distrib_right] at h
  obtain ⟨hlow, hhigh⟩ := BitVec.or_eq_zero_iff.mp h
  rw [setLayer, put_and_of_disjoint (layerBits layer).2.1 hhigh, put_and_of_disjoint (layerBits layer).1 hlow]

variable {cid : Int}

theorem messageLayer_congr {flags flags' : BitVec 64}
    (hlow : flags &&& messageFlagLayerMask = flags' &&& messageFlagLayerMask)
    (hhigh : flags &&& messageFlagLayerMaskExtended = flags' &&& messageFlagLayerMaskExtended) :
    messageLayer cid flags = messageLayer cid flags' := by
  rw [messageLayer, messageLayer, layerFromFlags, layerFromFlags, hlow, hhigh]

theorem messageLayer_setLayer (hcid : peerIdIsSecretChat cid = true) (flags : BitVec 64) (layer : MessageLayer) :
    messageLayer cid (setLayer flags layer) = layer := by
  obtain ⟨hlow, hhigh, hlayer⟩ := layerBits layer
  have hlow' : setLayer flags layer &&& messageFlagLayerMask = (layerLowBits layer ||| layerHighBits layer) &&& messageFlagLayerMask := by
    rw [setLayer, put_and_of_disjoint hhigh (by decide), put_and_self hlow,
      or_and_of_disjoint (and_eq_zero_of_subset hhigh (by decide)), and_of_subset hlow]
  have hhigh' : setLayer flags layer &&& messageFlagLayerMaskExtended =
      (layerLowBits layer ||| layerHighBits layer) &&& messageFlagLayerMaskExtended := by
    rw [setLayer, put_and_self hhigh, BitVec.or_comm, or_and_of_disjoint (and_eq_zero_of_subset hlow (by decide)),
      and_of_subset hhigh]
  rw [messageLayer_congr hlow' hhigh', messageLayer, hcid, hlayer]
  have := layer.2.1
  simp
  omega

namespace MessageFlag

variable (flag : MessageFlag)

theorem mask_ne_zero : flag.mask ≠ 0 := by cases flag <;> decide

theorem mask_disjoint {flag flag' : MessageFlag} (h : flag ≠ flag') : flag.mask &&& flag'.mask = 0 := by
  revert h
  cases flag <;> cases flag' <;> decide

theorem layer_disjoint :
    (messageFlagLayerMask ||| messageFlagLayerMaskExtended) &&& flag.mask = 0 ∧ flag.mask &&& messageFlagLayerMask = 0 ∧
      flag.mask &&& messageFlagLayerMaskExtended = 0 := by
  cases flag <;> decide

theorem get_eq (flags : BitVec 64) : flag.get flags = hasFlag flag.mask flags := by cases flag <;> rfl

theorem get_congr {flag : MessageFlag} {flags flags' : BitVec 64} (h : flags &&& flag.mask = flags' &&& flag.mask) :
    flag.get flags = flag.get flags' := by
  rw [get_eq, get_eq, hasFlag, hasFlag, h]

end MessageFlag

namespace FlagCall

theorem set_eq {flag : MessageFlag} {value : Bool} (h : set flag value ≠ resetForceReply) (flags : BitVec 64) :
    flag.set flags value = setFlag flag.mask flags value := by
  cases flag with
  | forceReply =>
    cases value with
    | true => rfl
    | false => exact absurd rfl h
  | _ => rfl

variable {call : FlagCall}

/-- **What one call leaves as it is.** -/
theorem run_and_of_disjoint (h : call ≠ resetForceReply) (flags : BitVec 64)
    (hmask : call.touched &&& mask = 0) : call.run flags &&& mask = flags &&& mask := by
  cases call with
  | set flag value =>
    show flag.set flags value &&& mask = _
    rw [set_eq h]
    exact setFlag_and_of_disjoint flags value hmask
  | setLayer layer => exact setLayer_and_of_disjoint flags layer hmask

/-- **What one call makes of a flag.** -/
theorem get_run (h : call ≠ resetForceReply) (flags : BitVec 64) (flag : MessageFlag) :
    flag.get (call.run flags) = (call.givenFlag flag).getD (flag.get flags) := by
  cases call with
  | set flag' value =>
    by_cases hflag : flag' = flag
    · rw [givenFlag, if_pos hflag, ← hflag]
      show flag'.get (flag'.set flags value) = value
      rw [set_eq h, MessageFlag.get_eq, hasFlag_setFlag flag'.mask_ne_zero]
    · rw [givenFlag, if_neg hflag]
      exact MessageFlag.get_congr (run_and_of_disjoint h flags (MessageFlag.mask_disjoint hflag))
  | setLayer layer => exact MessageFlag.get_congr (run_and_of_disjoint h flags flag.layer_disjoint.1)

/-- **What one call makes of the layer.** -/
theorem layer_run (h : call ≠ resetForceReply) (hcid : peerIdIsSecretChat cid = true) (flags : BitVec 64) :
    messageLayer cid (call.run flags) = call.givenLayer.getD (messageLayer cid flags) := by
  cases call with
  | set flag value =>
    obtain ⟨-, hlow, hhigh⟩ := flag.layer_disjoint
    exact messageLayer_congr (run_and_of_disjoint h flags hlow) (run_and_of_disjoint h flags hhigh)
  | setLayer layer => exact messageLayer_setLayer hcid flags layer

end FlagCall

/-! ## All calls -/

variable (before : List FlagCall) (call : FlagCall) (after : List FlagCall)

theorem runCalls_append : runCalls flags (before ++ after) = runCalls (runCalls flags before) after := foldl_append

theorem lastFlag_append (before after : List FlagCall) :
    lastFlag flag (before ++ after) = (lastFlag flag after).or (lastFlag flag before) := by
  rw [lastFlag, filterMap_append, getLast?_append]
  rfl

theorem lastLayer_append : lastLayer (before ++ after) = (lastLayer after).or (lastLayer before) := by
  rw [lastLayer, filterMap_append, getLast?_append]
  rfl

theorem lastFlag_singleton (call : FlagCall) : lastFlag flag [call] = call.givenFlag flag := by
  rw [lastFlag, filterMap_cons]
  cases call.givenFlag flag <;> rfl

theorem lastLayer_singleton : lastLayer [call] = call.givenLayer := by
  rw [lastLayer, filterMap_cons]
  cases call.givenLayer <;> rfl

theorem touched_append : touched (before ++ after) = touched before ||| touched after := by
  induction before with
  | nil => exact BitVec.zero_or.symm
  | cons call before ih =>
    show call.touched ||| touched (before ++ after) = call.touched ||| touched before ||| touched after
    rw [ih, BitVec.or_assoc]

theorem touched_singleton : touched [call] = call.touched := BitVec.or_zero

theorem and_not_or_self (a b : BitVec 64) : a &&& ~~~(a ||| b) = 0 ∧ b &&& ~~~(a ||| b) = 0 := by
  constructor
  · rw [BitVec.not_or, ← BitVec.and_assoc, BitVec.and_not_self]
    exact BitVec.zero_and
  · rw [BitVec.or_comm, BitVec.not_or, ← BitVec.and_assoc, BitVec.and_not_self]
    exact BitVec.zero_and

/-- **Without the call that clears the other fields**, the fields are independent. -/
theorem fieldsIndependent_of_good (hcid : peerIdIsSecretChat cid = true) (flags : BitVec 64) {calls : List FlagCall}
    (h : FlagCall.resetForceReply ∉ calls) : FieldsIndependent cid flags calls := by
  induction calls using List.reverseRecOn with
  | nil => exact ⟨fun _ => rfl, rfl, rfl⟩
  | append_singleton calls call ih =>
    rw [mem_append, mem_singleton] at h
    push Not at h
    obtain ⟨hflag, hlayer, hrest⟩ := ih h.1
    have hcall : call ≠ .resetForceReply := Ne.symm h.2
    refine ⟨fun flag => ?_, ?_, ?_⟩
    · rw [runCalls_append, lastFlag_append, lastFlag_singleton, Option.getD_or, ← hflag]
      exact FlagCall.get_run hcall _ flag
    · rw [runCalls_append, lastLayer_append, lastLayer_singleton, Option.getD_or, ← hlayer]
      exact FlagCall.layer_run hcall hcid _
    · obtain ⟨hbefore, hself⟩ := and_not_or_self (touched calls) call.touched
      rw [runCalls_append, touched_append, touched_singleton]
      show call.run (runCalls flags calls) &&& _ = _
      rw [FlagCall.run_and_of_disjoint hcall _ hself, BitVec.not_or, ← BitVec.and_assoc, hrest, BitVec.and_assoc]

/-- A flag that is raised for a reply is never cleared. -/
theorem forceReply_run :
    forceReply (call.run flags) = false ↔ forceReply flags = false ∧ call ≠ .set .forceReply true := by
  by_cases hreset : call = .resetForceReply
  · rw [hreset]
    have hkept : forceReply (FlagCall.run flags .resetForceReply) = forceReply flags := by
      show (flags &&& messageFlagForceReply &&& messageFlagForceReply != 0) = _
      rw [BitVec.and_assoc, BitVec.and_self]
      rfl
    rw [hkept]
    exact (and_iff_left (by decide)).symm
  · show MessageFlag.forceReply.get _ = false ↔ MessageFlag.forceReply.get flags = false ∧ _
    rw [FlagCall.get_run hreset]
    cases call with
    | set flag value =>
      by_cases hflag : flag = .forceReply
      · cases value with
        | true => simp [FlagCall.givenFlag, hflag]
        | false => exact absurd (by rw [hflag]; rfl) hreset
      · simp [FlagCall.givenFlag, hflag]
    | setLayer layer => simp [FlagCall.givenFlag]

theorem forceReply_runCalls (calls : List FlagCall) :
    forceReply (runCalls flags calls) = false ↔ forceReply flags = false ∧ FlagCall.set .forceReply true ∉ calls := by
  induction calls generalizing flags with
  | nil => simp [runCalls]
  | cons call calls ih =>
    show forceReply (runCalls (call.run flags) calls) = false ↔ _
    rw [ih, forceReply_run, mem_cons, not_or, and_assoc, ne_comm]

theorem getD_eq_getD_iff {α : Type} {o : Option α} {a b : α} : o.getD a = o.getD b ↔ o.isSome ∨ b = a := by
  cases o with
  | none => simp [eq_comm]
  | some a => simp

/-! ## The last call that clears the other fields -/

section
variable {cid : Int} (hcid : peerIdIsSecretChat cid = true) (flags : BitVec 64) {before after : List FlagCall}
  (hafter : FlagCall.resetForceReply ∉ after)
include hcid hafter

theorem fieldsIndependent_after : FieldsIndependent cid (runCalls flags before &&& messageFlagForceReply) after :=
  fieldsIndependent_of_good hcid _ hafter

omit hcid hafter in
theorem runCalls_split : runCalls flags (before ++ .resetForceReply :: after) =
    runCalls (runCalls flags before &&& messageFlagForceReply) after := runCalls_append flags before _

omit hcid hafter in
theorem lastFlag_split (flag : MessageFlag) (value : Bool) :
    (lastFlag flag (before ++ .resetForceReply :: after)).getD value =
      (lastFlag flag after).getD ((FlagCall.resetForceReply.givenFlag flag).getD ((lastFlag flag before).getD value)) := by
  have hsplit : before ++ .resetForceReply :: after = before ++ ([.resetForceReply] ++ after) := rfl
  rw [hsplit, lastFlag_append, lastFlag_append, lastFlag_singleton, Option.getD_or, Option.getD_or]

theorem flag_split_iff {flag : MessageFlag} (hne : flag ≠ .forceReply) :
    flag.get (runCalls flags (before ++ .resetForceReply :: after)) =
        (lastFlag flag (before ++ .resetForceReply :: after)).getD (flag.get flags) ↔
      (lastFlag flag after).isSome ∨ (lastFlag flag before).getD (flag.get flags) = false := by
  have hnone : FlagCall.resetForceReply.givenFlag flag = none := if_neg hne.symm
  have hfalse : flag.get (runCalls flags before &&& messageFlagForceReply) = false := by
    rw [MessageFlag.get_eq, hasFlag, BitVec.and_assoc]
    show (runCalls flags before &&& (MessageFlag.forceReply.mask &&& flag.mask) != 0) = false
    rw [MessageFlag.mask_disjoint hne.symm]
    simp
  rw [runCalls_split, (fieldsIndependent_after hcid flags hafter).flag, lastFlag_split, hnone, hfalse]
  exact getD_eq_getD_iff

theorem forceReply_split_iff : forceReply (runCalls flags (before ++ .resetForceReply :: after)) =
        (lastFlag .forceReply (before ++ .resetForceReply :: after)).getD (forceReply flags) ↔
      (lastFlag .forceReply after).isSome ∨ forceReply flags = false ∧ FlagCall.set .forceReply true ∉ before := by
  have hkept : MessageFlag.forceReply.get (runCalls flags before &&& messageFlagForceReply) =
      forceReply (runCalls flags before) := by
    show (runCalls flags before &&& messageFlagForceReply &&& messageFlagForceReply != 0) = _
    rw [BitVec.and_assoc, BitVec.and_self]
    rfl
  rw [runCalls_split, lastFlag_split, ← forceReply_runCalls, ← hkept, eq_comm (b := false)]
  show MessageFlag.forceReply.get _ = (lastFlag .forceReply after).getD false ↔ _
  rw [(fieldsIndependent_after hcid flags hafter).flag]
  exact getD_eq_getD_iff

theorem layer_split_iff : messageLayer cid (runCalls flags (before ++ .resetForceReply :: after)) =
        (lastLayer (before ++ .resetForceReply :: after)).getD (messageLayer cid flags) ↔
      (lastLayer after).isSome ∨ (lastLayer before).getD (messageLayer cid flags) = 1 := by
  have hsplit : before ++ .resetForceReply :: after = before ++ ([.resetForceReply] ++ after) := rfl
  have hnone : FlagCall.resetForceReply.givenLayer = none := rfl
  have hlow : messageFlagForceReply &&& messageFlagLayerMask = 0 := by decide
  have hhigh : messageFlagForceReply &&& messageFlagLayerMaskExtended = 0 := by decide
  have hone : messageLayer cid (runCalls flags before &&& messageFlagForceReply) = 1 := by
    have hzero : messageLayer cid (runCalls flags before &&& messageFlagForceReply) = messageLayer cid 0 := by
      apply messageLayer_congr
      · rw [BitVec.and_assoc, hlow]
        simp
      · rw [BitVec.and_assoc, hhigh]
        simp
    rw [hzero, messageLayer, hcid]
    decide
  rw [runCalls_split, (fieldsIndependent_after hcid flags hafter).layer, hsplit, lastLayer_append, lastLayer_append,
    lastLayer_singleton, hnone, Option.or_none, Option.getD_or, hone]
  exact getD_eq_getD_iff

theorem rest_split_iff :
    runCalls flags (before ++ .resetForceReply :: after) &&& ~~~touched (before ++ .resetForceReply :: after) =
        flags &&& ~~~touched (before ++ .resetForceReply :: after) ↔
      flags &&& ~~~touched (before ++ .resetForceReply :: after) = 0 := by
  have htouched : touched (before ++ .resetForceReply :: after) =
      touched after ||| (touched before ||| messageFlagForceReply) := by
    rw [BitVec.or_comm, BitVec.or_assoc]
    exact touched_append before _
  have hcleared : messageFlagForceReply &&& ~~~(touched before ||| messageFlagForceReply) = 0 := (and_not_or_self _ _).2
  have hzero : runCalls flags (before ++ .resetForceReply :: after) &&& ~~~touched (before ++ .resetForceReply :: after) = 0 := by
    rw [runCalls_split, htouched, BitVec.not_or, ← BitVec.and_assoc, (fieldsIndependent_after hcid flags hafter).rest,
      BitVec.and_assoc, BitVec.and_assoc, BitVec.and_comm (~~~touched after), ← BitVec.and_assoc messageFlagForceReply, hcleared]
    simp
  rw [hzero, eq_comm]

theorem fieldsIndependent_split_iff :
    FieldsIndependent cid flags (before ++ .resetForceReply :: after) ↔ ClearsNothing cid flags before after := by
  constructor
  · intro hfields
    exact ⟨fun flag hne => (flag_split_iff hcid flags hafter hne).mp (hfields.flag flag),
      (forceReply_split_iff hcid flags hafter).mp (hfields.flag .forceReply), (layer_split_iff hcid flags hafter).mp hfields.layer,
      (rest_split_iff hcid flags hafter).mp hfields.rest⟩
  · intro hclears
    refine ⟨fun flag => ?_, (layer_split_iff hcid flags hafter).mpr hclears.layer,
      (rest_split_iff hcid flags hafter).mpr hclears.rest⟩
    by_cases hne : flag = .forceReply
    · rw [hne]
      exact (forceReply_split_iff hcid flags hafter).mpr hclears.forceReply
    · exact (flag_split_iff hcid flags hafter hne).mpr (hclears.flag flag hne)

end

/-- **The fields are independent** exactly when the last call of `setForceReply` with `false` finds nothing to clear. -/
theorem fieldsIndependent_iff {cid : Int} (hcid : peerIdIsSecretChat cid = true) (flags : BitVec 64) (calls : List FlagCall) :
    FieldsIndependent cid flags calls ↔
      ∀ before after, calls = before ++ .resetForceReply :: after → FlagCall.resetForceReply ∉ after →
        ClearsNothing cid flags before after := by
  constructor
  · rintro hfields before after rfl hafter
    exact (fieldsIndependent_split_iff hcid flags hafter).mp hfields
  · intro hclears
    by_cases hmem : FlagCall.resetForceReply ∈ calls
    · obtain ⟨after, before, hreverse, hafter⟩ := eq_append_cons_of_mem (mem_reverse.mpr hmem)
      have hcalls : calls = before.reverse ++ .resetForceReply :: after.reverse := by
        rw [← reverse_reverse calls, hreverse, reverse_append, reverse_cons, append_assoc]
        rfl
      have hafter' : FlagCall.resetForceReply ∉ after.reverse := fun h => hafter (mem_reverse.mp h)
      rw [hcalls]
      exact (fieldsIndependent_split_iff hcid flags hafter').mpr (hclears _ _ hcalls hafter')
    · exact fieldsIndependent_of_good hcid flags hmem

/-- A message that is silent and has a layer. -/
theorem fieldsIndependent_iff_silent :
    FieldsIndependent (-2 ^ 31) 0 [.set .isSilent true, .setLayer ⟨73, by decide⟩] := by
  refine (fieldsIndependent_iff (by decide) 0 _).mpr fun before after h _ => ?_
  have hmem : FlagCall.resetForceReply ∈ before ++ .resetForceReply :: after := mem_append_right _ mem_cons_self
  rw [← h] at hmem
  exact absurd hmem (by decide)

/-- A silent message of which no reply is asked is not silent any more. -/
theorem resetForceReply_clears : ¬FieldsIndependent (-2 ^ 31) 0 [.set .isSilent true, .set .forceReply false] := by
  intro h
  have hsilent := h.flag .isSilent
  exact absurd hsilent (by decide)

end TelegramClient.Messages
