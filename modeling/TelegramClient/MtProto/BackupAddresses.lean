import TelegramClient.MtProto.InternalMessage

/-!
# Backup addresses

The addresses of datacenters that a client finds out of band (`MTIPDataDecode`), each group of them for the phone numbers
of some rules.

* `includeIp` : what the rules say about a phone number;
* `includeIp_applying_iff` : **when the rules that do not apply change nothing**.
-/

namespace TelegramClient.MtProto
open List

structure MTBackupDatacenterAddress where
  datacenterId : BitVec 32
  ip : String
  port : BitVec 32
  secret : Option Bytes
deriving DecidableEq

structure MTBackupDatacenterData where
  timestamp : BitVec 32
  expirationDate : BitVec 32
  addressList : List MTBackupDatacenterAddress
deriving DecidableEq

/-! ## The rules -/

/-- `hasPrefix:`, which no string has for the empty string. -/
def hasPrefix (string start : List Char) : Bool := !start.isEmpty && start.isPrefixOf string

def ruleDecision (phoneNumber rule : List Char) : Bool :=
  if rule.length == 0 then true
  else if rule.head? == some '+' && hasPrefix phoneNumber (rule.drop 1) then true
  else if rule.head? == some '-' && hasPrefix phoneNumber (rule.drop 1) then false
  else false

/-- The loop over the rules; `nil` has none. -/
def includeIp (phonePrefixRules : Option (List Char)) (phoneNumber : List Char) : Bool :=
  match phonePrefixRules with
  | none => true
  | some phonePrefixRules =>
    (phonePrefixRules.splitOn ',').foldl (fun _ rule => ruleDecision phoneNumber rule) true

/-! ## The answer -/

/-- `%d.%d.%d.%d`. -/
def ipString (ip : BitVec 32) : String :=
  ".".intercalate ([24, 16, 8, 0].map fun shift => toString ((ip >>> shift) &&& 0xFF).toNat)

def readAddress (datacenterId : BitVec 32) : ReadM MTBackupDatacenterAddress := do
  let ip ← readInt32
  let port ← readInt32
  return ⟨datacenterId, ipString ip, port, none⟩

def readRuleAddress (datacenterId : BitVec 32) : ReadM MTBackupDatacenterAddress := do
  let signature ← readInt32
  if signature = 0xd433ad73 then readAddress datacenterId
  else if signature = 0x37982646 then do
    let ip ← readInt32
    let port ← readInt32
    let secret ← readTLBytes
    return ⟨datacenterId, ipString ip, port, some secret⟩
  else ReadM.fail

/-- The addresses of one group that are included. -/
def readRule (phoneNumber : List Char) : ReadM (List MTBackupDatacenterAddress) := do
  let signature ← readInt32
  if signature ≠ 0x4679b65f then ReadM.fail
  else do
    let phonePrefixRules ← readTLString
    let datacenterId ← readInt32
    let ruleAddressList ← readVector (readRuleAddress datacenterId)
    return if includeIp (phonePrefixRules.map String.toList) phoneNumber then ruleAddressList else []

def readBackupData (phoneNumber : List Char) : ReadM MTBackupDatacenterData := do
  let signature ← readInt32
  if signature = 0xd997c3c5 then do
    let timestamp ← readInt32
    let expirationDate ← readInt32
    let datacenterId ← readInt32
    let vectorSignature ← readInt32
    if vectorSignature ≠ 0x1cb5c415 then ReadM.fail
    else do
      let addressList ← readVector (readAddress datacenterId)
      return ⟨timestamp, expirationDate, addressList⟩
  else if signature = 0x5a592a6c then do
    let timestamp ← readInt32
    let expirationDate ← readInt32
    let addressLists ← readVector (readRule phoneNumber)
    return ⟨timestamp, expirationDate, addressLists.flatten⟩
  else ReadM.fail

/-- `decrypt_TL_data` is a parameter. No phone number is as good as an empty one. -/
def mtIPDataDecode (decryptTLData : Bytes → Option Bytes) (data : Bytes) (phoneNumber : List Char) :
    Except Fault (Option MTBackupDatacenterData) :=
  match decryptTLData (data.take 256) with
  | none => .ok none
  | some result =>
    match (readBackupData phoneNumber).run ⟨result, 0⟩ with
    | .ok (data, _) => .ok (some data)
    | .error .failed => .ok none
    | .error .raised => .error .raised

/-! ## Rules that do not apply -/

section
variable (phoneNumber : List Char)

/-- The rule is empty, or its prefix is one of the number. -/
def Applies (rule : List Char) : Prop :=
  rule = [] ∨ (rule.head? = some '+' ∨ rule.head? = some '-') ∧ hasPrefix phoneNumber (rule.drop 1) = true

instance (rule : List Char) : Decidable (Applies phoneNumber rule) := inferInstanceAs (Decidable (_ ∨ _))

def joinRules (rules : List (List Char)) : List Char := [','].intercalate rules

def applyingRules (rules : List (List Char)) : List (List Char) := rules.filter fun rule => Applies phoneNumber rule

variable {phoneNumber}

theorem ruleDecision_iff (rule : List Char) :
    ruleDecision phoneNumber rule = true ↔ Applies phoneNumber rule ∧ rule.head? ≠ some '-' := by
  cases rule with
  | nil => simp [ruleDecision, Applies]
  | cons sign start =>
    unfold ruleDecision Applies
    by_cases hplus : sign = '+'
    · subst hplus
      simp
    · by_cases hminus : sign = '-'
      · subst hminus
        simp
      · simp [hplus, hminus]

/-- **The last rule decides.** -/
theorem includeIp_join {rules : List (List Char)} (hne : rules ≠ []) (hcommas : ∀ rule ∈ rules, ',' ∉ rule) :
    includeIp (some (joinRules rules)) phoneNumber = ruleDecision phoneNumber (rules.getLast hne) := by
  have hsplit : (joinRules rules).splitOn ',' = rules := splitOn_intercalate ',' hcommas hne
  have hlast : rules.dropLast ++ [rules.getLast hne] = rules := dropLast_append_getLast hne
  show ((joinRules rules).splitOn ',').foldl _ true = _
  rw [hsplit]
  conv => lhs; rw [← hlast]
  rw [foldl_append, foldl_cons, foldl_nil]

/-- The last rule applies, or the last one that does is a `-` rule. -/
def LastRuleAgrees (phoneNumber : List Char) (rules : List (List Char)) : Prop :=
  (∃ rule, rules.getLast? = some rule ∧ Applies phoneNumber rule) ∨
    ∃ rule, (applyingRules phoneNumber rules).getLast? = some rule ∧ rule.head? = some '-'

/-- **The rules that do not apply change nothing exactly where the last rule applies, or a `-` rule is the last to
apply.** -/
theorem includeIp_applying_iff (phoneNumber : List Char) (rules : List (List Char)) (hcommas : ∀ rule ∈ rules, ',' ∉ rule)
    (happlies : ∃ rule ∈ rules, Applies phoneNumber rule) :
    includeIp (some (joinRules (applyingRules phoneNumber rules))) phoneNumber =
        includeIp (some (joinRules rules)) phoneNumber ↔ LastRuleAgrees phoneNumber rules := by
  obtain ⟨rule, hrule, hrules⟩ := happlies
  have hne : rules ≠ [] := ne_nil_of_mem hrule
  have hmem : rule ∈ applyingRules phoneNumber rules := mem_filter.mpr ⟨hrule, decide_eq_true hrules⟩
  have hneApplying : applyingRules phoneNumber rules ≠ [] := ne_nil_of_mem hmem
  have hcommasApplying : ∀ rule ∈ applyingRules phoneNumber rules, ',' ∉ rule :=
    fun rule h => hcommas rule (mem_filter.mp h).1
  rw [includeIp_join hneApplying hcommasApplying, includeIp_join hne hcommas]
  set last := rules.getLast hne with hlast
  set lastApplying := (applyingRules phoneNumber rules).getLast hneApplying with hlastApplying
  have happlying : Applies phoneNumber lastApplying :=
    of_decide_eq_true (mem_filter.mp (getLast_mem hneApplying)).2
  have hagrees : LastRuleAgrees phoneNumber rules ↔ Applies phoneNumber last ∨ lastApplying.head? = some '-' := by
    simp only [LastRuleAgrees, getLast?_eq_some_getLast hne, getLast?_eq_some_getLast hneApplying,
      Option.some.injEq, exists_eq_left', hlast, hlastApplying]
  rw [hagrees, Bool.eq_iff_iff, ruleDecision_iff, ruleDecision_iff]
  by_cases hlastApplies : Applies phoneNumber last
  · have hsame : lastApplying = last := by
      have hsplit : rules.dropLast ++ [last] = rules := dropLast_append_getLast hne
      have hfilter : applyingRules phoneNumber rules = applyingRules phoneNumber rules.dropLast ++ [last] := by
        rw [applyingRules, applyingRules]
        conv => lhs; rw [← hsplit]
        rw [filter_append]
        simp [hlastApplies]
      rw [hlastApplying]
      simp only [hfilter, getLast_append_singleton]
    simp [hsame, hlastApplies]
  · simp [hlastApplies, happlying]

theorem includeIp_applying_iff_two :
    includeIp (some (joinRules (applyingRules ['7', '9'] [['+', '1'], ['+', '7']]))) ['7', '9'] =
        includeIp (some (joinRules [['+', '1'], ['+', '7']])) ['7', '9'] ↔
      LastRuleAgrees ['7', '9'] [['+', '1'], ['+', '7']] :=
  includeIp_applying_iff ['7', '9'] [['+', '1'], ['+', '7']] (by decide) ⟨['+', '7'], by decide, by decide⟩

/-- `+7,+1` excludes the addresses for a number that begins with 7. -/
theorem other_prefix_excludes :
    let rules := [['+', '7'], ['+', '1']]
    (∃ rule ∈ rules, Applies ['7', '9'] rule) ∧ ¬Applies ['7', '9'] ['+', '1'] ∧
      includeIp (some (joinRules (applyingRules ['7', '9'] rules))) ['7', '9'] = true ∧
      includeIp (some (joinRules rules)) ['7', '9'] = false := by
  decide

end

end TelegramClient.MtProto
