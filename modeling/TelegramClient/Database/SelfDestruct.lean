import TelegramClient.Database.StoredMessages
import TelegramClient.Lib.BatchLoops
import TelegramClient.Lib.Runs

/-!
# Self-destruct timers

Messages with a lifetime get an entry in the self-destruct table when their media is opened or when they are read, and
`processAndScheduleSelfDestruct` acts on the entries whose date has come: a message of a secret chat is removed, another
one is kept without its media.

* `initiateSelfDestructForMessageIds`, `scheduleSelfDestruct` : the entries;
* `EntriesMade`, `DestroysOnTime` : **every entry is made, and every run treats the messages that are due**;
* `selfDestruct_iff` : **the timers of a run are right exactly if this holds of its steps**.
-/

namespace TelegramClient.Database
open List
open KeyedTable (find_eq_some find_key)

/-! ## Messages whose time has come -/

structure SelfDestructEntry where
  mid : Int
  date : Int
deriving DecidableEq

structure SelfDestruct where
  messages : MessageTable
  selfDestruct : KeyedTable SelfDestructEntry.mid

namespace SelfDestruct

def loadMessageWithMid (s : SelfDestruct) (mid : Int) : Option TGMessage := s.messages.find mid

def dateOf (s : SelfDestruct) (mid : Int) : Option Int := (s.selfDestruct.find mid).map SelfDestructEntry.date

/-! ## Entries -/

/-- `INSERT OR IGNORE` for each message, with dates that are 32-bit numbers. -/
def insertEntries (midsWithLifetime : List (Int × Int)) (referenceDate : Int) (s : SelfDestruct) : SelfDestruct :=
  { s with selfDestruct := s.selfDestruct.insertAll (midsWithLifetime.map fun midWithLifetime =>
      ⟨midWithLifetime.1, toInt32 (referenceDate + midWithLifetime.2)⟩) }

/-- The messages that `initiateSelfDestructForMessageIds:` loads, 256 ids at a time. -/
def loadedMessages (messageIds : List Int) (s : SelfDestruct) : List TGMessage :=
  (nestedBatches 256 messageIds).flatMap fun mids => s.messages.rows.filter fun message => message.mid ∈ mids

/-! ## Runs -/

/-- `transactionRemoveMessagesInteractive:`, of messages of any chats. -/
def removeMessagesInteractive (mids : List Int) (s : SelfDestruct) : SelfDestruct :=
  { s with messages := s.messages.deleteWhere fun message => message.mid ∈ mids }

/-- `transactionUpdateMessages:` with one message, which is passed over when it is not stored. -/
def updateMessage (updated : TGMessage) (s : SelfDestruct) : SelfDestruct :=
  { s with messages := s.messages.modify updated.mid (fun message => message.updateTo updated) updated.mid_updateTo }

def updateMessages (messages : List TGMessage) (s : SelfDestruct) : SelfDestruct :=
  messages.foldl (fun s updated => s.updateMessage updated) s

def dueMids (currentDate : Int) (s : SelfDestruct) : List Int :=
  (s.selfDestruct.rows.filter fun entry => entry.date ≤ currentDate).map SelfDestructEntry.mid

/-- A stored message of a chat that is not secret. -/
def ordinaryMessage (s : SelfDestruct) (mid : Int) : Option TGMessage :=
  (s.loadMessageWithMid mid).filter fun message => !peerIdIsSecretChat message.cid

def processAndScheduleSelfDestruct (currentDate : Int) (s : SelfDestruct) : SelfDestruct :=
  let deleteMids := s.dueMids currentDate
  let secretMids := deleteMids.filter fun mid => (s.ordinaryMessage mid).isNone
  let updated := deleteMids.filterMap fun mid => (s.ordinaryMessage mid).map TGMessage.filterOutExpiredMedia
  -- all ids that are due, not only `secretMids`
  let s := if secretMids ≠ [] then s.removeMessagesInteractive deleteMids else s
  let s := s.updateMessages updated
  { s with selfDestruct := s.selfDestruct.deleteWhere fun entry => entry.mid ∈ deleteMids }

/-! ## Steps -/

/-- What happens, with the dates at which the entries are made and at which the run reads the clock. -/
inductive SelfDestructEvent where
  | initiateSelfDestructForMessageIds (messageIds : List Int) (currentDate runDate : Int)
  /-- Messages were read, or messages came that are read already. -/
  | scheduleSelfDestruct (midsWithLifetime : List (Int × Int)) (referenceDate runDate : Int)
  | processAndScheduleSelfDestruct (runDate : Int)

def SelfDestructEvent.runDate : SelfDestructEvent → Int
  | .initiateSelfDestructForMessageIds _ _ runDate | .scheduleSelfDestruct _ _ runDate
  | .processAndScheduleSelfDestruct runDate => runDate

def scheduled (s : SelfDestruct) : SelfDestructEvent → SelfDestruct
  | .initiateSelfDestructForMessageIds messageIds currentDate _ =>
    s.insertEntries (((s.loadedMessages messageIds).filter fun message => message.messageLifetime ≠ 0).map
      fun message => (message.mid, message.messageLifetime)) currentDate
  | .scheduleSelfDestruct midsWithLifetime referenceDate _ => s.insertEntries midsWithLifetime referenceDate
  | .processAndScheduleSelfDestruct _ => s

def stepSelfDestruct (s : SelfDestruct) (event : SelfDestructEvent) : SelfDestruct :=
  (s.scheduled event).processAndScheduleSelfDestruct event.runDate

/-! ## What the timers have to do -/

/-- Each stored message with a lifetime that is in the list has the entry that it had, or gets one. -/
def EntriesMade (s : SelfDestruct) (event : SelfDestructEvent) : Prop :=
  match event with
  | .initiateSelfDestructForMessageIds messageIds currentDate _ =>
    ∀ message ∈ s.messages.rows, message.mid ∈ messageIds → message.messageLifetime ≠ 0 →
      (s.scheduled event).dateOf message.mid =
        some ((s.dateOf message.mid).getD (currentDate + message.messageLifetime))
  | .scheduleSelfDestruct midsWithLifetime referenceDate _ =>
    ∀ mid lifetime, midsWithLifetime.lookup mid = some lifetime →
      (s.scheduled event).dateOf mid = some ((s.dateOf mid).getD (referenceDate + lifetime))
  | .processAndScheduleSelfDestruct _ => True

/-- A run changes nothing before its date, removes the messages of secret chats that are due, and takes the media of the
others. -/
structure DestroysOnTime (s : SelfDestruct) (runDate : Int) : Prop where
  early : ∀ message ∈ s.messages.rows, (∀ date, s.dateOf message.mid = some date → runDate < date) →
    (s.processAndScheduleSelfDestruct runDate).loadMessageWithMid message.mid = some message
  secret : ∀ message ∈ s.messages.rows, ∀ date, s.dateOf message.mid = some date → date ≤ runDate →
    peerIdIsSecretChat message.cid = true →
      (s.processAndScheduleSelfDestruct runDate).loadMessageWithMid message.mid = none
  ordinary : ∀ message ∈ s.messages.rows, ∀ date, s.dateOf message.mid = some date → date ≤ runDate →
    peerIdIsSecretChat message.cid = false →
      (s.processAndScheduleSelfDestruct runDate).loadMessageWithMid message.mid = some message.filterOutExpiredMedia

def TimersRight (s : SelfDestruct) (event : SelfDestructEvent) : Prop :=
  s.EntriesMade event ∧ (s.scheduled event).DestroysOnTime event.runDate

/-! ## The conditions -/

/-- Each message that is to get an entry is reached by the inner loop over the list, and its date is a 32-bit number. -/
def IdsReached (s : SelfDestruct) : SelfDestructEvent → Prop
  | .initiateSelfDestructForMessageIds messageIds currentDate _ =>
    ∀ message ∈ s.messages.rows, message.mid ∈ messageIds → message.messageLifetime ≠ 0 → s.dateOf message.mid = none →
      (∃ i, messageIds[i]? = some message.mid ∧ InBatch 256 i) ∧ IsInt32 (currentDate + message.messageLifetime)
  | .scheduleSelfDestruct midsWithLifetime referenceDate _ =>
    ∀ mid lifetime, midsWithLifetime.lookup mid = some lifetime → s.dateOf mid = none →
      IsInt32 (referenceDate + lifetime)
  | .processAndScheduleSelfDestruct _ => True

/-- A run finds only messages of secret chats (or messages that are gone) due, or only others. -/
def DueAlike (s : SelfDestruct) (runDate : Int) : Prop :=
  (∀ mid ∈ s.dueMids runDate, s.ordinaryMessage mid = none) ∨
    ∀ mid ∈ s.dueMids runDate, s.ordinaryMessage mid ≠ none

def TimersFit (s : SelfDestruct) (event : SelfDestructEvent) : Prop :=
  s.IdsReached event ∧ (s.scheduled event).DueAlike event.runDate

/-! ## Entries that are made -/

theorem dateOf_insertEntries (s : SelfDestruct) (midsWithLifetime : List (Int × Int)) (referenceDate mid : Int) :
    (s.insertEntries midsWithLifetime referenceDate).dateOf mid =
      (s.dateOf mid).or ((midsWithLifetime.lookup mid).map fun lifetime => toInt32 (referenceDate + lifetime)) := by
  have hlook : ((midsWithLifetime.map fun midWithLifetime : Int × Int =>
      (⟨midWithLifetime.1, toInt32 (referenceDate + midWithLifetime.2)⟩ : SelfDestructEntry)).find?
        fun entry => entry.mid = mid).map SelfDestructEntry.date =
      (midsWithLifetime.lookup mid).map fun lifetime => toInt32 (referenceDate + lifetime) := by
    induction midsWithLifetime with
    | nil => rfl
    | cons first rest ih =>
      obtain ⟨first, lifetime⟩ := first
      by_cases heq : first = mid
      · simp [heq]
      · have hne : (mid == first) = false := by simpa using fun h => heq h.symm
        simpa [heq, hne, lookup_cons] using ih
  unfold dateOf insertEntries
  rw [KeyedTable.find_insertAll, ← hlook]
  cases s.selfDestruct.find mid <;> simp

theorem toInt32_eq_self_iff {n : Int} : toInt32 n = n ↔ IsInt32 n :=
  ⟨fun h => h ▸ isInt32_toInt32 n, toInt32_of_isInt32⟩

variable {mid : Int}

theorem lookup_eq_some_of_unique {pairs : List (Int × Int)} {lifetime : Int} (h : (mid, lifetime) ∈ pairs)
    (hunique : ∀ other, (mid, other) ∈ pairs → other = lifetime) : pairs.lookup mid = some lifetime := by
  induction pairs with
  | nil => exact absurd h not_mem_nil
  | cons first rest ih =>
    obtain ⟨first, value⟩ := first
    by_cases heq : mid = first
    · subst heq
      simp [hunique value mem_cons_self]
    · have hrest : (mid, lifetime) ∈ rest := by
        rcases mem_cons.mp h with hhead | hrest
        · exact absurd (Prod.mk.inj hhead).1 heq
        · exact hrest
      have hne : (mid == first) = false := by simpa using heq
      rw [lookup_cons, hne]
      exact ih hrest fun other hother => hunique other (mem_cons_of_mem _ hother)

variable {s : SelfDestruct} {messageIds : List Int} {message : TGMessage}

theorem mem_loadedMessages : message ∈ s.loadedMessages messageIds ↔
      message ∈ s.messages.rows ∧ ∃ i, messageIds[i]? = some message.mid ∧ InBatch 256 i := by
  unfold loadedMessages
  rw [← mem_flatten_nestedBatches]
  simp only [mem_flatMap, mem_filter, decide_eq_true_eq, mem_flatten]
  grind

theorem lookup_loadedMessages (hm : message ∈ s.messages.rows) (hlifetime : message.messageLifetime ≠ 0) :
    (((s.loadedMessages messageIds).filter fun message => message.messageLifetime ≠ 0).map
        fun message => (message.mid, message.messageLifetime)).lookup message.mid =
      if message ∈ s.loadedMessages messageIds then some message.messageLifetime else none := by
  have hsame : ∀ other ∈ s.loadedMessages messageIds, other.mid = message.mid → other = message :=
    fun other hother hmid => s.messages.eq_of_key (mem_loadedMessages.mp hother).1 hm hmid
  split
  · next hloaded =>
    refine lookup_eq_some_of_unique ?_ fun lifetime hother => ?_
    · exact mem_map.mpr ⟨message, mem_filter.mpr ⟨hloaded, by simpa using hlifetime⟩, rfl⟩
    · obtain ⟨other, hfilter, heq⟩ := mem_map.mp hother
      obtain ⟨hmid, rfl⟩ := Prod.mk.inj heq
      rw [hsame other (mem_of_mem_filter hfilter) hmid]
  · next hnot =>
    refine lookup_eq_none_iff.mpr fun pair hpair => ?_
    obtain ⟨other, hfilter, rfl⟩ := mem_map.mp hpair
    have hother := mem_of_mem_filter hfilter
    refine bne_iff_ne.mpr fun hmid => ?_
    exact hnot (hsame other hother hmid.symm ▸ hother)

theorem entriesMade_iff (s : SelfDestruct) (event : SelfDestructEvent) : s.EntriesMade event ↔ s.IdsReached event := by
  cases event with
  | processAndScheduleSelfDestruct runDate => exact Iff.rfl
  | initiateSelfDestructForMessageIds messageIds currentDate runDate =>
    refine forall₂_congr fun message hm => forall₂_congr fun hid hlifetime => ?_
    dsimp only [scheduled]
    rw [dateOf_insertEntries, lookup_loadedMessages hm hlifetime]
    cases hdate : s.dateOf message.mid with
    | some date => simp
    | none =>
      by_cases hreached : ∃ i, messageIds[i]? = some message.mid ∧ InBatch 256 i
      · simp [mem_loadedMessages, hm, hreached, toInt32_eq_self_iff]
      · simp [mem_loadedMessages, hreached]
  | scheduleSelfDestruct midsWithLifetime referenceDate runDate =>
    refine forall₂_congr fun mid lifetime => forall_congr' fun hlook => ?_
    dsimp only [scheduled]
    rw [dateOf_insertEntries, hlook]
    cases hdate : s.dateOf mid with
    | some date => simp
    | none => simp [toInt32_eq_self_iff]

/-! ## What a run does -/

theorem mem_dueMids {runDate : Int} : mid ∈ s.dueMids runDate ↔ ∃ date, s.dateOf mid = some date ∧ date ≤ runDate := by
  simp only [dueMids, dateOf, mem_map, mem_filter, decide_eq_true_eq, Option.map_eq_some_iff,
    find_eq_some]
  grind

theorem ordinaryMessage_of_mem (hm : message ∈ s.messages.rows) :
    s.ordinaryMessage message.mid = if peerIdIsSecretChat message.cid then none else some message := by
  unfold ordinaryMessage loadMessageWithMid
  rw [find_key hm]
  cases hsecret : peerIdIsSecretChat message.cid <;> simp [hsecret]

theorem loadMessageWithMid_updateMessage (s : SelfDestruct) (updated : TGMessage) (mid : Int) :
    (s.updateMessage updated).loadMessageWithMid mid =
      if mid = updated.mid then (s.loadMessageWithMid mid).map (fun message => message.updateTo updated)
      else s.loadMessageWithMid mid := by
  have hkey : ∀ message : TGMessage, (message.updateTo updated).mid = message.mid := fun _ => rfl
  exact KeyedTable.find_modify s.messages updated.mid hkey mid

theorem loadMessageWithMid_updateMessages {updates : List TGMessage} {updated : TGMessage}
    (hsame : ∀ other ∈ updates, other.mid = updated.mid → other = updated) (s : SelfDestruct) :
    (s.updateMessages updates).loadMessageWithMid updated.mid =
      if updated ∈ updates then (s.loadMessageWithMid updated.mid).map (fun message => message.updateTo updated)
      else s.loadMessageWithMid updated.mid := by
  induction updates generalizing s with
  | nil => rfl
  | cons first rest ih =>
    change ((s.updateMessage first).updateMessages rest).loadMessageWithMid updated.mid = _
    rw [ih (fun other hother => hsame other (mem_cons_of_mem _ hother)), loadMessageWithMid_updateMessage]
    by_cases hfirst : first = updated
    · subst hfirst
      cases s.loadMessageWithMid first.mid <;> simp [TGMessage.updateTo]
    · have hmid : updated.mid ≠ first.mid := fun h => hfirst (hsame first mem_cons_self h.symm)
      have hne : updated ≠ first := fun h => hfirst h.symm
      simp [hmid, hne]

section
variable {s : SelfDestruct} {runDate : Int} {message : TGMessage}

def expiredMessages (s : SelfDestruct) (runDate : Int) : List TGMessage :=
  (s.dueMids runDate).filterMap fun mid => (s.ordinaryMessage mid).map TGMessage.filterOutExpiredMedia

theorem mem_expiredMessages {updated : TGMessage} :
    updated ∈ s.expiredMessages runDate ↔ ∃ message ∈ s.messages.rows, message.mid ∈ s.dueMids runDate ∧
      peerIdIsSecretChat message.cid = false ∧ updated = message.filterOutExpiredMedia := by
  simp only [expiredMessages, mem_filterMap, ordinaryMessage, loadMessageWithMid, Option.map_eq_some_iff,
    Option.filter_eq_some_iff, find_eq_some]
  grind

theorem loadMessageWithMid_process (hm : message ∈ s.messages.rows) :
    (s.processAndScheduleSelfDestruct runDate).loadMessageWithMid message.mid =
      if message.mid ∈ s.dueMids runDate then if ∃ mid ∈ s.dueMids runDate, s.ordinaryMessage mid = none then none
        else some message.filterOutExpiredMedia else some message := by
  have hsame : ∀ other ∈ s.expiredMessages runDate, other.mid = message.filterOutExpiredMedia.mid →
      other = message.filterOutExpiredMedia := by
    intro other hother hmid
    obtain ⟨stored, hstor, -, -, rfl⟩ := mem_expiredMessages.mp hother
    rw [s.messages.eq_of_key hstor hm hmid]
  have hexp : message.filterOutExpiredMedia ∈ s.expiredMessages runDate ↔
      message.mid ∈ s.dueMids runDate ∧ peerIdIsSecretChat message.cid = false := by
    rw [mem_expiredMessages]
    constructor
    · rintro ⟨stored, hstor, hdue, hordinary, heq⟩
      have hmid : message.filterOutExpiredMedia.mid = stored.filterOutExpiredMedia.mid := by rw [heq]
      obtain rfl := s.messages.eq_of_key hm hstor hmid
      exact ⟨hdue, hordinary⟩
    · rintro ⟨hdue, hordinary⟩
      exact ⟨message, hm, hdue, hordinary, rfl⟩
  have hsecretMids : (s.dueMids runDate).filter (fun mid => (s.ordinaryMessage mid).isNone) ≠ [] ↔
      ∃ mid ∈ s.dueMids runDate, s.ordinaryMessage mid = none := by
    simp
  have hload : s.loadMessageWithMid message.mid = some message := find_key hm
  have hrem : (s.removeMessagesInteractive (s.dueMids runDate)).loadMessageWithMid message.mid =
      if message.mid ∈ s.dueMids runDate then none else some message := by
    unfold removeMessagesInteractive loadMessageWithMid
    rw [KeyedTable.find_deleteWhere, find_key hm]
    by_cases hdue : message.mid ∈ s.dueMids runDate <;> simp [hdue]
  change ((if (s.dueMids runDate).filter (fun mid => (s.ordinaryMessage mid).isNone) ≠ [] then
    s.removeMessagesInteractive (s.dueMids runDate) else s).updateMessages (s.expiredMessages runDate)).loadMessageWithMid
      message.filterOutExpiredMedia.mid = _
  rw [loadMessageWithMid_updateMessages hsame]
  change (if _ then Option.map _ (loadMessageWithMid _ message.mid) else loadMessageWithMid _ message.mid) = _
  by_cases hdue : message.mid ∈ s.dueMids runDate
  · rw [if_pos hdue]
    by_cases hbad : ∃ mid ∈ s.dueMids runDate, s.ordinaryMessage mid = none
    · rw [if_pos hbad, if_pos (hsecretMids.mpr hbad), hrem, if_pos hdue, Option.map_none, ite_self]
    · -- the message itself is not a secret one
      have hordinary : peerIdIsSecretChat message.cid = false := by
        by_contra hsecret
        exact hbad ⟨message.mid, hdue, by rw [ordinaryMessage_of_mem hm, if_pos (by simpa using hsecret)]⟩
      rw [if_neg hbad, if_neg (hsecretMids.not.mpr hbad), if_pos (hexp.mpr ⟨hdue, hordinary⟩), hload]
      rfl
  · rw [if_neg hdue, if_neg fun h => hdue (hexp.mp h).1]
    split
    · rw [hrem, if_neg hdue]
    · exact hload

end

theorem destroysOnTime_iff (s : SelfDestruct) (runDate : Int) : s.DestroysOnTime runDate ↔ s.DueAlike runDate := by
  constructor
  · intro h
    by_cases hnone : ∀ mid ∈ s.dueMids runDate, s.ordinaryMessage mid = none
    · exact .inl hnone
    · refine .inr fun other hother hbad => ?_
      push Not at hnone
      obtain ⟨mid, hdue, hordinary⟩ := hnone
      obtain ⟨message, hmsg⟩ := Option.ne_none_iff_exists'.mp hordinary
      obtain ⟨hfound, hsecret⟩ := Option.filter_eq_some_iff.mp hmsg
      obtain ⟨hm, rfl⟩ := find_eq_some.mp hfound
      obtain ⟨date, hdate, hle⟩ := mem_dueMids.mp hdue
      have hkept := h.ordinary message hm date hdate hle (by simpa using hsecret)
      rw [loadMessageWithMid_process hm, if_pos hdue, if_pos ⟨other, hother, hbad⟩] at hkept
      exact absurd hkept.symm (Option.some_ne_none _)
  · intro h
    refine ⟨fun message hm hearly => ?_, fun message hm date hdate hle hsecret => ?_,
      fun message hm date hdate hle hordinary => ?_⟩
    · rw [loadMessageWithMid_process hm, if_neg]
      intro hdue
      obtain ⟨date, hdate, hle⟩ := mem_dueMids.mp hdue
      exact absurd (hearly date hdate) (Int.not_lt.mpr hle)
    · have hdue := mem_dueMids.mpr ⟨date, hdate, hle⟩
      rw [loadMessageWithMid_process hm, if_pos hdue, if_pos]
      exact ⟨message.mid, hdue, by rw [ordinaryMessage_of_mem hm, if_pos hsecret]⟩
    · have hdue := mem_dueMids.mpr ⟨date, hdate, hle⟩
      rw [loadMessageWithMid_process hm, if_pos hdue, if_neg]
      rintro ⟨mid, hother, hbad⟩
      rcases h with hnone | hsome
      · have hmsg := hnone message.mid hdue
        rw [ordinaryMessage_of_mem hm, if_neg (by simp [hordinary])] at hmsg
        exact Option.some_ne_none _ hmsg
      · exact hsome mid hother hbad

/-- **The timers of a run are right exactly if** the lists reach every id that is to get an entry, with a date that is a
32-bit number, and no run finds both messages of secret chats and others due. -/
theorem selfDestruct_iff (s : SelfDestruct) (events : List SelfDestructEvent) :
    AllSteps stepSelfDestruct TimersRight s events ↔ AllSteps stepSelfDestruct TimersFit s events := by
  have hstep : ∀ (s : SelfDestruct) (event : SelfDestructEvent), True → True → s.TimersFit event → True :=
    fun _ _ _ _ _ => trivial
  have hiff : ∀ (s : SelfDestruct) (event : SelfDestructEvent), True → True →
      (s.TimersRight event ↔ s.TimersFit event) :=
    fun s event _ _ => and_congr (s.entriesMade_iff event) ((s.scheduled event).destroysOnTime_iff event.runDate)
  exact allSteps_iff hstep hiff trivial (allSteps_of_forall (fun _ _ => trivial) s)

/-- A photo in the chat with a user, and a message of a secret chat. -/
def photo : TGMessage := ⟨2, 7, 0, 5, "", [.image 11 0 "a photo"], false, 5, false, false⟩

def bothDue : SelfDestruct :=
  ⟨⟨[⟨1, -3000000000, 0, 5, "a secret", [], false, 5, false, false⟩, photo], by decide⟩, ⟨[⟨1, 10⟩, ⟨2, 10⟩], by decide⟩⟩

/-- When a message of a secret chat and another one are due at once, the other one is removed too. -/
theorem photo_removed : ¬∀ s events, AllSteps stepSelfDestruct TimersRight s events := by
  intro h
  have hkept := (h bothDue [.processAndScheduleSelfDestruct 10]).1.2.ordinary photo (by decide) 10 (by decide) (by decide)
    (by decide)
  exact absurd hkept (by decide)

end SelfDestruct

end TelegramClient.Database
