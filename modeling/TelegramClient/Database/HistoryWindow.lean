import Mathlib.Data.List.Sort
import TelegramClient.Lib.CleanPrefix
import TelegramClient.Database.StoredMessages

/-!
# Messages without holes between them

Of loaded messages of a conversation those are shown that are around one of them, as far as no history hole is between
neighbours. Messages that are not on the server yet have ids of their own and are no neighbours.

* `sortMessages`, `walkMessages`, `excludeMessagesWithHolesFromArray` : the method, with its two walks;
* `largestWindow_iff` : **when the method is right**.
-/

namespace TelegramClient.Database
open List

/-! ## The method -/

/-- The order of the comparator: newer messages first, and then greater ids. -/
def ComesFirst (message1 message2 : TGMessage) : Prop :=
  message1.date > message2.date ∨ message1.date = message2.date ∧ message1.mid ≥ message2.mid

instance : DecidableRel ComesFirst := fun _ _ => inferInstanceAs (Decidable (_ ∨ _))

instance : Std.Total ComesFirst := ⟨fun message1 message2 => by unfold ComesFirst; omega⟩

instance : IsTrans TGMessage ComesFirst := ⟨fun message1 message2 message3 => by unfold ComesFirst; omega⟩

def sortMessages (messages : List TGMessage) : List TGMessage := messages.insertionSort ComesFirst

/-- `intersectsIndexesInRange:` of the range from the lesser id on that is as long as the ids are apart. With no row nil is
asked, and for a row a range from a negative id on is an exception. -/
def holeInRange (holes : Option (Finset ℕ)) (mid mid' : Int) : Option Bool :=
  match holes with
  | none => some false
  | some holes =>
    if min mid mid' < 0 ∧ mid ≠ mid' then none
    else some (decide (∃ id ∈ holes, min mid mid' ≤ id ∧ (id : Int) < max mid mid'))

/-- What a message is asked when `lastRemoteMessageId` is that of the last one. -/
def stopsAt (holes : Option (Finset ℕ)) (lastRemoteMessageId mid : Int) : Option Bool :=
  if lastRemoteMessageId ≠ 0 then holeInRange holes mid lastRemoteMessageId else some false

def walkMessages (holes : Option (Finset ℕ)) : Int → List TGMessage → Option (List TGMessage)
  | _, [] => some []
  | lastRemoteMessageId, message :: messages =>
    if message.mid < messageLocalMidBaseline then
      (stopsAt holes lastRemoteMessageId message.mid).bind fun stops =>
        if stops then some [] else (walkMessages holes message.mid messages).map (message :: ·)
    else (walkMessages holes lastRemoteMessageId messages).map (message :: ·)

/-- `excludeMessagesWithHolesFromArray:peerId:aroundMessageId:`. Both loops begin without a last id. -/
def excludeMessagesWithHolesFromArray (holes : Option (Finset ℕ)) (messages : List TGMessage) (aroundMessageId : Int) :
    Option (List TGMessage) :=
  if messages.length ≤ 1 then some messages
  else
    let sortedMessages := sortMessages messages
    match sortedMessages.findIdx? fun message => message.mid = aroundMessageId with
    | none => walkMessages holes 0 sortedMessages
    | some fromIndex => do
      let newer ← walkMessages holes 0 (sortedMessages.take (fromIndex + 1)).reverse
      let older ← walkMessages holes 0 (sortedMessages.drop (fromIndex + 1))
      return newer ++ older

/-! ## What it is for -/

def remoteMid (message : TGMessage) : Option Int :=
  if message.mid < messageLocalMidBaseline then some message.mid else none

def holeBetween (holes : Option (Finset ℕ)) (mid mid' : Int) : Bool :=
  decide (∃ id ∈ holes.getD ∅, min mid mid' < id ∧ (id : Int) < max mid mid')

/-- The message with the id, or else the newest one. -/
def aroundMessage (sortedMessages : List TGMessage) (aroundMessageId : Int) : Option TGMessage :=
  (sortedMessages.find? fun message => message.mid = aroundMessageId).or sortedMessages.head?

/-- The result is the largest part of the sorted messages, around the message that was asked for, without a hole strictly
between neighbours that are on the server. -/
def LargestWindow (holes : Option (Finset ℕ)) (messages : List TGMessage) (aroundMessageId : Int)
    (result : Option (List TGMessage)) : Prop :=
  ∃ window, result = some window ∧ ∃ anchor ∈ aroundMessage (sortMessages messages) aroundMessageId,
    IsLargest remoteMid (holeBetween holes) (sortMessages messages) anchor window

/-- On each side, up to the first neighbours with a hole strictly between them, it is seen whether there is one, and none is
between the first ids of both sides. -/
def WalksMeet (holes : Option (Finset ℕ)) (messages : List TGMessage) (aroundMessageId : Int) : Prop :=
  let sortedMessages := sortMessages messages
  match sortedMessages.findIdx? fun message => message.mid = aroundMessageId with
  | none => StopsAlike (holeBetween holes) (stopsAt holes) (sortedMessages.filterMap remoteMid)
  | some fromIndex =>
    let newer := (sortedMessages.take (fromIndex + 1)).reverse.filterMap remoteMid
    let older := (sortedMessages.drop (fromIndex + 1)).filterMap remoteMid
    StopsAlike (holeBetween holes) (stopsAt holes) newer ∧ StopsAlike (holeBetween holes) (stopsAt holes) older ∧
      ∀ mid ∈ newer.head?, ∀ mid' ∈ older.head?, holeBetween holes mid mid' = false

/-! ## The walks -/

variable (holes : Option (Finset ℕ))

theorem holeBetween_comm (mid mid' : Int) : holeBetween holes mid mid' = holeBetween holes mid' mid := by
  rw [holeBetween, holeBetween, min_comm, max_comm]

theorem walkMessages_eq (last : Option Int) (messages : List TGMessage) :
    walkMessages holes (last.getD 0) messages = walkPrefix remoteMid (stopsAt holes) last messages := by
  induction messages generalizing last with
  | nil => rfl
  | cons message messages ih =>
    rw [walkMessages]
    by_cases hremote : message.mid < messageLocalMidBaseline
    · have hsome : remoteMid message = some message.mid := if_pos hremote
      have hstops : last.elim (some false) (stopsAt holes · message.mid) = stopsAt holes (last.getD 0) message.mid := by
        cases last <;> rfl
      rw [if_pos hremote, walkPrefix_some hsome, hstops, ← ih (some message.mid)]
      rfl
    · have hnone : remoteMid message = none := if_neg hremote
      rw [if_neg hremote, walkPrefix_none hnone, ih last]

theorem walkMessages_zero (messages : List TGMessage) :
    walkMessages holes 0 messages = walkPrefix remoteMid (stopsAt holes) none messages :=
  walkMessages_eq holes none messages

theorem split_of_findIdx? {p : TGMessage → Bool} {l : List TGMessage} {index : Nat} (h : l.findIdx? p = some index) :
    ∃ pre message post, l = pre ++ message :: post ∧ pre.length = index ∧ l.find? p = some message := by
  induction l generalizing index with
  | nil => cases h
  | cons message l ih =>
    rw [findIdx?_cons] at h
    by_cases hp : p message = true
    · rw [if_pos hp] at h
      exact ⟨[], message, l, rfl, Option.some.inj h, find?_cons_of_pos hp⟩
    · rw [if_neg hp] at h
      obtain ⟨index', hidx, rfl⟩ := Option.map_eq_some_iff.mp h
      obtain ⟨pre, found, post, rfl, rfl, hfind⟩ := ih hidx
      exact ⟨message :: pre, found, post, rfl, rfl, by rw [find?_cons_of_neg hp, hfind]⟩

/-- **The result is the largest window** around the message exactly when the walks meet. -/
theorem largestWindow_iff (holes : Option (Finset ℕ)) {messages : List TGMessage} (aroundMessageId : Int)
    (hnodup : (messages.map TGMessage.mid).Nodup) (hlength : 2 ≤ messages.length) :
    LargestWindow holes messages aroundMessageId (excludeMessagesWithHolesFromArray holes messages aroundMessageId) ↔
      WalksMeet holes messages aroundMessageId := by
  have hperm : (sortMessages messages).Perm messages := perm_insertionSort ComesFirst messages
  have hsorted : (sortMessages messages).Nodup := hperm.nodup_iff.mpr hnodup.of_map
  have hlength' : 2 ≤ (sortMessages messages).length := hperm.length_eq ▸ hlength
  unfold LargestWindow excludeMessagesWithHolesFromArray WalksMeet aroundMessage
  rw [if_neg (by omega)]
  dsimp only
  generalize sortMessages messages = sortedMessages at *
  cases hfind : sortedMessages.findIdx? fun message => message.mid = aroundMessageId with
  | none =>
      obtain ⟨newest, rest, rfl⟩ := exists_cons_of_length_pos (lt_of_lt_of_le (by decide) hlength')
      have hnone : (newest :: rest).find? (fun message => message.mid = aroundMessageId) = none :=
        find?_eq_none.mpr fun message h => by simpa using findIdx?_eq_none_iff.mp hfind message h
      rw [hnone, walkMessages_zero, Option.none_or, head?_cons]
      simp only [Option.mem_some_iff, exists_eq_left']
      exact largest_cons_iff hsorted
  | some fromIndex =>
      obtain ⟨pre, message, post, rfl, rfl, hmessage⟩ := split_of_findIdx? hfind
      have hsplit : pre ++ message :: post = (pre ++ [message]) ++ post := by simp
      have htake : ((pre ++ message :: post).take (pre.length + 1)).reverse = message :: pre.reverse := by
        rw [hsplit, take_left' (by simp), reverse_append]
        rfl
      have hdrop : (pre ++ message :: post).drop (pre.length + 1) = post := by
        rw [hsplit, drop_left' (by simp)]
      rw [hmessage, Option.some_or]
      simp only [Option.mem_some_iff, exists_eq_left']
      rw [htake, hdrop, walkMessages_zero, walkMessages_zero, ← largest_split_iff (holeBetween_comm holes) hsorted]
      constructor
      · rintro ⟨window, hresult, hlargest⟩
        obtain ⟨newer, hnewer, hresult⟩ := Option.bind_eq_some_iff.mp hresult
        obtain ⟨older, holder, hresult⟩ := Option.bind_eq_some_iff.mp hresult
        obtain rfl := Option.some.inj hresult
        exact ⟨newer, older, hnewer, holder, hlargest⟩
      · rintro ⟨newer, older, hnewer, holder, hlargest⟩
        rw [hnewer, holder]
        exact ⟨newer ++ older, rfl, hlargest⟩

def messageOfDay (mid : Int) : TGMessage := ⟨mid, 5, 0, 0, "", [], false, mid, false, false⟩

/-- A hole that is older than all messages. -/
theorem largestWindow_iff_five :
    LargestWindow (some {5}) [messageOfDay 10, messageOfDay 20] 20
      (excludeMessagesWithHolesFromArray (some {5}) [messageOfDay 10, messageOfDay 20] 20) := by
  refine (largestWindow_iff (some {5}) 20 (by decide) (by decide)).mpr ?_
  show StopsAlike _ _ [(20 : Int)] ∧ StopsAlike _ _ [(10 : Int)] ∧ ∀ mid ∈ some (20 : Int), ∀ mid' ∈ some (10 : Int), _
  refine ⟨trivial, trivial, ?_⟩
  rintro _ ⟨⟩ _ ⟨⟩
  decide

/-- A hole between the message that was asked for and the next older one. -/
theorem hole_fifteen_passed :
    ¬LargestWindow (some {15}) [messageOfDay 10, messageOfDay 20] 20
      (excludeMessagesWithHolesFromArray (some {15}) [messageOfDay 10, messageOfDay 20] 20) := by
  rintro ⟨result, hwalked, anchor, -, window, ⟨hcontiguous, -, hclean⟩, hperm, -⟩
  have hsorted : sortMessages [messageOfDay 10, messageOfDay 20] = [messageOfDay 20, messageOfDay 10] := by decide
  have hresult : excludeMessagesWithHolesFromArray (some {15}) [messageOfDay 10, messageOfDay 20] 20 =
      some [messageOfDay 20, messageOfDay 10] := by decide
  obtain rfl := Option.some.inj (hresult.symm.trans hwalked)
  rw [hsorted] at hcontiguous
  rw [hcontiguous.eq_of_length hperm.length_eq.symm] at hclean
  have hpair : [(20 : Int), 10].IsChain fun mid mid' => holeBetween (some {15}) mid mid' = false := hclean
  rw [isChain_pair] at hpair
  revert hpair
  decide

end TelegramClient.Database
