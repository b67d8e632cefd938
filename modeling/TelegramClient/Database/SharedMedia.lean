import TelegramClient.Database.StoredMessages
import Mathlib.Data.List.Sort

/-!
# A page of the shared media of a conversation

The page is read in two passes: `limit` rows from the newest on, and as many more as the first pass has skipped.

* `loadMediaInConversation` : both passes, each with its own test (`passesFirst`, `passesSecond`);
* `isShown` : the test that both are meant to be; `PageExact` : the page has the rows that pass it;
* `loadMedia_exact_iff` : the page is exact when no row is met by the pass whose test differs on it.
-/

namespace TelegramClient.Database
open List

/-! ## The code -/

/-- A row of the media table; the other columns go into the message as they are. -/
structure MediaRow where
  cid : Int
  mid : Int
  date : Int
  fromId : Int
  media : List TGMediaAttachment
deriving DecidableEq

/-- What the first pass reads of a stored message. -/
structure ActualMessage where
  messageLifetime : Int
  layer : Int
  mediaAttachments : List TGMediaAttachment

structure MediaMessage where
  mid : Int
  date : Int
  fromUid : Int
  mediaAttachments : List TGMediaAttachment
deriving DecidableEq

/-- `ORDER BY date DESC`, with some order of the rows of equal date. -/
structure DateOrder where
  sort : List MediaRow → List MediaRow
  perm : ∀ rows, (sort rows).Perm rows
  descending : ∀ rows, (sort rows).Pairwise fun row row' => row'.date ≤ row.date

/-- The tables, and the arguments. -/
structure MediaQuery where
  order : DateOrder
  mediaTable : List MediaRow
  loadMessageWithMid : Int → Option ActualMessage
  conversationId : Int
  maxMid : Int
  maxLocalMid : Int
  maxDate : Int
  limit : Int

namespace MediaQuery

variable (q : MediaQuery)

/-- `WHERE cid=? AND date<=? ORDER BY date DESC`. -/
def rows : List MediaRow :=
  q.order.sort (q.mediaTable.filter fun row => row.cid = q.conversationId ∧ row.date ≤ q.maxDate)

/-- `LIMIT limit`; a negative limit is none. -/
def limitRows (limit : Int) (rows : List MediaRow) : List MediaRow := if limit < 0 then rows else rows.take limit.toNat

def checksLifetime : Bool := q.conversationId ≤ int32Min || peerIdIsUser q.conversationId

/-- A message that is not stored is `nil`, whose lifetime is 0. -/
def isShortLived (mid : Int) : Bool :=
  match q.loadMessageWithMid mid with
  | none => false
  | some actualMessage =>
    actualMessage.messageLifetime > 0 && actualMessage.messageLifetime ≤ 60 && actualMessage.layer ≥ 17

def passesFirst (mid : Int) : Bool :=
  if mid ≥ messageLocalMidBaseline ∧ mid ≥ q.maxLocalMid then false
  else if mid ≥ q.maxMid then false
  else if q.checksLifetime then !q.isShortLived mid
  else true

def passesSecond (mid : Int) : Bool :=
  if mid ≥ messageLocalMidBaseline then !decide (mid ≥ q.maxLocalMid)
  else if mid ≥ q.maxMid then false
  else if q.checksLifetime then !q.isShortLived mid
  else true

/-- `TGForwardedMessageMediaAttachmentType`. -/
def isForwarded (attachment : TGMediaAttachment) : Bool := attachment = .other 0xAA1050C1

def loadMessageMediaFromQueryResult (row : MediaRow) : MediaMessage := ⟨row.mid, row.date, row.fromId, row.media⟩

/-- The message of the first pass, with the first forward attachment of the stored message if it has none. -/
def firstMessage (row : MediaRow) : MediaMessage :=
  let message := loadMessageMediaFromQueryResult row
  if q.checksLifetime then
    match (q.loadMessageWithMid row.mid).bind fun actualMessage => actualMessage.mediaAttachments.find? isForwarded with
    | none => message
    | some attachment =>
      if message.mediaAttachments.any isForwarded then message
      else { message with mediaAttachments := message.mediaAttachments ++ [attachment] }
  else message

structure FirstPass where
  mediaArray : List MediaMessage
  extraLimit : Nat
  extraOffset : Nat

/-- The body of the first loop. -/
def firstStep (pass : FirstPass) (row : MediaRow) : FirstPass :=
  let pass := { pass with extraOffset := pass.extraOffset + 1 }
  if q.passesFirst row.mid then { pass with mediaArray := pass.mediaArray ++ [q.firstMessage row] }
  else { pass with extraLimit := pass.extraLimit + 1 }

/-- The body of the second loop. -/
def secondStep (mediaArray : List MediaMessage) (row : MediaRow) : List MediaMessage :=
  if q.passesSecond row.mid then mediaArray ++ [loadMessageMediaFromQueryResult row] else mediaArray

/-- `loadMediaInConversation:maxMid:maxLocalMid:maxDate:limit:`; `cachedMedia` is what `cachedMediaForPeerId:` finds. -/
def loadMediaInConversation (cachedMedia : List MediaMessage) : List MediaMessage :=
  if peerIdIsChannel q.conversationId || peerIdIsAdminLog q.conversationId then cachedMedia
  else
    let pass := (limitRows q.limit q.rows).foldl q.firstStep ⟨[], 0, 0⟩
    if pass.extraLimit ≠ 0 then
      ((q.rows.drop pass.extraOffset).take pass.extraLimit).foldl q.secondStep pass.mediaArray
    else pass.mediaArray

/-! ## The page -/

/-- The one test. -/
def isShown (mid : Int) : Bool :=
  decide (mid < if mid ≥ messageLocalMidBaseline then q.maxLocalMid else q.maxMid) &&
    !(q.checksLifetime && q.isShortLived mid)

/-- The rows of the first query. -/
def firstRows : List MediaRow := limitRows q.limit q.rows

/-- As many rows behind them as a test refuses. -/
def nextRows (test : Int → Bool) : List MediaRow :=
  (q.rows.drop q.firstRows.length).take (q.firstRows.countP fun row => !test row.mid)

/-- **The page is exact**: it has the rows that pass the one test, of the first ones and of as many more as the first
pass skips. -/
def PageExact (cachedMedia : List MediaMessage) : Prop :=
  (q.loadMediaInConversation cachedMedia).map MediaMessage.mid =
    ((q.firstRows ++ q.nextRows q.passesFirst).map MediaRow.mid).filter q.isShown

variable {q}

theorem foldl_firstStep (rows : List MediaRow) (pass : FirstPass) : rows.foldl q.firstStep pass =
      ⟨pass.mediaArray ++ (rows.filter fun row => q.passesFirst row.mid).map q.firstMessage,
        pass.extraLimit + rows.countP fun row => !q.passesFirst row.mid, pass.extraOffset + rows.length⟩ := by
  induction rows generalizing pass with
  | nil => simp
  | cons row rows ih =>
    rw [foldl_cons, ih, firstStep]
    cases hpasses : q.passesFirst row.mid <;> simp [hpasses, Nat.add_assoc, Nat.add_comm 1]

theorem foldl_secondStep (rows : List MediaRow) (mediaArray : List MediaMessage) :
    rows.foldl q.secondStep mediaArray =
      mediaArray ++ (rows.filter fun row => q.passesSecond row.mid).map loadMessageMediaFromQueryResult := by
  induction rows generalizing mediaArray with
  | nil => simp
  | cons row rows ih =>
    rw [foldl_cons, ih, secondStep]
    cases hpasses : q.passesSecond row.mid <;> simp [hpasses]

theorem firstMessage_mid (row : MediaRow) : (q.firstMessage row).mid = row.mid := by
  unfold firstMessage
  dsimp only
  split
  · split
    · rfl
    · split <;> rfl
  · rfl

/-- The rows of the page, by the two tests. -/
theorem loadMedia_mids (cachedMedia : List MediaMessage)
    (hpeer : (peerIdIsChannel q.conversationId || peerIdIsAdminLog q.conversationId) = false) :
    (q.loadMediaInConversation cachedMedia).map MediaMessage.mid =
      (q.firstRows.map MediaRow.mid).filter q.passesFirst ++
        ((q.nextRows q.passesFirst).map MediaRow.mid).filter q.passesSecond := by
  have hfirst : ∀ rows : List MediaRow, ((rows.filter fun row => q.passesFirst row.mid).map q.firstMessage).map
      MediaMessage.mid = (rows.map MediaRow.mid).filter q.passesFirst := fun rows => by
    rw [map_map, filter_map]
    exact map_congr_left fun row _ => firstMessage_mid row
  have hsecond : ∀ rows : List MediaRow, ((rows.filter fun row => q.passesSecond row.mid).map
      loadMessageMediaFromQueryResult).map MediaMessage.mid = (rows.map MediaRow.mid).filter q.passesSecond :=
    fun rows => by
      rw [map_map, filter_map]
      rfl
  unfold loadMediaInConversation nextRows firstRows
  rw [hpeer]
  simp only [Bool.false_eq_true, if_false, foldl_firstStep, foldl_secondStep, nil_append, Nat.zero_add]
  split
  · rw [map_append, hfirst, hsecond]
  · next hzero =>
      rw [hfirst, not_not.mp hzero, take_zero]
      simp

theorem isShown_of_passesFirst {mid : Int} (h : q.passesFirst mid = true) : q.isShown mid = true := by
  unfold passesFirst at h
  unfold isShown
  grind

theorem passesSecond_of_isShown {mid : Int} (h : q.isShown mid = true) : q.passesSecond mid = true := by
  unfold isShown at h
  unfold passesSecond
  grind

/-- Two lists by a stricter and a laxer test: nothing is lost and nothing comes in only if the tests agree. -/
theorem filter_append_filter_eq_iff {α : Type} [DecidableEq α] {p test p' : α → Bool} (l l' : List α)
    (hp : ∀ a, p a = true → test a = true) (hp' : ∀ a, test a = true → p' a = true) :
    l.filter p ++ l'.filter p' = (l ++ l').filter test ↔
      (∀ a ∈ l, test a = true → p a = true) ∧ ∀ a ∈ l', p' a = true → test a = true := by
  constructor
  · intro heq
    have hcnt := fun a => congrArg (List.count a) heq
    simp only [filter_append, count_append] at hcnt
    refine ⟨fun a ha htest => ?_, fun a ha htest => ?_⟩
    · by_contra hnot
      have := hcnt a
      rw [count_eq_zero.mpr (fun h => hnot (mem_filter.mp h).2), count_filter htest,
        count_filter (hp' a htest), count_filter htest] at this
      have := count_pos_iff.mpr ha
      omega
    · by_contra hnot
      have := hcnt a
      rw [count_filter htest, count_eq_zero.mpr (fun h => hnot (mem_filter.mp h).2 : a ∉ l.filter test),
        count_eq_zero.mpr (fun h => hnot (mem_filter.mp h).2 : a ∉ l'.filter test)] at this
      have := count_pos_iff.mpr ha
      omega
  · rintro ⟨hl, hl'⟩
    rw [filter_append]
    congr 1
    · exact filter_congr fun a ha => Bool.eq_iff_iff.mpr ⟨hp a, hl a ha⟩
    · exact filter_congr fun a ha => Bool.eq_iff_iff.mpr ⟨hl' a ha, hp' a⟩

/-- **A page of shared media** is exact exactly if no row of the first query that is to be shown is that of a local
message with an id from `maxMid` on, and none of the next rows, of which there are as many as rows of the first query
that are not to be shown, is that of a short-lived local message below `maxLocalMid`. -/
theorem loadMedia_exact_iff (cachedMedia : List MediaMessage)
    (hpeer : (peerIdIsChannel q.conversationId || peerIdIsAdminLog q.conversationId) = false) :
    q.PageExact cachedMedia ↔
      (∀ row ∈ q.firstRows, q.isShown row.mid = true → messageLocalMidBaseline ≤ row.mid → row.mid < q.maxMid) ∧
      ∀ row ∈ q.nextRows q.isShown, messageLocalMidBaseline ≤ row.mid → row.mid < q.maxLocalMid →
        ¬ (q.checksLifetime = true ∧ q.isShortLived row.mid = true) := by
  rw [PageExact, loadMedia_mids cachedMedia hpeer, map_append, filter_append_filter_eq_iff _ _
    (fun _ => isShown_of_passesFirst) fun _ => passesSecond_of_isShown]
  have hfirst : (∀ mid ∈ q.firstRows.map MediaRow.mid, q.isShown mid = true → q.passesFirst mid = true) ↔
      ∀ row ∈ q.firstRows, q.isShown row.mid = true → messageLocalMidBaseline ≤ row.mid → row.mid < q.maxMid := by
    rw [forall_mem_map]
    refine forall₂_congr fun row _ => forall_congr' fun hshown => ?_
    unfold isShown at hshown
    unfold passesFirst
    grind
  rw [hfirst]
  refine and_congr_right fun hagree => ?_
  have hnext : q.nextRows q.passesFirst = q.nextRows q.isShown := by
    unfold nextRows
    congr 1
    refine countP_congr fun row hrow => ?_
    have : q.passesFirst row.mid = true → q.isShown row.mid = true := isShown_of_passesFirst
    have := (forall_mem_map.mp (hfirst.mpr hagree)) row hrow
    grind
  rw [hnext, forall_mem_map]
  refine forall₂_congr fun row _ => ?_
  unfold passesSecond isShown
  grind

/-! ### Two conversations -/

/-- The rows of equal date in the order of the table. -/
def tableOrder : DateOrder where
  sort := List.insertionSort fun row row' => row'.date ≤ row.date
  perm := perm_insertionSort _
  descending rows :=
    have : Std.Total fun row row' : MediaRow => row'.date ≤ row.date := ⟨fun row row' => le_total row'.date row.date⟩
    have : IsTrans MediaRow fun row row' => row'.date ≤ row.date := ⟨fun _ _ _ h h' => le_trans h' h⟩
    pairwise_insertionSort _ rows

/-- A chat with a user, with one photo. -/
def onePhoto (mid maxMid : Int) : MediaQuery where
  order := tableOrder
  mediaTable := [⟨7, mid, 100, 7, []⟩]
  loadMessageWithMid _ := none
  conversationId := 7
  maxMid := maxMid
  maxLocalMid := int32Max
  maxDate := int32Max
  limit := 50

/-- The first query reads a photo from beyond the page and one of the page, the second one the next photo of the page. -/
def fourPhotos : MediaQuery :=
  { onePhoto 5 10 with
    mediaTable := [⟨7, 4, 90, 7, []⟩, ⟨7, 30, 110, 7, []⟩, ⟨7, 3, 80, 7, []⟩, ⟨7, 5, 100, 7, []⟩]
    limit := 2 }

theorem loadMedia_exact_fourPhotos :
    fourPhotos.PageExact [] ∧ (fourPhotos.loadMediaInConversation []).map MediaMessage.mid = [5, 4] :=
  ⟨(loadMedia_exact_iff [] (by decide)).mpr ⟨by decide, by decide⟩, by decide⟩

/-- A photo that is being sent, from a message id of the server on. -/
theorem pendingPhoto_skipped : ¬ (onePhoto 800000001 10).PageExact [] := by
  unfold PageExact
  decide

end MediaQuery

end TelegramClient.Database
