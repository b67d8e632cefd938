import TelegramClient.Database.PeerIds
import Mathlib.Algebra.Order.Ring.Int
import Mathlib.Data.List.InsertIdx
import Mathlib.Data.List.Sort

/-!
# Pinned conversations

The order of the pinned conversations is stored as dates, which increase from the last of them to the first. Only the
client knows of secret chats: an update from the server gets them back.

* `getPinnedConversations`, `replacePinnedConversationDates` : reading the order and storing it;
* `secretChats_kept_iff` : when the secret chats keep their places.
-/

namespace TelegramClient.Database
open List

/-! ## The code -/

/-- The entries of a dictionary from peer ids to dates in the order that `sortedArrayUsingComparator:` gives them. -/
structure DateSort where
  sort : List (Int × Int) → List (Int × Int)
  perm : ∀ dates, (sort dates).Perm dates
  descending : ∀ dates, (sort dates).Pairwise fun entry entry' => entry'.2 ≤ entry.2

/-- `_getPinnedConversations`: the peers whose conversation or feed can be loaded. -/
def getPinnedConversations (order : DateSort) (isLoaded : Int → Bool) (dates : List (Int × Int)) : List Int :=
  ((order.sort dates).map Prod.fst).filter isLoaded

/-- The secret chats and their positions in the list, which is at `index`. -/
def secretPositions : Nat → List Int → List (Int × Nat)
  | _, [] => []
  | index, peerId :: peerIds =>
    if peerIdIsSecretChat peerId then (peerId, index) :: secretPositions (index + 1) peerIds
    else secretPositions (index + 1) peerIds

/-- A secret chat is put back, at `MAX(0, MIN(it.second, count - 1))`. -/
def insertSecret (updatedPinnedPeerIds : List Int) (it : Int × Nat) : List Int :=
  if it.1 ∈ updatedPinnedPeerIds then updatedPinnedPeerIds
  else updatedPinnedPeerIds.insertIdx (min it.2 (updatedPinnedPeerIds.length - 1)) it.1

/-- `updatedPinnedConversationDates[nPeerId] = @(nextPinnedDate)`, with the next date, which is an `int32_t`. -/
def addPinnedDate (peerId : Int) (state : List (Int × Int) × Int) : List (Int × Int) × Int :=
  (state.1.filter (fun entry => entry.1 ≠ peerId) ++ [(peerId, state.2)], (state.2 + 1).bmod (2 ^ 32))

/-- `TGConversationPinnedDateBase`. -/
def pinnedDateBase : Int := 1600000000

/-- The loop from the last peer to the first. -/
def pinnedConversationDates (peerIds : List Int) : List (Int × Int) × Int :=
  peerIds.foldr addPinnedDate ([], pinnedDateBase)

/-- The pinned conversations of a transaction: the dates that `_replacePinnedConversationDates:` stores. -/
def updatePinnedConversations (order : DateSort) (isLoaded : Int → Bool) (dates : List (Int × Int))
    (updatePinnedConversations unpinnedFeededPeerIds : List Int) (forceReplacePinnedConversations : Bool) :
    List (Int × Int) :=
  let previousSecretPeerIdToPosition := secretPositions 0 (getPinnedConversations order isLoaded dates)
  let updatedPinnedPeerIds :=
    if forceReplacePinnedConversations then updatePinnedConversations
    else (previousSecretPeerIdToPosition.foldl insertSecret updatePinnedConversations).filter
      fun peerId => peerId ∉ unpinnedFeededPeerIds
  (pinnedConversationDates updatedPinnedPeerIds).1

/-! ## What is stored is read -/

/-- The entries from the first peer on. -/
def datedFrom : List Int → List (Int × Int)
  | [] => []
  | peerId :: peerIds => (peerId, pinnedDateBase + peerIds.length) :: datedFrom peerIds

theorem datedFrom_fst (peerIds : List Int) : (datedFrom peerIds).map Prod.fst = peerIds := by
  induction peerIds with
  | nil => rfl
  | cons peerId peerIds ih => rw [datedFrom, map_cons, ih]

variable {peerIds : List Int}

theorem datedFrom_lt {entry : Int × Int} (h : entry ∈ datedFrom peerIds) :
    entry.2 < pinnedDateBase + peerIds.length := by
  induction peerIds with
  | nil => exact absurd h not_mem_nil
  | cons peerId peerIds ih =>
    rw [length_cons]
    rcases mem_cons.mp h with rfl | h
    · dsimp only
      omega
    · have := ih h
      omega

theorem datedFrom_descending (peerIds : List Int) :
    (datedFrom peerIds).Pairwise fun entry entry' => entry'.2 < entry.2 := by
  induction peerIds with
  | nil => exact List.Pairwise.nil
  | cons peerId peerIds ih => exact pairwise_cons.mpr ⟨fun entry h => datedFrom_lt h, ih⟩

theorem pinnedConversationDates_eq (h : peerIds.Nodup) (hdates : pinnedDateBase + peerIds.length < 2 ^ 31) :
    pinnedConversationDates peerIds = ((datedFrom peerIds).reverse, pinnedDateBase + peerIds.length) := by
  induction peerIds with
  | nil => rfl
  | cons peerId peerIds ih =>
    obtain ⟨hnot, hnd⟩ := nodup_cons.mp h
    rw [length_cons, Nat.cast_succ, ← Int.add_assoc] at hdates
    have hnext : (pinnedDateBase + peerIds.length + 1).bmod (2 ^ 32) = pinnedDateBase + peerIds.length + 1 := by
      refine Int.bmod_eq_of_le ?_ ?_
      · rw [pinnedDateBase]
        omega
      · omega
    have hkeep : (datedFrom peerIds).reverse.filter (fun entry => entry.1 ≠ peerId) = (datedFrom peerIds).reverse := by
      rw [filter_eq_self]
      intro entry hentry
      have hm := mem_map_of_mem (f := Prod.fst) (mem_reverse.mp hentry)
      rw [datedFrom_fst] at hm
      exact decide_eq_true fun heq : entry.1 = peerId => hnot (heq ▸ hm)
    rw [pinnedConversationDates, foldr_cons, ← pinnedConversationDates, ih hnd (by omega), addPinnedDate, hkeep,
      hnext, datedFrom, reverse_cons, length_cons, Nat.cast_succ, Int.add_assoc]

theorem getPinnedConversations_dates (order : DateSort) (isLoaded : Int → Bool) (h : peerIds.Nodup)
    (hdates : pinnedDateBase + peerIds.length < 2 ^ 31) :
    getPinnedConversations order isLoaded (pinnedConversationDates peerIds).1 = peerIds.filter isLoaded := by
  have hdescending := datedFrom_descending peerIds
  have hsort : order.sort (datedFrom peerIds).reverse = datedFrom peerIds := by
    have hperm := (order.perm (datedFrom peerIds).reverse).trans (reverse_perm _)
    refine hperm.eq_of_pairwise (fun entry entry' hentry hentry' hle hle' => ?_) (order.descending _)
      (hdescending.imp fun h => h.le)
    have hdates : ((datedFrom peerIds).map Prod.snd).Nodup :=
      pairwise_map.mpr (hdescending.imp fun hlt heq => absurd heq hlt.ne')
    exact inj_on_of_nodup_map hdates (hperm.mem_iff.mp hentry) hentry' (le_antisymm hle' hle)
  rw [getPinnedConversations, pinnedConversationDates_eq h hdates, hsort, datedFrom_fst]

/-! ## The insertions -/

theorem insertIdx_eq_append {l : List Int} {i : Nat} (h : i ≤ l.length) (a : Int) :
    l.insertIdx i a = l.take i ++ a :: l.drop i := by
  induction l generalizing i with
  | nil =>
    obtain rfl : i = 0 := Nat.le_zero.mp h
    rfl
  | cons b l ih =>
    cases i with
    | zero => rfl
    | succ i => rw [insertIdx_succ_cons, ih (Nat.le_of_succ_le_succ h)]; rfl

variable {it : Int × Nat}

theorem insertSecret_eq {l : List Int} (h : it.1 ∉ l) : insertSecret l it =
      l.take (min it.2 (l.length - 1)) ++ it.1 :: l.drop (min it.2 (l.length - 1)) := by
  rw [insertSecret, if_neg h, insertIdx_eq_append (by omega)]

theorem nodup_insertSecret {l : List Int} (h : l.Nodup) (it : Int × Nat) : (insertSecret l it).Nodup := by
  by_cases hm : it.1 ∈ l
  · rwa [insertSecret, if_pos hm]
  · rw [insertSecret_eq hm, nodup_middle, take_append_drop]
    exact nodup_cons.mpr ⟨hm, h⟩

variable {x : Int}

theorem mem_insertSecret {l : List Int} : x ∈ insertSecret l it ↔ x = it.1 ∨ x ∈ l := by
  by_cases hm : it.1 ∈ l
  · rw [insertSecret, if_pos hm]
    exact ⟨Or.inr, fun h => h.elim (fun heq => heq ▸ hm) id⟩
  · rw [insertSecret_eq hm, mem_append, mem_cons, or_left_comm, ← mem_append, take_append_drop]

variable {p : Int → Bool}

theorem filter_insertSecret_of_not (hp : p it.1 = false) (l : List Int) :
    (insertSecret l it).filter p = l.filter p := by
  by_cases hm : it.1 ∈ l
  · rw [insertSecret, if_pos hm]
  · rw [insertSecret_eq hm, filter_append, filter_cons_of_neg (by simp [hp]), ← filter_append,
      take_append_drop]

/-- A secret chat never comes to the end of a list. -/
theorem getLast?_insertSecret {l : List Int} (h : l ≠ []) (it : Int × Nat) :
    (insertSecret l it).getLast? = l.getLast? := by
  have hpos := length_pos_iff.mpr h
  by_cases hm : it.1 ∈ l
  · rw [insertSecret, if_pos hm]
  · have hdrop : l.drop (min it.2 (l.length - 1)) ≠ [] := fun hnil => by
      have := drop_eq_nil_iff.mp hnil
      omega
    conv_rhs => rw [← take_append_drop (min it.2 (l.length - 1)) l]
    rw [insertSecret_eq hm, getLast?_append_of_ne_nil _ (cons_ne_nil _ _),
      getLast?_append_of_ne_nil _ hdrop, getLast?_cons_of_ne_nil hdrop]

variable {l : List Int} {its : List (Int × Nat)}

theorem nodup_insertSecrets (h : l.Nodup) : (its.foldl insertSecret l).Nodup := by
  induction its generalizing l with
  | nil => exact h
  | cons it its ih => exact ih (nodup_insertSecret h it)

theorem length_insertSecrets_le : (its.foldl insertSecret l).length ≤ its.length + l.length := by
  induction its generalizing l with
  | nil => exact Nat.le_add_left _ _
  | cons it its ih =>
    have hone : (insertSecret l it).length ≤ l.length + 1 := by
      rw [insertSecret]
      split
      · exact Nat.le_succ _
      · exact length_insertIdx_le_succ
    have := ih (l := insertSecret l it)
    rw [foldl_cons, length_cons]
    omega

theorem mem_insertSecrets : x ∈ its.foldl insertSecret l ↔ x ∈ its.map Prod.fst ∨ x ∈ l := by
  induction its generalizing l with
  | nil => simp
  | cons it its ih => rw [foldl_cons, ih, mem_insertSecret, map_cons, mem_cons, or_left_comm, or_assoc]

theorem getLast?_insertSecrets (h : l ≠ []) : (its.foldl insertSecret l).getLast? = l.getLast? := by
  induction its generalizing l with
  | nil => rfl
  | cons it its ih =>
    rw [foldl_cons, ih, getLast?_insertSecret h it]
    exact ne_nil_of_mem (mem_insertSecret.mpr (.inl rfl))

theorem filter_insertSecrets_of_not (hp : ∀ it ∈ its, p it.1 = false) :
    (its.foldl insertSecret l).filter p = l.filter p := by
  induction its generalizing l with
  | nil => rfl
  | cons it its ih =>
    rw [foldl_cons, ih fun it' h => hp it' (mem_cons_of_mem _ h),
      filter_insertSecret_of_not (hp it mem_cons_self)]

/-- A list that is not empty gets the secret chats in their order: each comes behind the place `b`, from which on the
list has none. -/
theorem filter_insertSecrets {b : Nat} (hb : b < l.length) (hfree : ∀ x ∈ l.drop b, peerIdIsSecretChat x = false)
    (hpositions : ∀ it ∈ its, b ≤ it.2) (hincreasing : its.Pairwise fun it it' => it.2 < it'.2)
    (hsecret : ∀ it ∈ its, peerIdIsSecretChat it.1 = true) (hnew : ∀ it ∈ its, it.1 ∉ l)
    (hnd : (its.map Prod.fst).Nodup) :
    (its.foldl insertSecret l).filter peerIdIsSecretChat = l.filter peerIdIsSecretChat ++ its.map Prod.fst := by
  induction its generalizing l b with
  | nil => simp
  | cons it its ih =>
    obtain ⟨hfirst, hincreasing⟩ := pairwise_cons.mp hincreasing
    obtain ⟨hnot, hnd⟩ := nodup_cons.mp hnd
    have hle := hpositions it mem_cons_self
    have heq := insertSecret_eq (hnew it mem_cons_self)
    generalize hi : min it.2 (l.length - 1) = i at heq
    have hrest : ∀ x ∈ l.drop i, peerIdIsSecretChat x = false := fun x hx =>
      hfree x (mem_of_mem_drop (by rwa [drop_drop, show b + (i - b) = i by omega] : x ∈ (l.drop b).drop (i - b)))
    have hnone : (l.drop i).filter peerIdIsSecretChat = [] :=
      filter_eq_nil_iff.mpr fun x hx => by simp [hrest x hx]
    have hlen : (l.take i).length = i := length_take_of_le (by omega)
    rw [foldl_cons, ih (b := i + 1), heq, filter_append, filter_cons_of_pos (hsecret it mem_cons_self),
      hnone]
    · conv_rhs => rw [← take_append_drop i l, filter_append, hnone, append_nil]
      rw [map_cons, append_assoc, singleton_append]
    · rw [heq, length_append, length_cons, hlen, length_drop]
      omega
    · rw [heq, drop_append, hlen, drop_of_length_le (by omega), Nat.add_sub_cancel_left]
      exact hrest
    · intro it' hit'
      have := hfirst it' hit'
      omega
    · exact hincreasing
    · exact fun it' h => hsecret it' (mem_cons_of_mem _ h)
    · intro it' hit' hm
      rcases mem_insertSecret.mp hm with hsame | hm
      · exact hnot (hsame ▸ mem_map_of_mem hit')
      · exact hnew it' (mem_cons_of_mem _ hit') hm
    · exact hnd

/-! ### The positions -/

theorem secretPositions_fst (index : Nat) (peerIds : List Int) :
    (secretPositions index peerIds).map Prod.fst = peerIds.filter peerIdIsSecretChat := by
  induction peerIds generalizing index with
  | nil => rfl
  | cons peerId peerIds ih =>
    rw [secretPositions]
    split
    · next h => rw [map_cons, ih, filter_cons_of_pos h]
    · next h => rw [ih, filter_cons_of_neg h]

theorem le_of_mem_secretPositions {index : Nat} (h : it ∈ secretPositions index peerIds) : index ≤ it.2 := by
  induction peerIds generalizing index with
  | nil => exact absurd h not_mem_nil
  | cons peerId peerIds ih =>
    rw [secretPositions] at h
    split at h
    · rcases mem_cons.mp h with rfl | h
      · exact Nat.le_refl _
      · exact (Nat.le_succ _).trans (ih h)
    · exact (Nat.le_succ _).trans (ih h)

theorem secretPositions_increasing (index : Nat) (peerIds : List Int) :
    (secretPositions index peerIds).Pairwise fun it it' => it.2 < it'.2 := by
  induction peerIds generalizing index with
  | nil => exact List.Pairwise.nil
  | cons peerId peerIds ih =>
    rw [secretPositions]
    split
    · exact pairwise_cons.mpr ⟨fun it h => le_of_mem_secretPositions h, ih _⟩
    · exact ih _

/-- The secret chats of a list go back to their positions when its last conversation is not one of them. -/
theorem restore (before : List Int) (hnd : (before ++ peerIds).Nodup)
    (hlast : ∀ x, peerIds.getLast? = some x → peerIdIsSecretChat x = false) :
    (secretPositions before.length peerIds).foldl insertSecret
      (before ++ peerIds.filter fun x => !peerIdIsSecretChat x) = before ++ peerIds := by
  induction peerIds generalizing before with
  | nil => simp [secretPositions]
  | cons peerId peerIds ih =>
    have hlast' : ∀ x, peerIds.getLast? = some x → peerIdIsSecretChat x = false := fun x hx => by
      refine hlast x ?_
      rw [getLast?_cons_of_ne_nil, hx]
      rintro rfl
      cases hx
    have hnext := ih (before ++ [peerId]) (by simpa using hnd) hlast'
    rw [length_append, length_singleton, append_assoc, append_assoc, singleton_append,
      singleton_append] at hnext
    rw [secretPositions]
    cases hsecret : peerIdIsSecretChat peerId with
    | false =>
      rw [if_neg (by simp), filter_cons_of_pos (by simp [hsecret])]
      exact hnext
    | true =>
      have hne : peerIds ≠ [] := by
        rintro rfl
        simp [hlast peerId rfl] at hsecret
      have hrest : 0 < (peerIds.filter fun x => !peerIdIsSecretChat x).length := by
        obtain ⟨x, hx⟩ := Option.ne_none_iff_exists'.mp (mt getLast?_eq_none_iff.mp hne)
        exact length_pos_of_mem (mem_filter.mpr ⟨mem_of_getLast? hx, by simp [hlast' x hx]⟩)
      have hnew : peerId ∉ before ++ peerIds.filter fun x => !peerIdIsSecretChat x := fun hm => by
        rw [nodup_middle] at hnd
        refine (nodup_cons.mp hnd).1 (mem_append.mpr ((mem_append.mp hm).imp_right ?_))
        exact fun h => (mem_filter.mp h).1
      rw [if_pos rfl, filter_cons_of_neg (by simp [hsecret]), foldl_cons, insertSecret_eq hnew,
        length_append, min_eq_left (by dsimp only; omega), take_left, drop_left]
      exact hnext

/-! ## The update -/

/-- **The secret chats keep their places**: `now` has the peers of `server` in their order, and the secret chats of
`before` in theirs; and if nothing else has changed it is `before`. -/
structure KeepsSecretChats (before server now : List Int) : Prop where
  others : now.filter (fun x => !peerIdIsSecretChat x) = server
  secrets : now.filter peerIdIsSecretChat = before.filter peerIdIsSecretChat
  unchanged : server = before.filter (fun x => !peerIdIsSecretChat x) → now = before

theorem filter_secret_of_none (h : peerIds.filter (fun x => !peerIdIsSecretChat x) = []) :
    peerIds.filter peerIdIsSecretChat = peerIds :=
  filter_eq_self.mpr fun x hx => by simpa using filter_eq_nil_iff.mp h x hx

/-- Into an empty list the first secret chat goes first, and stays the last. -/
theorem insertSecrets_nil_iff (h : (its.map Prod.fst).Nodup) :
    its.foldl insertSecret [] = its.map Prod.fst ↔ its.length ≤ 1 := by
  cases its with
  | nil => simp
  | cons it its =>
    cases its with
    | nil => simp [insertSecret]
    | cons it' its =>
      refine iff_of_false (fun heq => ?_) (by simp)
      have hfirst : insertSecret [] it = [it.1] := by simp [insertSecret]
      have hlast : ((it' :: its).map Prod.fst).getLast? = some it.1 := by
        rw [← getLast?_cons_of_ne_nil (x := it.1) (show (it' :: its).map Prod.fst ≠ [] by simp),
          ← map_cons, ← heq, foldl_cons, hfirst, getLast?_insertSecrets (cons_ne_nil _ _)]
        rfl
      exact (nodup_cons.mp h).1 (mem_of_getLast? hlast)

variable {before server : List Int}

theorem insertSecrets_kept_iff (hbefore : before.Nodup) (hserver : ∀ x ∈ server, peerIdIsSecretChat x = false) :
    KeepsSecretChats before server ((secretPositions 0 before).foldl insertSecret server) ↔
      (server = [] → (before.filter peerIdIsSecretChat).length ≤ 1) ∧
      (server ≠ [] → server = before.filter (fun x => !peerIdIsSecretChat x) →
        ∀ x, before.getLast? = some x → peerIdIsSecretChat x = false) := by
  have hfst := secretPositions_fst 0 before
  have hnd : ((secretPositions 0 before).map Prod.fst).Nodup := hfst ▸ hbefore.filter _
  have hsecret : ∀ it ∈ secretPositions 0 before, peerIdIsSecretChat it.1 = true := fun it hit =>
    (mem_filter.mp (hfst ▸ mem_map_of_mem hit)).2
  have hlen : (secretPositions 0 before).length = (before.filter peerIdIsSecretChat).length := by
    rw [← hfst, length_map]
  have hothers : ((secretPositions 0 before).foldl insertSecret server).filter (fun x => !peerIdIsSecretChat x) =
      server := by
    rw [filter_insertSecrets_of_not fun it hit => by simp [hsecret it hit]]
    exact filter_eq_self.mpr fun x hx => by simp [hserver x hx]
  rcases eq_or_ne server [] with rfl | hne
  · have hall := filter_secret_of_none hothers
    simp only [true_imp_iff, ne_eq, not_true, false_imp_iff, and_true, ← hlen, ← insertSecrets_nil_iff hnd]
    constructor
    · intro h
      rw [← hall, h.secrets, hfst]
    · intro h
      refine ⟨hothers, by rw [hall, h, hfst], fun hnone => ?_⟩
      rw [h, hfst, filter_secret_of_none hnone.symm]
  · have hkept : ((secretPositions 0 before).foldl insertSecret server).filter peerIdIsSecretChat =
        before.filter peerIdIsSecretChat := by
      rw [filter_insertSecrets (length_pos_iff.mpr hne) (fun x hx => hserver x (mem_of_mem_drop hx))
        (fun _ _ => Nat.zero_le _) (secretPositions_increasing 0 before) hsecret
        (fun it hit hm => absurd (hsecret it hit) (by simp [hserver it.1 hm])) hnd, hfst,
        filter_eq_nil_iff.mpr fun x hx => by simp [hserver x hx], nil_append]
    simp only [hne, false_imp_iff, true_and, ne_eq, not_false_eq_true, true_imp_iff]
    constructor
    · intro h heq x hx
      rw [← h.unchanged heq, getLast?_insertSecrets hne] at hx
      exact hserver x (mem_of_getLast? hx)
    · intro h
      refine ⟨hothers, hkept, fun heq => ?_⟩
      have hrestore := restore [] (by simpa using hbefore) (h heq)
      rw [heq]
      simpa using hrestore

/-- **Pinned conversations**: as long as the dates do not run out, after an update from the server the secret chats keep
their places exactly if all its peers can be loaded, and it is not empty or there is one secret chat at most, and where
only the secret chats are missing in it the last conversation was none of them. -/
theorem secretChats_kept_iff (order : DateSort) (isLoaded : Int → Bool) (dates : List (Int × Int))
    (hkeys : (dates.map Prod.fst).Nodup) (hnodup : server.Nodup)
    (hserver : ∀ x ∈ server, peerIdIsSecretChat x = false)
    (hdates : pinnedDateBase + ((getPinnedConversations order isLoaded dates).length + server.length) < 2 ^ 31) :
    KeepsSecretChats (getPinnedConversations order isLoaded dates) server
      (getPinnedConversations order isLoaded (updatePinnedConversations order isLoaded dates server [] false)) ↔
      (∀ x ∈ server, isLoaded x = true) ∧
      (server = [] → ((getPinnedConversations order isLoaded dates).filter peerIdIsSecretChat).length ≤ 1) ∧
      (server ≠ [] → server = (getPinnedConversations order isLoaded dates).filter (fun x => !peerIdIsSecretChat x) →
        ∀ x, (getPinnedConversations order isLoaded dates).getLast? = some x → peerIdIsSecretChat x = false) := by
  have hbefore : (getPinnedConversations order isLoaded dates).Nodup :=
    (((order.perm dates).map Prod.fst).nodup_iff.mpr hkeys).filter _
  have hloaded : ∀ x ∈ getPinnedConversations order isLoaded dates, isLoaded x = true := fun x hx =>
    (mem_filter.mp hx).2
  generalize hL : getPinnedConversations order isLoaded dates = before at *
  rw [← insertSecrets_kept_iff hbefore hserver]
  have hnow : getPinnedConversations order isLoaded (updatePinnedConversations order isLoaded dates server [] false) =
      ((secretPositions 0 before).foldl insertSecret server).filter isLoaded := by
    rw [updatePinnedConversations, hL]
    simp only [Bool.false_eq_true, if_false, not_mem_nil, not_false_eq_true, decide_true, filter_true]
    refine getPinnedConversations_dates order isLoaded (nodup_insertSecrets hnodup) ?_
    have hle : ((secretPositions 0 before).foldl insertSecret server).length ≤ _ := length_insertSecrets_le
    have hsecrets := length_filter_le peerIdIsSecretChat before
    rw [← secretPositions_fst 0, length_map] at hsecrets
    omega
  rw [hnow]
  have hall (h : ∀ x ∈ server, isLoaded x = true) : ((secretPositions 0 before).foldl insertSecret server).filter
      isLoaded = (secretPositions 0 before).foldl insertSecret server := by
    rw [filter_eq_self]
    intro x hx
    rcases mem_insertSecrets.mp hx with hx | hx
    · rw [secretPositions_fst] at hx
      exact hloaded x (mem_filter.mp hx).1
    · exact h x hx
  constructor
  · intro h
    have hserver : ∀ x ∈ server, isLoaded x = true := fun x hx => by
      rw [← h.others] at hx
      exact (mem_filter.mp (mem_filter.mp hx).1).2
    exact ⟨hserver, hall hserver ▸ h⟩
  · rintro ⟨hserver, h⟩
    rwa [hall hserver]

/-- The entries with greater dates first. -/
def insertionDateSort : DateSort where
  sort := List.insertionSort fun entry entry' => entry'.2 ≤ entry.2
  perm := perm_insertionSort _
  descending dates :=
    have : Std.Total fun entry entry' : Int × Int => entry'.2 ≤ entry.2 :=
      ⟨fun entry entry' => le_total entry'.2 entry.2⟩
    have : IsTrans (Int × Int) fun entry entry' => entry'.2 ≤ entry.2 := ⟨fun _ _ _ h h' => le_trans h' h⟩
    pairwise_insertionSort _ dates

/-- A chat with user 7 above a secret chat. -/
theorem secretChats_kept_first :
    KeepsSecretChats [int32Min - 1, 7] [7]
      (getPinnedConversations insertionDateSort (fun _ => true)
        (updatePinnedConversations insertionDateSort (fun _ => true)
          [(int32Min - 1, 1600000001), (7, 1600000000)] [7] [] false)) :=
  (secretChats_kept_iff insertionDateSort (fun _ => true) [(int32Min - 1, 1600000001), (7, 1600000000)] (by decide)
    (by decide) (by decide) (by decide)).mpr ⟨by decide, by decide, fun _ _ x hx => by
      cases hx
      decide⟩

/-- A secret chat behind a chat with user 7 comes before it. -/
theorem lastSecretChat_moved :
    ¬ KeepsSecretChats [7, int32Min - 1] [7]
      (getPinnedConversations insertionDateSort (fun _ => true)
        (updatePinnedConversations insertionDateSort (fun _ => true)
          [(int32Min - 1, 1600000000), (7, 1600000001)] [7] [] false)) := by
  intro h
  exact absurd (h.unchanged (by decide)) (by decide)

end TelegramClient.Database
