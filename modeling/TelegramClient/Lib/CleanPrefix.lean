import Mathlib.Data.List.Chain
import Mathlib.Data.List.Perm.Subperm

/-!
# Windows of a list

Some members of a list have a key, and two keys may be apart. A walk ends before a key that is apart from the last one, and
a window is a part of the list in which no neighbouring keys are apart.

* `cleanPrefix` : the walk from the beginning of a list;
* `prefix_cleanPrefix_iff` : it is the longest beginning whose keys are a chain;
* `walkPrefix` : a walk with another test of keys, which may fail; `walkPrefix_eq_iff`: when it is the walk all the same;
* `IsWindow`, `isWindow_iff` : the windows around a member, as two beginnings that meet there;
* `largest_split_iff`, `largest_cons_iff` : **when walks in both directions, or in one, make up the largest window**.
-/

namespace TelegramClient
open List

section
variable {α κ : Type*} (key : α → Option κ) (apart : κ → κ → Bool) (test : κ → κ → Option Bool)

def cleanPrefix : Option κ → List α → List α
  | _, [] => []
  | last, m :: ms =>
    match key m with
    | none => m :: cleanPrefix last ms
    | some k => if last.any (apart · k) then [] else m :: cleanPrefix (some k) ms

def walkPrefix : Option κ → List α → Option (List α)
  | _, [] => some []
  | last, m :: ms =>
    match key m with
    | none => (walkPrefix last ms).map (m :: ·)
    | some k =>
      (last.elim (some false) (test · k)).bind fun stops =>
        if stops then some [] else (walkPrefix (some k) ms).map (m :: ·)

/-- The test says of neighbouring keys whether they are apart, up to the first ones that are. -/
def StopsAlike : List κ → Prop
  | k :: k' :: keys => test k k' = some (apart k k') ∧ (apart k k' = false → StopsAlike (k' :: keys))
  | _ => True

/-- A part of the list that has a member, without neighbouring keys that are apart. -/
structure IsWindow (l : List α) (anchor : α) (window : List α) : Prop where
  contiguous : window <:+: l
  anchor : anchor ∈ window
  clean : (window.filterMap key).IsChain fun k k' => apart k k' = false

/-- A window that all others are parts of, in some order. -/
def IsLargest (l : List α) (anchor : α) (result : List α) : Prop :=
  ∃ window, IsWindow key apart l anchor window ∧ result.Perm window ∧
    ∀ other, IsWindow key apart l anchor other → other ⊆ window

variable {key apart test}

/-! ## The walk -/

theorem cleanPrefix_none {m : α} (h : key m = none) (last : Option κ) (ms : List α) :
    cleanPrefix key apart last (m :: ms) = m :: cleanPrefix key apart last ms := by
  rw [cleanPrefix, h]

theorem cleanPrefix_some {m : α} {k : κ} (h : key m = some k) (last : Option κ) (ms : List α) :
    cleanPrefix key apart last (m :: ms) =
      if last.any (apart · k) then [] else m :: cleanPrefix key apart (some k) ms := by
  rw [cleanPrefix, h]

theorem cleanPrefix_front (last : Option κ) (l : List α) : cleanPrefix key apart last l <+: l := by
  induction l generalizing last with
  | nil => exact prefix_refl _
  | cons m ms ih =>
    cases h : key m with
    | none =>
      rw [cleanPrefix_none h]
      exact (prefix_cons_inj m).mpr (ih last)
    | some k =>
      rw [cleanPrefix_some h]
      split_ifs
      · exact nil_prefix
      · exact (prefix_cons_inj m).mpr (ih (some k))

/-- **The walk is the longest beginning** whose keys are a chain. -/
theorem prefix_cleanPrefix_iff {last : Option κ} {l p : List α} (hp : p <+: l) : p <+: cleanPrefix key apart last l ↔
      (last.toList ++ p.filterMap key).IsChain fun k k' => apart k k' = false := by
  induction l generalizing last p with
  | nil =>
    rw [prefix_nil.mp hp]
    refine iff_of_true nil_prefix ?_
    cases last <;> simp
  | cons m ms ih =>
    cases p with
    | nil =>
      refine iff_of_true nil_prefix ?_
      cases last <;> simp
    | cons m' p =>
      obtain ⟨rfl, hrest⟩ := cons_prefix_cons.mp hp
      cases h : key m' with
      | none =>
        rw [cleanPrefix_none h, prefix_cons_inj, ih hrest, filterMap_cons_none h]
      | some k =>
        rw [cleanPrefix_some h, filterMap_cons_some h]
        have hwalk := @ih (some k) p hrest
        cases last with
        | none =>
          rw [if_neg (by simp), prefix_cons_inj, hwalk]
          rfl
        | some k' =>
          rw [Option.any_some]
          split_ifs with hapart
          · simp [hapart]
          · rw [prefix_cons_inj, hwalk]
            simp [hapart]

theorem head?_cleanPrefix (l : List α) :
    ((cleanPrefix key apart none l).filterMap key).head? = (l.filterMap key).head? := by
  induction l with
  | nil => rfl
  | cons m ms ih =>
    cases h : key m with
    | none => rw [cleanPrefix_none h, filterMap_cons_none h, filterMap_cons_none h, ih]
    | some k =>
      rw [cleanPrefix_some h, if_neg (by simp), filterMap_cons_some h, filterMap_cons_some h]
      rfl

theorem head_mem_cleanPrefix (m : α) (ms : List α) : m ∈ cleanPrefix key apart none (m :: ms) := by
  cases h : key m with
  | none =>
    rw [cleanPrefix_none h]
    exact mem_cons_self
  | some k =>
    rw [cleanPrefix_some h, if_neg (by simp)]
    exact mem_cons_self

theorem walkPrefix_none {m : α} (h : key m = none) (last : Option κ) (ms : List α) :
    walkPrefix key test last (m :: ms) = (walkPrefix key test last ms).map (m :: ·) := by
  rw [walkPrefix, h]

theorem walkPrefix_some {m : α} {k : κ} (h : key m = some k) (last : Option κ) (ms : List α) :
    walkPrefix key test last (m :: ms) = (last.elim (some false) (test · k)).bind fun stops =>
      if stops then some [] else (walkPrefix key test (some k) ms).map (m :: ·) := by
  rw [walkPrefix, h]

theorem walkPrefix_front {last : Option κ} {l p : List α} (h : walkPrefix key test last l = some p) : p <+: l := by
  induction l generalizing last p with
  | nil => exact Option.some.inj h ▸ nil_prefix
  | cons m ms ih =>
    cases hkey : key m with
    | none =>
      rw [walkPrefix_none hkey] at h
      obtain ⟨rest, hrest, rfl⟩ := Option.map_eq_some_iff.mp h
      exact (prefix_cons_inj m).mpr (ih hrest)
    | some k =>
      rw [walkPrefix_some hkey] at h
      obtain ⟨stops, -, h⟩ := Option.bind_eq_some_iff.mp h
      split_ifs at h
      · exact Option.some.inj h ▸ nil_prefix
      · obtain ⟨rest, hrest, rfl⟩ := Option.map_eq_some_iff.mp h
        exact (prefix_cons_inj m).mpr (ih hrest)

theorem head?_walkPrefix {l p : List α} (h : walkPrefix key test none l = some p) :
    (p.filterMap key).head? = (l.filterMap key).head? := by
  induction l generalizing p with
  | nil => exact Option.some.inj h ▸ rfl
  | cons m ms ih =>
    cases hkey : key m with
    | none =>
      rw [walkPrefix_none hkey] at h
      obtain ⟨rest, hrest, rfl⟩ := Option.map_eq_some_iff.mp h
      rw [filterMap_cons_none hkey, filterMap_cons_none hkey, ih hrest]
    | some k =>
      rw [walkPrefix_some hkey] at h
      obtain ⟨rest, -, rfl⟩ := Option.map_eq_some_iff.mp h
      rw [filterMap_cons_some hkey, filterMap_cons_some hkey]
      rfl

/-- **The walk with the test** is that of the keys that are apart exactly when they stop alike. -/
theorem walkPrefix_eq_iff (last : Option κ) (l : List α) : walkPrefix key test last l = some (cleanPrefix key apart last l) ↔
    StopsAlike apart test (last.toList ++ l.filterMap key) := by
  have hmap (m : α) (p : Option (List α)) (q : List α) : p.map (m :: ·) = some (m :: q) ↔ p = some q := by
    cases p <;> simp
  induction l generalizing last with
  | nil =>
    refine iff_of_true rfl ?_
    cases last <;> trivial
  | cons m ms ih =>
    cases h : key m with
    | none =>
      rw [walkPrefix_none h, cleanPrefix_none h, filterMap_cons_none h]
      exact (hmap m _ _).trans (ih last)
    | some k =>
      rw [walkPrefix_some h, cleanPrefix_some h, filterMap_cons_some h]
      have hrest := (hmap m _ _).trans (ih (some k))
      cases last with
      | none => exact hrest
      | some k' =>
        show (test k' k).bind _ = some (if apart k' k = true then _ else _) ↔
          test k' k = some (apart k' k) ∧ (apart k' k = false → StopsAlike apart test (k :: ms.filterMap key))
        cases htest : test k' k with
        | none => simp
        | some stops =>
          cases hapart : apart k' k <;> cases stops
          · exact hrest.trans (by simp)
          · simp
          · simp
          · simp

/-! ## Windows around a member -/

theorem eq_of_prefix_of_subset {l p q : List α} (hl : l.Nodup) (hp : p <+: l) (hq : q <+: l) (hpq : p ⊆ q) (hqp : q ⊆ p) :
    p = q := by
  have hle : p.length ≤ q.length := ((hp.sublist.nodup hl).subperm hpq).length_le
  have hge : q.length ≤ p.length := ((hq.sublist.nodup hl).subperm hqp).length_le
  exact (prefix_of_prefix_length_le hp hq hle).eq_of_length (le_antisymm hle hge)

theorem isChain_filterMap_append (hsymm : ∀ k k', apart k k' = apart k' k) (newer older : List α) :
    ((newer.reverse ++ older).filterMap key).IsChain (fun k k' => apart k k' = false) ↔
      (newer.filterMap key).IsChain (fun k k' => apart k k' = false) ∧
        (older.filterMap key).IsChain (fun k k' => apart k k' = false) ∧
        ∀ k ∈ (newer.filterMap key).head?, ∀ k' ∈ (older.filterMap key).head?, apart k k' = false := by
  rw [filterMap_append, filterMap_reverse, isChain_append, isChain_reverse, getLast?_reverse]
  simp only [hsymm]

/-- **The windows around a member** go some way in both directions. -/
theorem isWindow_iff {pre post : List α} {anchor : α} (hnd : (pre ++ anchor :: post).Nodup) {window : List α} :
    IsWindow key apart (pre ++ anchor :: post) anchor window ↔
      ∃ newer older, window = newer.reverse ++ older ∧ newer <+: anchor :: pre.reverse ∧ anchor ∈ newer ∧ older <+: post ∧
        ((newer.reverse ++ older).filterMap key).IsChain fun k k' => apart k k' = false := by
  constructor
  · rintro ⟨⟨s, t, hst⟩, hm, hclean⟩
    obtain ⟨x, y, rfl⟩ := append_of_mem hm
    obtain ⟨-, hnot, -⟩ := nodup_append.mp hnd
    have hpost : anchor ∉ post := (nodup_cons.mp hnot).1
    have hpre : anchor ∉ pre := fun h => (nodup_append.mp hnd).2.2 anchor h anchor mem_cons_self rfl
    have hsplit : pre ++ anchor :: post = (s ++ x) ++ anchor :: (y ++ t) := by
      rw [← hst]
      simp only [append_assoc, cons_append]
    obtain ⟨rfl, -, rfl⟩ := (append_cons_inj_of_notMem hpre hpost).mp hsplit
    refine ⟨anchor :: x.reverse, y, ?_, ?_, mem_cons_self, prefix_append y t, ?_⟩
    · simp
    · rw [reverse_append, prefix_cons_inj]
      exact prefix_append _ _
    · simpa using hclean
  · rintro ⟨newer, older, rfl, ⟨s, hs⟩, hm, ⟨t, ht⟩, hclean⟩
    refine ⟨⟨s.reverse, t, ?_⟩, mem_append_left _ (mem_reverse.mpr hm), hclean⟩
    have hpre := congrArg List.reverse hs
    rw [reverse_append, reverse_cons, reverse_reverse] at hpre
    rw [← append_assoc, hpre, append_assoc, ht, append_assoc]
    rfl

theorem isWindow_cons_iff {l : List α} {anchor : α} (hnd : (anchor :: l).Nodup) {window : List α} :
    IsWindow key apart (anchor :: l) anchor window ↔
      window <+: anchor :: l ∧ anchor ∈ window ∧ (window.filterMap key).IsChain fun k k' => apart k k' = false := by
  constructor
  · intro h
    have hsplit : ([] ++ anchor :: l).Nodup := hnd
    obtain ⟨newer, older, rfl, hnewer, hm, holder, -⟩ := (isWindow_iff hsplit).mp h
    have heq : newer = [anchor] := by
      rcases prefix_cons_iff.mp hnewer with rfl | ⟨t, rfl, ht⟩
      · exact absurd hm not_mem_nil
      · rw [prefix_nil.mp ht]
    refine ⟨?_, h.anchor, h.clean⟩
    rw [heq]
    exact (prefix_cons_inj anchor).mpr holder
  · rintro ⟨hfront, hm, hclean⟩
    exact ⟨hfront.isInfix, hm, hclean⟩

/-! ## The largest window -/

theorem isChain_cleanPrefix (l : List α) :
    ((cleanPrefix key apart none l).filterMap key).IsChain fun k k' => apart k k' = false :=
  (prefix_cleanPrefix_iff (cleanPrefix_front none l)).mp (prefix_refl _)

theorem sides_of_nodup {pre post : List α} {anchor : α} (h : (pre ++ anchor :: post).Nodup) :
    (anchor :: pre.reverse).Nodup ∧ post.Nodup ∧ ∀ m ∈ anchor :: pre.reverse, m ∉ post := by
  have hsides : ((pre ++ [anchor]) ++ post).Nodup := by simpa using h
  obtain ⟨hpre, hpost, hdisj⟩ := nodup_append.mp hsides
  have hreverse : anchor :: pre.reverse = (pre ++ [anchor]).reverse := by simp
  rw [hreverse]
  exact ⟨pairwise_reverse.mpr (hpre.imp Ne.symm), hpost, fun m hm hm' => hdisj m (mem_reverse.mp hm) m hm' rfl⟩

theorem subset_of_append_subset {l l' p p' q q' : List α} (hdisj : ∀ m ∈ l, m ∉ l') (hp : p ⊆ l) (hp' : p' ⊆ l)
    (hq : q ⊆ l') (hq' : q' ⊆ l') (h : p ++ q ⊆ p' ++ q') : p ⊆ p' ∧ q ⊆ q' := by
  constructor
  · intro m hm
    exact (mem_append.mp (h (mem_append_left _ hm))).resolve_right fun hm' => hdisj m (hp hm) (hq' hm')
  · intro m hm
    exact (mem_append.mp (h (mem_append_right _ hm))).resolve_left fun hm' => hdisj m (hp' hm') (hq hm)

/-- **Two beginnings**, of what is before a member and of what is behind it, are the largest window exactly when they are
the walks and their first keys are not apart. -/
theorem largest_append_iff (hsymm : ∀ k k', apart k k' = apart k' k) {pre post : List α} {anchor : α}
    (hnd : (pre ++ anchor :: post).Nodup) {p q : List α} (hp : p <+: anchor :: pre.reverse) (hq : q <+: post)
    (hheadp : (p.filterMap key).head? = ((anchor :: pre.reverse).filterMap key).head?)
    (hheadq : (q.filterMap key).head? = (post.filterMap key).head?) :
    IsLargest key apart (pre ++ anchor :: post) anchor (p ++ q) ↔
      p = cleanPrefix key apart none (anchor :: pre.reverse) ∧ q = cleanPrefix key apart none post ∧
        ∀ k ∈ ((anchor :: pre.reverse).filterMap key).head?, ∀ k' ∈ (post.filterMap key).head?, apart k k' = false := by
  obtain ⟨hpre, hpost, hdisj⟩ := sides_of_nodup hnd
  have hbest (hmeet : ∀ k ∈ ((anchor :: pre.reverse).filterMap key).head?, ∀ k' ∈ (post.filterMap key).head?,
      apart k k' = false) : IsWindow key apart (pre ++ anchor :: post) anchor
        ((cleanPrefix key apart none (anchor :: pre.reverse)).reverse ++ cleanPrefix key apart none post) := by
    refine (isWindow_iff hnd).mpr ⟨_, _, rfl, cleanPrefix_front _ _, head_mem_cleanPrefix _ _, cleanPrefix_front _ _, ?_⟩
    rw [isChain_filterMap_append hsymm, head?_cleanPrefix, head?_cleanPrefix]
    exact ⟨isChain_cleanPrefix _, isChain_cleanPrefix _, hmeet⟩
  constructor
  · rintro ⟨window, hwindow, hperm, hlargest⟩
    obtain ⟨newer, older, rfl, hn, -, ho, hclean⟩ := (isWindow_iff hnd).mp hwindow
    -- the window consists of the two beginnings
    have hperm' := hperm.trans ((reverse_perm newer).append_right older)
    obtain ⟨hnw, how⟩ := subset_of_append_subset hdisj hp.subset hn.subset hq.subset ho.subset hperm'.subset
    obtain ⟨hwn, hwo⟩ := subset_of_append_subset hdisj hn.subset hp.subset ho.subset hq.subset hperm'.symm.subset
    obtain rfl := eq_of_prefix_of_subset hpre hn hp hwn hnw
    obtain rfl := eq_of_prefix_of_subset hpost ho hq hwo how
    rw [isChain_filterMap_append hsymm, hheadp, hheadq] at hclean
    obtain ⟨hcleann, hcleano, hmeet⟩ := hclean
    -- and has the walks as parts
    have hsubset : cleanPrefix key apart none (anchor :: pre.reverse) ++ cleanPrefix key apart none post ⊆ newer ++ older := by
      intro m hm
      have hin := hlargest _ (hbest hmeet) (((reverse_perm _).append_right _).symm.subset hm)
      exact ((reverse_perm _).append_right _).subset hin
    obtain ⟨hbn, hbo⟩ := subset_of_append_subset hdisj (cleanPrefix_front none _).subset hn.subset
      (cleanPrefix_front none _).subset ho.subset hsubset
    exact ⟨eq_of_prefix_of_subset hpre hn (cleanPrefix_front none _) ((prefix_cleanPrefix_iff hn).mpr hcleann).subset hbn,
      eq_of_prefix_of_subset hpost ho (cleanPrefix_front none _) ((prefix_cleanPrefix_iff ho).mpr hcleano).subset hbo,
      hmeet⟩
  · rintro ⟨rfl, rfl, hmeet⟩
    refine ⟨_, hbest hmeet, (reverse_perm _).symm.append_right _, fun other hother => ?_⟩
    obtain ⟨newer, older, rfl, hn, -, ho, hclean⟩ := (isWindow_iff hnd).mp hother
    obtain ⟨hcleann, hcleano, -⟩ := (isChain_filterMap_append hsymm newer older).mp hclean
    have hnewest : newer <+: cleanPrefix key apart none (anchor :: pre.reverse) :=
      (prefix_cleanPrefix_iff hn).mpr hcleann
    have holdest : older <+: cleanPrefix key apart none post := (prefix_cleanPrefix_iff ho).mpr hcleano
    refine append_subset.mpr ⟨fun m hm => ?_, fun m hm => mem_append_right _ (holdest.subset hm)⟩
    exact mem_append_left _ (mem_reverse.mpr (hnewest.subset (mem_reverse.mp hm)))

/-- **Two walks from a member on** make up the largest window exactly when both stop alike and their first keys are not
apart. -/
theorem largest_split_iff (hsymm : ∀ k k', apart k k' = apart k' k) {pre post : List α} {anchor : α}
    (hnd : (pre ++ anchor :: post).Nodup) :
    (∃ p q, walkPrefix key test none (anchor :: pre.reverse) = some p ∧ walkPrefix key test none post = some q ∧
        IsLargest key apart (pre ++ anchor :: post) anchor (p ++ q)) ↔
      StopsAlike apart test ((anchor :: pre.reverse).filterMap key) ∧ StopsAlike apart test (post.filterMap key) ∧
        ∀ k ∈ ((anchor :: pre.reverse).filterMap key).head?, ∀ k' ∈ (post.filterMap key).head?, apart k k' = false := by
  have hiff {p q : List α} (hp : walkPrefix key test none (anchor :: pre.reverse) = some p)
      (hq : walkPrefix key test none post = some q) :=
    largest_append_iff hsymm hnd (walkPrefix_front hp) (walkPrefix_front hq) (head?_walkPrefix hp) (head?_walkPrefix hq)
  constructor
  · rintro ⟨p, q, hp, hq, hlargest⟩
    obtain ⟨rfl, rfl, hmeet⟩ := (hiff hp hq).mp hlargest
    exact ⟨(walkPrefix_eq_iff none _).mp hp, (walkPrefix_eq_iff none _).mp hq, hmeet⟩
  · rintro ⟨hnewer, holder, hmeet⟩
    have hp := (walkPrefix_eq_iff none (anchor :: pre.reverse)).mpr hnewer
    have hq := (walkPrefix_eq_iff none post).mpr holder
    exact ⟨_, _, hp, hq, (hiff hp hq).mpr ⟨rfl, rfl, hmeet⟩⟩

/-- **One walk from the first member on** is the largest window exactly when it stops alike. -/
theorem largest_cons_iff {l : List α} {anchor : α} (hnd : (anchor :: l).Nodup) :
    (∃ p, walkPrefix key test none (anchor :: l) = some p ∧ IsLargest key apart (anchor :: l) anchor p) ↔
      StopsAlike apart test ((anchor :: l).filterMap key) := by
  have hwalk : walkPrefix key test none (anchor :: l) = some (cleanPrefix key apart none (anchor :: l)) ↔
      StopsAlike apart test ((anchor :: l).filterMap key) := walkPrefix_eq_iff none _
  have hlargest : IsWindow key apart (anchor :: l) anchor (cleanPrefix key apart none (anchor :: l)) :=
    (isWindow_cons_iff hnd).mpr ⟨cleanPrefix_front _ _, head_mem_cleanPrefix _ _, isChain_cleanPrefix _⟩
  rw [← hwalk]
  constructor
  · rintro ⟨p, hp, window, hwindow, hperm, hmax⟩
    obtain ⟨hfront, -, hclean⟩ := (isWindow_cons_iff hnd).mp hwindow
    obtain rfl := eq_of_prefix_of_subset hnd (walkPrefix_front hp) hfront hperm.subset hperm.symm.subset
    have hbest : p <+: cleanPrefix key apart none (anchor :: l) := (prefix_cleanPrefix_iff hfront).mpr hclean
    rw [hp, eq_of_prefix_of_subset hnd hfront (cleanPrefix_front _ _) hbest.subset (hmax _ hlargest)]
  · intro heq
    refine ⟨_, heq, _, hlargest, List.Perm.refl _, fun other hother => ?_⟩
    obtain ⟨hfront, -, hclean⟩ := (isWindow_cons_iff hnd).mp hother
    exact ((prefix_cleanPrefix_iff hfront).mpr hclean).subset

end

end TelegramClient
