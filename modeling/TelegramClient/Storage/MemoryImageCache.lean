import TelegramClient.Lib.KeyedTable
import TelegramClient.Lib.Runs

/-!
# The cache of images in memory

Images wait in a dictionary for the next time that they are shown. `_cacheSize` counts their bytes, and the oldest ones
leave when they become too many.

* `TGMemoryImageCache`, `setImage`, `imageForKey`, `clearCache` : the cache, whose numbers have 64 bits;
* **`imageCache_accounted_iff`** : the counter is right along a run exactly if every image that is set fits.
-/

namespace TelegramClient.Storage
open List
open KeyedTable (mem_deleteWhere total total_deleteWhere_key)

/-! ## The cache -/

/-- A `CFAbsoluteTime` is a point of the order `τ`. -/
structure TGMemoryImageCacheItem (ι α τ : Type) where
  object : ι
  attributes : Option α
  size : UInt64
  timestamp : τ
deriving DecidableEq

section
variable {κ ι α τ : Type} [DecidableEq κ] [LinearOrder τ]

abbrev ImageDictionary (κ ι α τ : Type) : Type := KeyedTable (Prod.fst : κ × TGMemoryImageCacheItem ι α τ → κ)

/-- `keysSortedByValueUsingComparator:` with the comparator of `_addSize:`, which leaves open how equal timestamps are
ordered. -/
structure TimestampSort (κ ι α τ : Type) [LinearOrder τ] where
  sort : List (κ × TGMemoryImageCacheItem ι α τ) → List (κ × TGMemoryImageCacheItem ι α τ)
  perm : ∀ rows, (sort rows).Perm rows
  sorted : ∀ rows, (sort rows).Pairwise fun a b => a.2.timestamp ≤ b.2.timestamp

def TimestampSort.stable : TimestampSort κ ι α τ where
  sort rows := rows.mergeSort fun a b => a.2.timestamp ≤ b.2.timestamp
  perm rows := mergeSort_perm rows _
  sorted rows := by
    refine (pairwise_mergeSort (fun a b c hab hbc => ?_) (fun a b => ?_) rows).imp of_decide_eq_true
    · simpa using le_trans (of_decide_eq_true hab) (of_decide_eq_true hbc)
    · simpa using le_total a.2.timestamp b.2.timestamp

structure TGMemoryImageCache (κ ι α τ : Type) where
  softMemoryLimit : UInt64
  hardMemoryLimit : UInt64
  cache : ImageDictionary κ ι α τ
  cacheSize : UInt64

/-- `initWithSoftMemoryLimit:hardMemoryLimit:`. -/
def TGMemoryImageCache.init (softMemoryLimit hardMemoryLimit : UInt64) : TGMemoryImageCache κ ι α τ where
  softMemoryLimit := softMemoryLimit
  hardMemoryLimit := max hardMemoryLimit softMemoryLimit
  cache := .empty
  cacheSize := 0

/-- The block that is called for one key after another. -/
def evictLoop : List (κ × TGMemoryImageCacheItem ι α τ) → Int64 → ImageDictionary κ ι α τ → ImageDictionary κ ι α τ
  | [], _, cache => cache
  | row :: rows, requiredMemory, cache =>
    let requiredMemory := requiredMemory - row.2.size.toInt64
    let cache := cache.deleteWhere fun other => other.1 = row.1
    if requiredMemory ≤ 0 then cache else evictLoop rows requiredMemory cache

/-- `currentCacheSize`. -/
def sumSizes (cache : ImageDictionary κ ι α τ) : UInt64 := cache.rows.foldl (fun sum row => sum + row.2.size) 0

namespace TGMemoryImageCache

variable (order : TimestampSort κ ι α τ) (byteSize : ι → UInt64)

/-- The images that are left when `size` bytes come in. -/
def evict (self : TGMemoryImageCache κ ι α τ) (size : UInt64) : ImageDictionary κ ι α τ :=
  if self.hardMemoryLimit < self.cacheSize + size then
    evictLoop (order.sort self.cache.rows) (self.cacheSize + size - self.softMemoryLimit).toInt64 self.cache
  else self.cache

/-- `_addSize:`. -/
def addSize (self : TGMemoryImageCache κ ι α τ) (size : UInt64) : TGMemoryImageCache κ ι α τ :=
  let cacheSize :=
    if self.hardMemoryLimit < self.cacheSize + size then sumSizes (self.evict order size) else self.cacheSize
  { self with cache := self.evict order size, cacheSize := cacheSize + size }

def clearCache (self : TGMemoryImageCache κ ι α τ) : TGMemoryImageCache κ ι α τ :=
  { self with cache := .empty, cacheSize := 0 }

/-- `imageForKey:attributes:` at the time `now`: what it returns, and the cache. -/
def imageForKey (self : TGMemoryImageCache κ ι α τ) (key : Option κ) (now : τ) :
    Option (ι × Option α) × TGMemoryImageCache κ ι α τ :=
  match key.bind fun key => self.cache.find key with
  | none => (none, self)
  | some row =>
    (some (row.2.object, row.2.attributes),
      { self with
        cache := self.cache.modify row.1 (fun row => (row.1, { row.2 with timestamp := now })) fun _ => rfl })

/-- What `setImage:` takes off for an image that is replaced. -/
def takeOff (self : TGMemoryImageCache κ ι α τ) (key : κ) : UInt64 :=
  match self.cache.find key with
  | some row => if self.cacheSize < row.2.size then 0 else self.cacheSize - row.2.size
  | none => self.cacheSize

/-- The dictionary and the counter before `_addSize:`. -/
def store (self : TGMemoryImageCache κ ι α τ) (key : κ) (image : ι) (attributes : Option α) (now : τ) :
    TGMemoryImageCache κ ι α τ :=
  { self with
    cache := self.cache.insertOrReplace (key, ⟨image, attributes, byteSize image, now⟩)
    cacheSize := self.takeOff key }

/-- `setImage:forKey:attributes:`, with `none` for what is no image. -/
def setImage (self : TGMemoryImageCache κ ι α τ) (image : Option ι) (key : Option κ) (attributes : Option α) (now : τ) :
    TGMemoryImageCache κ ι α τ :=
  match key, image with
  | none, _ => self
  | some key, some image => (self.store byteSize key image attributes now).addSize order (byteSize image)
  | some key, none =>
    { self with cache := self.cache.deleteWhere fun row => row.1 = key, cacheSize := self.takeOff key }

end TGMemoryImageCache

/-- The calls, one after another on the main queue. -/
inductive ImageCacheCall (κ ι α τ : Type) where
  | setImage (image : Option ι) (key : Option κ) (attributes : Option α) (now : τ)
  | imageForKey (key : Option κ) (now : τ)
  | clearCache

def stepImageCache (order : TimestampSort κ ι α τ) (byteSize : ι → UInt64) (self : TGMemoryImageCache κ ι α τ) :
    ImageCacheCall κ ι α τ → TGMemoryImageCache κ ι α τ
  | .setImage image key attributes now => self.setImage order byteSize image key attributes now
  | .imageForKey key now => (self.imageForKey key now).2
  | .clearCache => self.clearCache

/-! ## Evictions -/

omit [LinearOrder τ] in
theorem evictLoop_eq (rows : List (κ × TGMemoryImageCacheItem ι α τ)) (requiredMemory : Int64)
    (cache : ImageDictionary κ ι α τ) : ∃ before after, rows = before ++ after ∧
      ∀ row, row ∈ (evictLoop rows requiredMemory cache).rows ↔ row ∈ cache.rows ∧ row.1 ∉ before.map Prod.fst := by
  induction rows generalizing requiredMemory cache with
  | nil => exact ⟨[], [], rfl, fun row => by simp [evictLoop]⟩
  | cons first rows ih =>
    unfold evictLoop
    dsimp only
    split
    · exact ⟨[first], rows, rfl, fun row => by simp⟩
    · obtain ⟨before, after, rfl, hm⟩ := ih (requiredMemory - first.2.size.toInt64)
        (cache.deleteWhere fun other => other.1 = first.1)
      refine ⟨first :: before, after, rfl, fun row => ?_⟩
      rw [hm, mem_deleteWhere, map_cons, mem_cons, not_or, decide_eq_false_iff_not, and_assoc]

variable (order : TimestampSort κ ι α τ) (byteSize : ι → UInt64)

theorem TGMemoryImageCache.evict_oldest (self : TGMemoryImageCache κ ι α τ) (size : UInt64)
    {row other : κ × TGMemoryImageCacheItem ι α τ} (hrow : row ∈ self.cache.rows)
    (hgone : row ∉ (self.evict order size).rows) (hother : other ∈ (self.evict order size).rows) :
    row.2.timestamp ≤ other.2.timestamp := by
  unfold evict at hgone hother
  split at hgone
  case isFalse => exact absurd hrow hgone
  case isTrue hfull =>
    rw [if_pos hfull] at hother
    obtain ⟨before, after, hsplit, hm⟩ := evictLoop_eq (order.sort self.cache.rows)
      (self.cacheSize + size - self.softMemoryLimit).toInt64 self.cache
    obtain ⟨hotherRow, hotherKey⟩ := (hm other).mp hother
    have hleft : row.1 ∈ before.map Prod.fst := by
      by_contra hkept
      exact hgone ((hm row).mpr ⟨hrow, hkept⟩)
    have hsorted := order.sorted self.cache.rows
    have hrows := order.perm self.cache.rows
    rw [hsplit] at hsorted hrows
    obtain ⟨row', hrow', hkey⟩ := mem_map.mp hleft
    have hsame : row' = row := self.cache.eq_of_key (hrows.mem_iff.mp (mem_append_left _ hrow')) hrow hkey
    have hafter : other ∈ after := by
      rcases mem_append.mp (hrows.mem_iff.mpr hotherRow) with hin | hin
      · exact absurd (mem_map_of_mem hin) hotherKey
      · exact hin
    exact (pairwise_append.mp hsorted).2.2 row (hsame ▸ hrow') other hafter

/-! ## Sums of sizes -/

def totalSize (cache : ImageDictionary κ ι α τ) : Nat := cache.total fun row => row.2.size.toNat

omit [DecidableEq κ] [LinearOrder τ] in
theorem toNat_sumSizes (cache : ImageDictionary κ ι α τ) : (sumSizes cache).toNat = totalSize cache % 2 ^ 64 := by
  have hfold : ∀ (rows : List (κ × TGMemoryImageCacheItem ι α τ)) (sum : UInt64),
      (rows.foldl (fun sum row => sum + row.2.size) sum).toNat =
        (sum.toNat + (rows.map fun row => row.2.size.toNat).sum) % 2 ^ 64 := by
    intro rows
    induction rows with
    | nil => exact fun sum => (Nat.mod_eq_of_lt sum.toNat_lt).symm
    | cons row rows ih =>
      intro sum
      rw [foldl_cons, ih, UInt64.toNat_add, map_cons, sum_cons]
      omega
  rw [sumSizes, hfold, totalSize, total]
  simp

omit [LinearOrder τ] in
theorem totalSize_insertOrReplace (cache : ImageDictionary κ ι α τ) (row : κ × TGMemoryImageCacheItem ι α τ) :
    totalSize (cache.insertOrReplace row) =
      totalSize (cache.deleteWhere fun other => other.1 = row.1) + row.2.size.toNat := by
  have hfree : (cache.deleteWhere fun other => other.1 = row.1).find row.1 = none :=
    KeyedTable.find_eq_none.mpr fun other hother => of_decide_eq_false (mem_deleteWhere.mp hother).2
  rw [totalSize, totalSize, KeyedTable.insertOrReplace, KeyedTable.insertOrIgnore, dif_pos hfree]
  simp [total]

/-! ## Accounting -/

/-- The counter is the sum of the sizes, no image leaves before an older one, and after a set there is no more than
allowed but for an image that is too large alone. -/
structure Accounted (c : TGMemoryImageCache κ ι α τ) (call : ImageCacheCall κ ι α τ) : Prop where
  counted : (stepImageCache order byteSize c call).cacheSize.toNat =
    totalSize (stepImageCache order byteSize c call).cache
  oldest : ∀ image key attributes now, call = .setImage (some image) (some key) attributes now →
    ∀ row ∈ (c.store byteSize key image attributes now).cache.rows,
      row ∉ (stepImageCache order byteSize c call).cache.rows →
        ∀ other ∈ (stepImageCache order byteSize c call).cache.rows, row.2.timestamp ≤ other.2.timestamp
  bounded : ∀ image key attributes now, call = .setImage image key attributes now →
    totalSize (stepImageCache order byteSize c call).cache ≤ c.hardMemoryLimit.toNat ∨
      ∃ stored, image = some stored ∧ c.softMemoryLimit < byteSize stored

/-- An image that is set has no bytes, or there is room for it beside the images under the other keys. -/
def Fits (self : TGMemoryImageCache κ ι α τ) : ImageCacheCall κ ι α τ → Prop
  | .setImage (some image) (some key) _ _ =>
    byteSize image = 0 ∨
      totalSize (self.cache.deleteWhere fun row => row.1 = key) + (byteSize image).toNat ≤ self.hardMemoryLimit.toNat
  | _ => True

structure ImageCacheInv (c : TGMemoryImageCache κ ι α τ) : Prop where
  counted : c.cacheSize.toNat = totalSize c.cache
  bounded : totalSize c.cache ≤ c.hardMemoryLimit.toNat

section
variable {order byteSize} {self : TGMemoryImageCache κ ι α τ}

omit [LinearOrder τ] in
theorem ImageCacheInv.takeOff (h : ImageCacheInv self) (key : κ) :
    (self.takeOff key).toNat = totalSize (self.cache.deleteWhere fun row => row.1 = key) := by
  have htotal := total_deleteWhere_key self.cache (fun row => row.2.size.toNat) key
  have hcounted := h.counted
  unfold totalSize at *
  unfold TGMemoryImageCache.takeOff
  cases hfind : self.cache.find key with
  | none =>
    rw [hfind] at htotal
    exact hcounted.trans htotal.symm
  | some row =>
    rw [hfind] at htotal
    simp only [Option.elim_some] at htotal
    have hle : row.2.size ≤ self.cacheSize := UInt64.le_iff_toNat_le.mpr (by omega)
    dsimp only
    rw [if_neg (UInt64.not_lt.mpr hle), UInt64.toNat_sub_of_le _ _ hle]
    omega

omit [LinearOrder τ] in
theorem totalSize_store (key : κ) (image : ι) (attributes : Option α) (now : τ) :
    totalSize (self.store byteSize key image attributes now).cache =
      totalSize (self.cache.deleteWhere fun row => row.1 = key) + (byteSize image).toNat :=
  totalSize_insertOrReplace self.cache (key, ⟨image, attributes, byteSize image, now⟩)

theorem ImageCacheInv.addSize_store (h : ImageCacheInv self) {key : κ} {image : ι}
    (hfits : byteSize image = 0 ∨ totalSize (self.cache.deleteWhere fun row => row.1 = key) + (byteSize image).toNat ≤
      self.hardMemoryLimit.toNat) (attributes : Option α) (now : τ) :
    ImageCacheInv ((self.store byteSize key image attributes now).addSize order (byteSize image)) := by
  have htakeOff := h.takeOff key
  have htotal := total_deleteWhere_key self.cache (fun row => row.2.size.toNat) key
  have hbounded := h.bounded
  have hlimit := self.hardMemoryLimit.toNat_lt
  have hroom : totalSize (self.cache.deleteWhere fun row => row.1 = key) + (byteSize image).toNat ≤
      self.hardMemoryLimit.toNat := by
    rcases hfits with hzero | hroom
    · rw [hzero]
      unfold totalSize at *
      exact le_trans (Nat.le_add_right _ _) (htotal.trans_le hbounded)
    · exact hroom
  have hsum : (self.takeOff key + byteSize image).toNat = (self.takeOff key).toNat + (byteSize image).toNat := by
    rw [UInt64.toNat_add, Nat.mod_eq_of_lt (by omega)]
  have hkept : ¬self.hardMemoryLimit < self.takeOff key + byteSize image := by
    rw [UInt64.lt_iff_toNat_lt, hsum]
    omega
  have hevict : (self.store byteSize key image attributes now).evict order (byteSize image) =
      (self.store byteSize key image attributes now).cache := if_neg hkept
  have hadded : (self.store byteSize key image attributes now).addSize order (byteSize image) =
      { self.store byteSize key image attributes now with cacheSize := self.takeOff key + byteSize image } := by
    unfold TGMemoryImageCache.addSize
    rw [hevict]
    simp only [TGMemoryImageCache.store, hkept, if_false]
  rw [hadded]
  have hstor : totalSize (self.store byteSize key image attributes now).cache = _ :=
    totalSize_store key image attributes now
  exact ⟨by rw [hsum, htakeOff]; exact hstor.symm, hstor.trans_le hroom⟩

omit [LinearOrder τ] in
theorem ImageCacheInv.imageForKey (h : ImageCacheInv self) (key : Option κ) (now : τ) :
    ImageCacheInv (self.imageForKey key now).2 := by
  unfold TGMemoryImageCache.imageForKey
  cases key.bind fun key => self.cache.find key with
  | none => exact h
  | some row =>
    have hsame : totalSize (self.cache.modify row.1 (fun row => (row.1, { row.2 with timestamp := now })) fun _ => rfl) =
        totalSize self.cache := by
      unfold totalSize total KeyedTable.modify
      rw [map_map]
      refine congrArg List.sum (map_congr_left fun other _ => ?_)
      dsimp only [Function.comp_apply]
      split <;> rfl
    exact ⟨h.counted.trans hsame.symm, hsame.trans_le h.bounded⟩

variable {call : ImageCacheCall κ ι α τ}

theorem ImageCacheInv.step (h : ImageCacheInv self) (hfits : Fits byteSize self call) :
    ImageCacheInv (stepImageCache order byteSize self call) := by
  cases call with
  | imageForKey key now => exact h.imageForKey key now
  | clearCache => exact ⟨rfl, Nat.zero_le _⟩
  | setImage image key attributes now =>
    cases key with
    | none => exact h
    | some key =>
      cases image with
      | some image => exact h.addSize_store hfits attributes now
      | none =>
        have htotal := total_deleteWhere_key self.cache (fun row => row.2.size.toNat) key
        exact ⟨h.takeOff key, le_trans (Nat.le_add_right _ _) (htotal.trans_le h.bounded)⟩

theorem counted_addSize {size : UInt64}
    (hcounted : (self.addSize order size).cacheSize.toNat = totalSize (self.addSize order size).cache) :
    size = 0 ∨ self.cacheSize + size ≤ self.hardMemoryLimit ∧ (self.cacheSize + size).toNat = totalSize self.cache := by
  have hlt := size.toNat_lt
  unfold TGMemoryImageCache.addSize at hcounted
  dsimp only at hcounted
  by_cases hfull : self.hardMemoryLimit < self.cacheSize + size
  · rw [if_pos hfull, UInt64.toNat_add, toNat_sumSizes] at hcounted
    refine .inl (UInt64.toNat_inj.mp ?_)
    rw [UInt64.toNat_zero]
    omega
  · have hkept : self.evict order size = self.cache := if_neg hfull
    rw [if_neg hfull, hkept] at hcounted
    exact .inr ⟨UInt64.not_lt.mp hfull, hcounted⟩

theorem Accounted.fits (hcall : Accounted order byteSize self call) : Fits byteSize self call := by
  cases call with
  | imageForKey key now | clearCache => trivial
  | setImage image key attributes now =>
    cases image with
    | none => trivial
    | some image =>
      cases key with
      | none => trivial
      | some key =>
        rcases counted_addSize hcall.counted with hzero | ⟨hfits, hsum⟩
        · exact .inl hzero
        · refine Or.inr ?_
          rw [← totalSize_store key image attributes now, ← hsum]
          exact UInt64.le_iff_toNat_le.mp hfits

theorem ImageCacheInv.accounted (h : ImageCacheInv self) (hfits : Fits byteSize self call) :
    Accounted order byteSize self call where
  counted := (h.step hfits).counted
  oldest := by
    rintro image key attributes now rfl row hrow hgone other hother
    exact TGMemoryImageCache.evict_oldest order _ (byteSize image) hrow hgone hother
  bounded := by
    rintro image key attributes now rfl
    have hnext : ImageCacheInv (stepImageCache order byteSize self (.setImage image key attributes now)) := h.step hfits
    have hlimit : (stepImageCache order byteSize self (.setImage image key attributes now)).hardMemoryLimit =
        self.hardMemoryLimit := by
      unfold stepImageCache TGMemoryImageCache.setImage
      dsimp only
      split <;> rfl
    exact .inl (hlimit ▸ hnext.bounded)

omit [DecidableEq κ] [LinearOrder τ] in
theorem imageCacheInv_init (softMemoryLimit hardMemoryLimit : UInt64) :
    ImageCacheInv (TGMemoryImageCache.init softMemoryLimit hardMemoryLimit : TGMemoryImageCache κ ι α τ) :=
  ⟨rfl, Nat.zero_le _⟩

end

/-- **Accounting.** Along a run of calls the counter is the sum of the sizes, and the rest that should hold does, exactly
if every image that is set has no bytes or fits beside the images under the other keys. -/
theorem imageCache_accounted_iff (softMemoryLimit hardMemoryLimit : UInt64) (calls : List (ImageCacheCall κ ι α τ)) :
    AllSteps (stepImageCache order byteSize) (Accounted order byteSize) (.init softMemoryLimit hardMemoryLimit) calls ↔
      AllSteps (stepImageCache order byteSize) (Fits byteSize) (.init softMemoryLimit hardMemoryLimit) calls := by
  have hstep (self : TGMemoryImageCache κ ι α τ) (call : ImageCacheCall κ ι α τ) (_ : True) (h : ImageCacheInv self)
      (hfits : Fits byteSize self call) : ImageCacheInv (stepImageCache order byteSize self call) := h.step hfits
  have hiff (self : TGMemoryImageCache κ ι α τ) (call : ImageCacheCall κ ι α τ) (_ : True) (h : ImageCacheInv self) :
      Accounted order byteSize self call ↔ Fits byteSize self call := ⟨Accounted.fits, fun hfits => h.accounted hfits⟩
  exact allSteps_iff hstep hiff (imageCacheInv_init _ _) (allSteps_of_forall (fun _ _ => trivial) _)

end

/-- Images of 80 and 60 bytes where 100 are allowed: the second one is left alone, and counted twice. -/
theorem evicted_counted_twice :
    ¬AllSteps (stepImageCache .stable id) (Accounted (κ := Nat) (α := Unit) (τ := Nat) .stable id) (.init 100 100)
      [.setImage (some 80) (some 0) none 0, .setImage (some 60) (some 1) none 1] := by
  rintro ⟨-, hsecond, -⟩
  rcases hsecond.fits with hzero | hroom
  · exact absurd hzero (by decide)
  · revert hroom
    decide

end TelegramClient.Storage
