import TelegramClient.Lib.Bytes
import TelegramClient.Lib.SortedTable

/-!
# Ranges of a key-value table

`PSLMDBKeyValueReaderWriter` enumerates the entries between two keys with a cursor. The database is a sorted map. A seek
to a range stands at the first key that is not below the target, and a seek to a key that fails stands there too, so that
the step back from it goes to the greatest smaller key.

* `positionAt`, `enumerateKeysAndValues`, `readValueBetween` : the code, for both directions;
* **`enumerate_exact_iff`** : when the block is called for these entries.
-/

namespace TelegramClient.Storage
open List

variable {K V σ : Type*}

/-! ## The reader -/

/-- The `while` loop, over what `previous` or `next` yields. -/
def continueSearch (inRange : K → Bool) (block : K × V → σ → Bool × σ) : List (K × V) → σ → σ
  | [], s => s
  | e :: ahead, s =>
      if inRange e.1 then
        let (stop, s') := block e s
        if stop then s' else continueSearch inRange block ahead s'
      else s

variable (inRange : K → Bool) (block : K × V → σ → Bool × σ)

theorem continueSearch_cons (e : K × V) (ahead : List (K × V)) (s : σ) : continueSearch inRange block (e :: ahead) s =
      if inRange e.1 then if (block e s).1 then (block e s).2 else continueSearch inRange block ahead (block e s).2
      else s := rfl

variable [LinearOrder K]

/-- `PSKeyValueReaderEnumerationOptions`. -/
structure EnumerationOptions where
  reverse : Bool
  lowerBoundExclusive : Bool
  upperBoundExclusive : Bool
deriving DecidableEq

/-- `positionAt:directionIfNotFound:`. -/
def positionAt (t : SortedTable K V) (key : K) : CursorDirection → Option ((K × V) × TableCursor K V)
  | .forward => (t.seekRange key).map fun e => (e, t.cursorAt key)
  | .back =>
      match t.seekKey key with
      | some e => some (e, t.cursorAt key)
      | none => (t.cursorAt key).previous

/-- One of the two mirrored branches: from one bound in a direction, while the other bound admits the keys. -/
def enumerateFrom (t : SortedTable K V) (direction : CursorDirection) (bound : K) (boundExclusive : Bool)
    (inRange : K → Bool) (block : K × V → σ → Bool × σ) (s : σ) : σ :=
  match positionAt t bound direction with
  | none => s
  | some (positioned, cursor) =>
      let moved := if boundExclusive = true ∧ bound = positioned.1 then cursor.move direction else some (positioned, cursor)
      match moved with
      | none => s
      | some (current, cursor) =>
          -- `positionedKeyVal` keeps the key of the first position.
          if inRange positioned.1 then
            let (stop, s') := block current s
            if stop then s' else continueSearch inRange block (cursor.ahead direction) s'
          else s

def aboveLower (lower : K) (options : EnumerationOptions) (key : K) : Bool :=
  if options.lowerBoundExclusive then lower < key else lower ≤ key

def belowUpper (upper : K) (options : EnumerationOptions) (key : K) : Bool :=
  if options.upperBoundExclusive then key < upper else key ≤ upper

/-- `enumerateKeysAndValuesBetweenLowerBoundKey:upperBoundKey:options:withBlock:`. -/
def enumerateKeysAndValues (t : SortedTable K V) (lower upper : K) (options : EnumerationOptions)
    (block : K × V → σ → Bool × σ) (s : σ) : σ :=
  if options.reverse then
    enumerateFrom t .back upper options.upperBoundExclusive (aboveLower lower options) block s
  else enumerateFrom t .forward lower options.lowerBoundExclusive (belowUpper upper options) block s

/-- `PSKeyValueReaderSelectKey`. -/
inductive SelectKey where
  | lowerKey
  | higherKey
deriving DecidableEq

def SelectKey.options (selectKey : SelectKey) : EnumerationOptions := ⟨selectKey = .higherKey, false, false⟩

/-- `readValueBetweenLowerBoundKey:upperBoundKey:selectKey:selectedKey:selectedValue:`. -/
def readValueBetween (t : SortedTable K V) (lower upper : K) (selectKey : SelectKey) : Option (K × V) :=
  enumerateKeysAndValues t lower upper selectKey.options (fun e _ => (true, some e)) none

/-! ## What it is for -/

/-- The entries between the bounds, in the order of the direction. -/
def between (t : SortedTable K V) (lower upper : K) (options : EnumerationOptions) : List (K × V) :=
  let entries := t.entries.filter fun e => aboveLower lower options e.1 && belowUpper upper options e.1
  if options.reverse then entries.reverse else entries

/-- The bound is excluded, stored and admitted by the other bound, and the next key is not. -/
def Stale (t : SortedTable K V) (direction : CursorDirection) (bound : K) (boundExclusive : Bool)
    (inRange : K → Bool) : Prop :=
  boundExclusive = true ∧ (t.seekKey bound).isSome = true ∧ inRange bound = true ∧
    (t.beyond bound direction).head?.any (fun e => !inRange e.1) = true

def StaleFirst (t : SortedTable K V) (lower upper : K) (options : EnumerationOptions) : Prop :=
  if options.reverse then Stale t .back upper options.upperBoundExclusive (aboveLower lower options)
  else Stale t .forward lower options.lowerBoundExclusive (belowUpper upper options)

/-! ## The seek and the loop -/

section
variable (t : SortedTable K V)

variable {key : K} {direction : CursorDirection}

theorem positionAt_nil (h : t.run key direction = []) : positionAt t key direction = none := by
  cases direction with
  | forward =>
    have hseek : t.seekRange key = none := congrArg List.head? h
    rw [positionAt, hseek, Option.map_none]
  | back =>
    have hrun := h
    rw [t.run_eq, append_eq_nil_iff] at hrun
    have hseek : t.seekKey key = none := Option.toList_eq_nil_iff.mp hrun.1
    rw [positionAt, hseek]
    have hahead : (t.cursorAt key).ahead .back = [] := hrun.2
    exact TableCursor.move_of_ahead_nil hahead

theorem positionAt_cons {e : K × V} {es : List (K × V)} (h : t.run key direction = e :: es) :
    ∃ cursor, positionAt t key direction = some (e, cursor) ∧ cursor.ahead direction = es := by
  cases direction with
  | forward =>
    have hseek : t.seekRange key = some e := congrArg List.head? h
    exact ⟨t.cursorAt key, by rw [positionAt, hseek, Option.map_some], congrArg List.tail h⟩
  | back =>
    rw [t.run_eq] at h
    cases hseek : t.seekKey key with
    | some e' =>
      rw [hseek, Option.toList_some, singleton_append] at h
      obtain ⟨rfl, hes⟩ := List.cons.inj h
      exact ⟨t.cursorAt key, by rw [positionAt, hseek], hes⟩
    | none =>
      rw [hseek, Option.toList_none, nil_append] at h
      rw [positionAt, hseek]
      have hahead : (t.cursorAt key).ahead .back = e :: es := h
      exact TableCursor.move_of_ahead_cons hahead

end

omit [LinearOrder K] in
theorem continueSearch_eq (ahead : List (K × V)) (s : σ) :
    continueSearch inRange block ahead s = feed block (ahead.takeWhile fun e => inRange e.1) s := by
  induction ahead generalizing s with
  | nil => rfl
  | cons e ahead ih =>
    rw [continueSearch_cons]
    cases hrange : inRange e.1 with
    | true =>
      rw [takeWhile_cons_of_pos (by rw [hrange]), feed_cons, ih, if_pos rfl]
    | false =>
      rw [takeWhile_cons_of_neg (by rw [hrange]; exact Bool.false_ne_true), if_neg Bool.false_ne_true, feed]

/-! ## One direction -/

section
variable (t : SortedTable K V) (direction : CursorDirection) (bound : K) (boundExclusive : Bool) (inRange : K → Bool)
  (block : K × V → σ → Bool × σ) (s : σ)

def candidates : List (K × V) := if boundExclusive then t.beyond bound direction else t.run bound direction

variable {e : K × V}

theorem enumerateFrom_of_run {es : List (K × V)} (hrun : t.run bound direction = e :: es)
    (hstay : ¬(boundExclusive = true ∧ bound = e.1)) : enumerateFrom t direction bound boundExclusive inRange block s =
      feed block ((e :: es).takeWhile fun e => inRange e.1) s := by
  obtain ⟨cursor, hpositioned, hahead⟩ := positionAt_cons t hrun
  rw [← continueSearch_eq]
  unfold enumerateFrom
  rw [hpositioned]
  dsimp only
  rw [if_neg hstay]
  dsimp only
  rw [hahead, continueSearch]

theorem enumerateFrom_of_move (hseek : t.seekKey bound = some e) (hexclusive : boundExclusive = true) :
    enumerateFrom t direction bound boundExclusive inRange block s =
      match t.beyond bound direction with
      | [] => s
      | e' :: es =>
        if inRange bound then feed block (e' :: es.takeWhile fun e => inRange e.1) s else s := by
  have hkey := t.key_of_seekKey hseek
  have hrun := t.run_eq bound direction
  rw [hseek, Option.toList_some, singleton_append] at hrun
  obtain ⟨cursor, hpositioned, hahead⟩ := positionAt_cons t hrun
  unfold enumerateFrom
  rw [hpositioned]
  dsimp only
  rw [if_pos ⟨hexclusive, hkey.symm⟩, hkey]
  cases hbeyond : t.beyond bound direction with
  | nil =>
    rw [hbeyond] at hahead
    rw [TableCursor.move_of_ahead_nil hahead]
  | cons e' es =>
    rw [hbeyond] at hahead
    obtain ⟨cursor', hmove, hahead'⟩ := TableCursor.move_of_ahead_cons hahead
    rw [hmove]
    dsimp only
    rw [hahead', continueSearch_eq, feed]

theorem enumerateFrom_of_nil (hrun : t.run bound direction = []) :
    enumerateFrom t direction bound boundExclusive inRange block s = s := by
  unfold enumerateFrom
  rw [positionAt_nil t hrun]

end

section
variable {t : SortedTable K V} {direction : CursorDirection} {bound : K} {boundExclusive : Bool} {inRange : K → Bool}
  (hdown : (t.run bound direction).Pairwise fun a b => inRange b.1 = true → inRange a.1 = true)
  (block : K × V → σ → Bool × σ) (s : σ)
include hdown

theorem enumerateFrom_of_stale (h : Stale t direction bound boundExclusive inRange) :
    ∃ e, (candidates t direction bound boundExclusive).takeWhile (fun e => inRange e.1) = [] ∧
      enumerateFrom t direction bound boundExclusive inRange block s = feed block [e] s := by
  obtain ⟨hexclusive, hstor, hrange, hbeyond⟩ := h
  obtain ⟨e₀, hseek⟩ := Option.isSome_iff_exists.mp hstor
  rw [enumerateFrom_of_move t direction bound boundExclusive inRange block s hseek hexclusive, candidates,
    if_pos hexclusive]
  rw [t.run_eq] at hdown
  cases hlist : t.beyond bound direction with
  | nil =>
    rw [hlist] at hbeyond
    cases hbeyond
  | cons e es =>
    rw [hlist] at hbeyond hdown
    have hout : inRange e.1 = false := by simpa using hbeyond
    have hrest : es.takeWhile (fun e => inRange e.1) = [] := by
      cases es with
      | nil => rfl
      | cons e' es =>
        have hle := (pairwise_cons.mp (pairwise_append.mp hdown).2.1).1 e' mem_cons_self
        exact takeWhile_cons_of_neg fun hin => by simp [hle hin] at hout
    refine ⟨e, takeWhile_cons_of_neg (by rw [hout]; exact Bool.false_ne_true), ?_⟩
    dsimp only
    rw [if_pos hrange, hrest]

theorem enumerateFrom_of_not_stale (h : ¬Stale t direction bound boundExclusive inRange) :
    enumerateFrom t direction bound boundExclusive inRange block s =
      feed block ((candidates t direction bound boundExclusive).takeWhile fun e => inRange e.1) s := by
  have hrun := t.run_eq bound direction
  cases hexclusive : boundExclusive with
  | false =>
    rw [candidates, if_neg Bool.false_ne_true]
    rcases hlist : t.run bound direction with _ | ⟨e, es⟩
    · exact enumerateFrom_of_nil t direction bound false inRange block s hlist
    · exact enumerateFrom_of_run t direction bound false inRange block s hlist fun hmove =>
        Bool.false_ne_true hmove.1
  | true =>
    rw [candidates, if_pos rfl]
    cases hseek : t.seekKey bound with
    | none =>
      rw [hseek, Option.toList_none, nil_append] at hrun
      rcases hlist : t.run bound direction with _ | ⟨e, es⟩
      · rw [← hrun, hlist]
        exact enumerateFrom_of_nil t direction bound true inRange block s hlist
      · rw [← hrun, hlist]
        have hm : e ∈ t.beyond bound direction := by rw [← hrun, hlist]; exact mem_cons_self
        exact enumerateFrom_of_run t direction bound true inRange block s hlist fun hmove =>
          t.key_ne_of_mem_beyond hm hmove.2.symm
    | some e₀ =>
      rw [enumerateFrom_of_move t direction bound true inRange block s hseek rfl]
      rw [hseek, Option.toList_some, singleton_append] at hrun
      rw [hrun] at hdown
      cases hlist : t.beyond bound direction with
      | nil => rfl
      | cons e es =>
        rw [hlist] at hdown
        have hfirst := (pairwise_cons.mp hdown).1 e mem_cons_self
        rw [t.key_of_seekKey hseek] at hfirst
        dsimp only
        cases hin : inRange e.1 with
        | true =>
          rw [takeWhile_cons_of_pos (by rw [hin]), if_pos (hfirst hin)]
        | false =>
          have hbound : ¬inRange bound = true := fun hbound =>
            h ⟨hexclusive, by rw [hseek]; rfl, hbound, by rw [hlist]; simp [hin]⟩
          rw [takeWhile_cons_of_neg (by rw [hin]; exact Bool.false_ne_true), if_neg hbound]
          rfl

end

/-! ## Both directions -/

section
variable (t : SortedTable K V) (lower upper : K) (options : EnumerationOptions)

theorem candidates_forward : candidates t .forward lower options.lowerBoundExclusive =
      t.entries.filter fun e => aboveLower lower options e.1 := by
  unfold candidates aboveLower
  cases options.lowerBoundExclusive <;> rfl

theorem candidates_back : candidates t .back upper options.upperBoundExclusive =
      (t.entries.filter fun e => belowUpper upper options e.1).reverse := by
  unfold candidates belowUpper
  cases options.upperBoundExclusive <;> rfl

variable {a b : K}

theorem belowUpper_of_lt (hlt : a < b) (h : belowUpper upper options b = true) : belowUpper upper options a = true := by
  unfold belowUpper at h ⊢
  cases hexclusive : options.upperBoundExclusive with
  | true =>
    rw [hexclusive, if_pos rfl] at h
    rw [if_pos rfl]
    exact decide_eq_true (hlt.trans (of_decide_eq_true h))
  | false =>
    rw [hexclusive, if_neg Bool.false_ne_true] at h
    rw [if_neg Bool.false_ne_true]
    exact decide_eq_true (hlt.le.trans (of_decide_eq_true h))

theorem aboveLower_of_lt (hlt : a < b) (h : aboveLower lower options a = true) : aboveLower lower options b = true := by
  unfold aboveLower at h ⊢
  cases hexclusive : options.lowerBoundExclusive with
  | true =>
    rw [hexclusive, if_pos rfl] at h
    rw [if_pos rfl]
    exact decide_eq_true (lt_trans (of_decide_eq_true h) hlt)
  | false =>
    rw [hexclusive, if_neg Bool.false_ne_true] at h
    rw [if_neg Bool.false_ne_true]
    exact decide_eq_true (le_trans (of_decide_eq_true h) hlt.le)

theorem pairwise_run_forward : (t.run lower .forward).Pairwise fun a b =>
    belowUpper upper options b.1 = true → belowUpper upper options a.1 = true :=
  (t.sorted.sublist filter_sublist).imp (belowUpper_of_lt upper options)

theorem pairwise_run_back : (t.run upper .back).Pairwise fun a b =>
    aboveLower lower options b.1 = true → aboveLower lower options a.1 = true :=
  pairwise_reverse.mpr ((t.sorted.sublist filter_sublist).imp (aboveLower_of_lt lower options))

theorem takeWhile_candidates {bound : K} {direction : CursorDirection} {inRange : K → Bool} (boundExclusive : Bool)
    (hdown : (t.run bound direction).Pairwise fun a b => inRange b.1 = true → inRange a.1 = true) :
    ((candidates t direction bound boundExclusive).takeWhile fun e => inRange e.1) =
      (candidates t direction bound boundExclusive).filter fun e => inRange e.1 := by
  unfold candidates
  cases boundExclusive with
  | true =>
    rw [t.run_eq] at hdown
    exact takeWhile_eq_filter (pairwise_append.mp hdown).2.1
  | false => exact takeWhile_eq_filter hdown

theorem enumerateKeysAndValues_spec (block : K × V → σ → Bool × σ) (s : σ) : (¬StaleFirst t lower upper options →
      enumerateKeysAndValues t lower upper options block s = feed block (between t lower upper options) s) ∧
    (StaleFirst t lower upper options → between t lower upper options = [] ∧
      ∃ e, enumerateKeysAndValues t lower upper options block s = feed block [e] s) := by
  unfold StaleFirst enumerateKeysAndValues between
  dsimp only
  rw [← filter_filter]
  cases options.reverse with
  | true =>
    have hdown := pairwise_run_back t lower upper options
    have hbetween := takeWhile_candidates t options.upperBoundExclusive hdown
    rw [if_pos rfl, if_pos rfl, if_pos rfl, ← filter_reverse, ← candidates_back, ← hbetween]
    refine ⟨enumerateFrom_of_not_stale hdown block s, fun hstale => ?_⟩
    obtain ⟨e, hempty, heq⟩ := enumerateFrom_of_stale hdown block s hstale
    exact ⟨hempty, e, heq⟩
  | false =>
    have hdown := pairwise_run_forward t lower upper options
    have hbetween := takeWhile_candidates t options.lowerBoundExclusive hdown
    have hswap : (t.entries.filter fun e => belowUpper upper options e.1).filter
        (fun e => aboveLower lower options e.1) =
          (candidates t .forward lower options.lowerBoundExclusive).filter fun e => belowUpper upper options e.1 := by
      rw [candidates_forward, filter_filter, filter_filter]
      exact filter_congr fun e _ => Bool.and_comm _ _
    rw [if_neg Bool.false_ne_true, if_neg Bool.false_ne_true, if_neg Bool.false_ne_true, hswap, ← hbetween]
    refine ⟨enumerateFrom_of_not_stale hdown block s, fun hstale => ?_⟩
    obtain ⟨e, hempty, heq⟩ := enumerateFrom_of_stale hdown block s hstale
    exact ⟨hempty, e, heq⟩

theorem readValueBetween_eq (selectKey : SelectKey) :
    readValueBetween t lower upper selectKey = (between t lower upper selectKey.options).head? := by
  -- Both bounds are included.
  have hexact : ¬StaleFirst t lower upper selectKey.options := by
    unfold StaleFirst Stale SelectKey.options
    split <;> exact fun h => Bool.false_ne_true h.1
  unfold readValueBetween
  rw [(enumerateKeysAndValues_spec t lower upper selectKey.options _ none).1 hexact]
  cases between t lower upper selectKey.options <;> rfl

end

/-- The block is called for the entries between the bounds in their order, up to the first call that stops, and a single
value is read as the first of them, if and only if it is not the case that the first bound is excluded, stored and admitted
by the other bound while the next key is not. -/
theorem enumerate_exact_iff (t : SortedTable K V) (lower upper : K) (options : EnumerationOptions)
    (stop : List (K × V) → Bool) :
    (enumerateKeysAndValues t lower upper options (recording stop) [] =
        feed (recording stop) (between t lower upper options) [] ∧
      ∀ selectKey, readValueBetween t lower upper selectKey = (between t lower upper selectKey.options).head?) ↔
    ¬StaleFirst t lower upper options := by
  obtain ⟨hexact, hstale⟩ := enumerateKeysAndValues_spec t lower upper options (recording stop) []
  constructor
  · rintro ⟨hcalls, -⟩ h
    obtain ⟨hempty, e, heq⟩ := hstale h
    rw [heq, hempty] at hcalls
    exact feed_recording_cons_ne_nil stop e [] hcalls
  · exact fun h => ⟨hexact h, fun selectKey => readValueBetween_eq t lower upper selectKey⟩

/-- Two entries, and an enumeration down from the second key, which is excluded, and down to it. -/
def twoEntries : SortedTable Bytes Nat := ⟨[([97], 1), ([99], 2)], by decide⟩

/-- Nothing is between the bounds, and the block is called for the smaller key. -/
theorem enumerate_below_lower :
    between twoEntries [99] [99] ⟨true, false, true⟩ = [] ∧
      enumerateKeysAndValues twoEntries [99] [99] ⟨true, false, true⟩ (recording fun _ => false) [] = [([97], 1)] := by
  decide

end TelegramClient.Storage
