import TelegramClient.Messages.TextScanner

/-!
# The tokens of a text

The four markers of the scanner stand for at most one token that is open. A scanner that knows this is the model here: its
step keeps the open token, or closes it and may open another one.

* `closedToken_eq`, `finishedToken_eq` : what a token adds within the text and at its end, for all kinds alike;
* `scanCharacter_ofOpen` : **the code's step is its step**;
* `scanText_eq` : the results of the code from its run.
-/

namespace TelegramClient.Messages

/-! ## Kinds of tokens -/

def TGTextCheckingResultType.sign : TGTextCheckingResultType → UInt16
  | .mention => unichar '@'
  | .hashtag => unichar '#'
  | .cashtag => unichar '$'
  | .command => unichar '/'

section
variable (characterSet : AlphanumericSet) (flags : HighlightFlags)

def isTokenCharacter : TGTextCheckingResultType → UInt16 → Bool
  | .mention => isMentionCharacter flags
  | .hashtag => isHashtagCharacter characterSet
  | .cashtag => isUppercase
  | .command => isCommandCharacter characterSet

/-- The flag that lets tokens of a kind be found. -/
def HighlightFlags.finds : TGTextCheckingResultType → Bool
  | .command => flags.highlightCommands
  | _ => flags.highlightMentionsAndTags

end

/-- The text of a token without the sign; a command keeps it. -/
def contentsRange (kind : TGTextCheckingResultType) (start i : Nat) : NSRange :=
  if kind = .command then ⟨start, i - start⟩ else ⟨start + 1, i - start - 1⟩

/-- The result for the characters from `start` to `i`. -/
def tokenAt (text : NSString) (kind : TGTextCheckingResultType) (start i : Nat) : TGTextCheckingResult where
  range := ⟨start, i - start⟩
  type := kind
  contents := text.substringWithRange (contentsRange kind start i)

/-- What is added for an open token when a character at `i` ends it. -/
def closedToken (text : NSString) : TGTextCheckingResultType → Nat → Nat → List TGTextCheckingResult
  | .mention => closedMention text
  | .hashtag => closedHashtag text
  | .cashtag => closedCashtag text
  | .command => closedCommand text

def finishedToken (text : NSString) : TGTextCheckingResultType → Nat → List TGTextCheckingResult
  | .mention => finishedMention text
  | .hashtag => finishedHashtag text
  | .cashtag => finishedCashtag text
  | .command => finishedCommand text

/-- The characters that a token needs behind its sign, within the text. -/
def TGTextCheckingResultType.shortest : TGTextCheckingResultType → Nat
  | .cashtag => 3
  | _ => 1

def TGTextCheckingResultType.shortestAtEnd : TGTextCheckingResultType → Nat
  | .mention => 2
  | .hashtag => 2
  | .cashtag => 3
  | .command => 1

def startsBadly (text : NSString) (kind : TGTextCheckingResultType) (start : Nat) : Bool :=
  kind = .mention && isDigit (text.characterAtIndex (start + 1))

/-- The result for a sign at `start` with `length` characters behind it. -/
def tagged (text : NSString) (kind : TGTextCheckingResultType) (start length : Nat) : TGTextCheckingResult where
  range := ⟨start, length + 1⟩
  type := kind
  contents := text.substringWithRange ⟨start + 1, length⟩

variable (text : NSString)

theorem tagged_eq {kind : TGTextCheckingResultType} (hkind : kind ≠ .command) {start i : Nat} (h : start < i) :
    tagged text kind start (i - start - 1) = tokenAt text kind start i := by
  have hlen : i - start - 1 + 1 = i - start := by omega
  rw [tagged, tokenAt, contentsRange, if_neg hkind, hlen]

variable (kind : TGTextCheckingResultType) (start : Nat)

theorem closedToken_eq (i : Nat) : closedToken text kind start i =
      if start + kind.shortest < i ∧ startsBadly text kind start = false then [tokenAt text kind start i] else [] := by
  cases kind with
  | mention =>
    show (if i > start + 1 then
        if i - start - 1 + 1 ≤ 1 ∨ isDigit (text.characterAtIndex (start + 1)) = true then []
        else [tagged text .mention start (i - start - 1)]
      else []) = if start + 1 < i ∧ isDigit (text.characterAtIndex (start + 1)) = false then _ else _
    by_cases hlong : start + 1 < i
    · rw [if_pos hlong]
      by_cases hdigit : isDigit (text.characterAtIndex (start + 1)) = true
      · rw [if_pos (.inr hdigit), if_neg (by simp [hdigit])]
      · rw [if_neg (not_or.mpr ⟨by omega, hdigit⟩), if_pos ⟨hlong, by simpa using hdigit⟩, tagged_eq text (by decide) (by omega)]
    · rw [if_neg hlong, if_neg (fun h => hlong h.1)]
  | hashtag =>
    show (if i > start + 1 then
        [tagged text .hashtag start (i - start - 1)]
      else []) = if start + 1 < i ∧ false = false then _ else _
    by_cases hlong : start + 1 < i
    · rw [if_pos hlong, if_pos ⟨hlong, rfl⟩, tagged_eq text (by decide) (by omega)]
    · rw [if_neg hlong, if_neg (fun h => hlong h.1)]
  | cashtag =>
    show (if i > start + 1 then
        if i - start - 1 ≥ 3 then
          [tagged text .cashtag start (i - start - 1)]
        else []
      else []) = if start + 3 < i ∧ false = false then _ else _
    by_cases hlong : start + 1 < i
    · rw [if_pos hlong, tagged_eq text (by decide) (by omega)]
      exact if_congr ⟨fun h => ⟨by omega, rfl⟩, fun h => by omega⟩ rfl rfl
    · rw [if_neg hlong, if_neg (fun h => hlong (by omega))]
  | command =>
    show (if i - start > 1 then _ else []) = if start + 1 < i ∧ false = false then _ else _
    exact if_congr ⟨fun h => ⟨by omega, rfl⟩, fun h => by omega⟩ rfl rfl

theorem finishedToken_eq : finishedToken text kind start =
      if start + kind.shortestAtEnd < text.length ∧ startsBadly text kind start = false then
        [tokenAt text kind start text.length] else [] := by
  have hlast : start + 1 < text.length - 1 ↔ start + 2 < text.length := by omega
  cases kind with
  | mention =>
    show (if start + 1 < text.length - 1 then
        if text.length - start - 1 + 1 ≤ 2 ∨ isDigit (text.characterAtIndex (start + 1)) = true then []
        else [tagged text .mention start (text.length - start - 1)]
      else []) = if start + 2 < text.length ∧ isDigit (text.characterAtIndex (start + 1)) = false then _ else _
    by_cases hlong : start + 2 < text.length
    · rw [if_pos (hlast.mpr hlong)]
      by_cases hdigit : isDigit (text.characterAtIndex (start + 1)) = true
      · rw [if_pos (.inr hdigit), if_neg (by simp [hdigit])]
      · rw [if_neg (not_or.mpr ⟨by omega, hdigit⟩), if_pos ⟨hlong, by simpa using hdigit⟩, tagged_eq text (by decide) (by omega)]
    · rw [if_neg (mt hlast.mp hlong), if_neg (fun h => hlong h.1)]
  | hashtag =>
    show (if start + 1 < text.length - 1 then
        [tagged text .hashtag start (text.length - start - 1)]
      else []) = if start + 2 < text.length ∧ false = false then _ else _
    by_cases hlong : start + 2 < text.length
    · rw [if_pos (hlast.mpr hlong), if_pos ⟨hlong, rfl⟩, tagged_eq text (by decide) (by omega)]
    · rw [if_neg (mt hlast.mp hlong), if_neg (fun h => hlong h.1)]
  | cashtag =>
    show (if start + 1 < text.length - 1 then
        if text.length - start - 1 ≥ 3 then
          [tagged text .cashtag start (text.length - start - 1)]
        else []
      else []) = if start + 3 < text.length ∧ false = false then _ else _
    by_cases hlong : start + 2 < text.length
    · rw [if_pos (hlast.mpr hlong), tagged_eq text (by decide) (by omega)]
      exact if_congr ⟨fun h => ⟨by omega, rfl⟩, fun h => by omega⟩ rfl rfl
    · rw [if_neg (mt hlast.mp hlong), if_neg (fun h => hlong (by omega))]
  | command =>
    show (if start + 1 < text.length then _ else []) = if start + 1 < text.length ∧ false = false then _ else _
    exact if_congr ⟨fun h => ⟨h, rfl⟩, fun h => h.1⟩ rfl rfl

/-! ## One open token -/

structure OpenScan where
  token : Option (TGTextCheckingResultType × Nat) := none
  previous : UInt16 := 0
  results : List TGTextCheckingResult := []

/-- Where the open token starts, if it is one of `kind`. -/
def OpenScan.startOf (scan : OpenScan) (kind : TGTextCheckingResultType) : Option Nat :=
  match scan.token with
  | some (open', start) => if open' = kind then some start else none
  | none => none

def ScanState.ofOpen (scan : OpenScan) : ScanState where
  mentionStart := scan.startOf .mention
  hashtagStart := scan.startOf .hashtag
  cashtagStart := scan.startOf .cashtag
  commandStart := scan.startOf .command
  previous := scan.previous
  results := scan.results

section
variable (characterSet : AlphanumericSet) (flags : HighlightFlags)

def openedTag (previous : UInt16) (i : Nat) (c : UInt16) : Option (TGTextCheckingResultType × Nat) :=
  if c = unichar '@' then if opensMention previous then some (.mention, i) else none
  else if c = unichar '#' then some (.hashtag, i)
  else if c = unichar '$' then some (.cashtag, i)
  else none

def openedToken (previous : UInt16) (i : Nat) (c : UInt16) : Option (TGTextCheckingResultType × Nat) :=
  (if flags.highlightMentionsAndTags then openedTag previous i c else none).or
    (if flags.highlightCommands ∧ c = unichar '/' ∧ opensCommand previous then some (.command, i) else none)

/-- A character at `i` belongs to the open token. -/
def keepsToken (kind : TGTextCheckingResultType) (start i : Nat) (c : UInt16) : Bool :=
  isTokenCharacter characterSet flags kind c && (kind ≠ .cashtag || i ≤ start + 8)

def OpenScan.next (text : NSString) (scan : OpenScan) (i : Nat) (c : UInt16) : OpenScan :=
  match scan.token with
  | none => { scan with token := openedToken flags scan.previous i c, previous := c }
  | some (kind, start) =>
    if keepsToken characterSet flags kind start i c then { scan with previous := c }
    else
      { token := if kind = .command then none else openedToken flags scan.previous i c
        previous := c
        results := scan.results ++ closedToken text kind start i }

end

section
variable {characterSet : AlphanumericSet} {flags : HighlightFlags}

variable {kind : TGTextCheckingResultType}

variable {kind' : TGTextCheckingResultType}

theorem isTokenCharacter_sign (h : kind = .command → kind' = .command) :
    isTokenCharacter characterSet flags kind kind'.sign = false := by
  have hmember : characterSet.characterIsMember kind'.sign = false := by
    rw [characterSet.ascii _ (by cases kind' <;> decide)]
    cases kind' <;> decide
  cases kind with
  | mention =>
    obtain ⟨_, _, external⟩ := flags
    cases kind' <;> cases external <;> rfl
  | hashtag =>
    show isHashtagCharacter characterSet kind'.sign = false
    unfold isHashtagCharacter
    rw [hmember]
    cases kind' <;> decide
  | cashtag => cases kind' <;> rfl
  | command =>
    obtain rfl := h rfl
    show isCommandCharacter characterSet _ = false
    unfold isCommandCharacter
    rw [hmember]
    decide

theorem ne_sign_of_isTokenCharacter (h : kind = .command → kind' = .command) {c : UInt16}
    (hc : isTokenCharacter characterSet flags kind c = true) : c ≠ kind'.sign := by
  rintro rfl
  rw [isTokenCharacter_sign h] at hc
  cases hc

theorem sign_injective : Function.Injective TGTextCheckingResultType.sign := by
  intro kind kind' h
  cases kind <;> cases kind' <;> first | rfl | exact absurd h (by decide)

variable {start : Nat}

theorem openedTag_eq_some {previous c : UInt16} {i : Nat} (h : openedTag previous i c = some (kind, start)) :
    kind ≠ .command ∧ start = i ∧ c = kind.sign := by
  unfold openedTag at h
  split_ifs at h with hat hopens hhash hdollar
  · obtain ⟨rfl, rfl⟩ := Prod.mk.inj (Option.some.inj h)
    exact ⟨by decide, rfl, hat⟩
  · obtain ⟨rfl, rfl⟩ := Prod.mk.inj (Option.some.inj h)
    exact ⟨by decide, rfl, hhash⟩
  · obtain ⟨rfl, rfl⟩ := Prod.mk.inj (Option.some.inj h)
    exact ⟨by decide, rfl, hdollar⟩

/-! ## The steps of the code -/

section
variable (text : NSString) (previous : UInt16) (results : List TGTextCheckingResult) (i : Nat) {c : UInt16}

theorem openTags_none : (ScanState.ofOpen ⟨none, previous, results⟩).openTags i c =
    .ofOpen ⟨openedTag previous i c, previous, results⟩ := by
  unfold ScanState.openTags openedTag
  show (if c = unichar '@' then if opensMention previous then _ else _ else _) = _
  split_ifs <;> rfl

theorem openTags_of_tokenCharacter (hkind : kind ≠ .command)
    (hc : isTokenCharacter characterSet flags kind c = true) (state : ScanState) : state.openTags i c = state := by
  have hne (kind' : TGTextCheckingResultType) : c ≠ kind'.sign :=
    ne_sign_of_isTokenCharacter (fun h => absurd h hkind) hc
  have hat : c ≠ unichar '@' := hne .mention
  have hhash : c ≠ unichar '#' := hne .hashtag
  have hdollar : c ≠ unichar '$' := hne .cashtag
  rw [ScanState.openTags, if_neg hat, if_neg hhash, if_neg hdollar]

theorem closeTags_none : (ScanState.ofOpen ⟨none, previous, results⟩).closeTags characterSet flags text i c =
    .ofOpen ⟨none, previous, results⟩ := rfl

theorem closeTags_some (hkind : kind ≠ .command) (start : Nat) :
    (ScanState.ofOpen ⟨some (kind, start), previous, results⟩).closeTags characterSet flags text i c =
      if keepsToken characterSet flags kind start i c then .ofOpen ⟨some (kind, start), previous, results⟩
      else .ofOpen ⟨none, previous, results ++ closedToken text kind start i⟩ := by
  cases kind with
  | command => exact absurd rfl hkind
  | mention =>
    have hkeeps : keepsToken characterSet flags .mention start i c = isMentionCharacter flags c := Bool.and_true _
    rw [hkeeps]
    show (if (!isMentionCharacter flags c) = true then _ else _) = _
    cases isMentionCharacter flags c <;> rfl
  | hashtag =>
    have hkeeps : keepsToken characterSet flags .hashtag start i c = isHashtagCharacter characterSet c := Bool.and_true _
    rw [hkeeps]
    show (if (!isHashtagCharacter characterSet c) = true then _ else _) = _
    cases isHashtagCharacter characterSet c <;> rfl
  | cashtag =>
    have hkeeps : keepsToken characterSet flags .cashtag start i c = (isUppercase c && decide (i ≤ start + 8)) := rfl
    have hspace : isUppercase (unichar ' ') = false := rfl
    rw [hkeeps]
    show (if c = unichar ' ' ∨ (!isUppercase c) = true ∨ i > start + 8 then _ else _) = _
    by_cases hupper : isUppercase c = true
    · have hne : c ≠ unichar ' ' := by
        rintro rfl
        rw [hspace] at hupper
        cases hupper
      by_cases hnear : i ≤ start + 8
      · rw [if_neg (by simp [hne, hupper, hnear]), if_pos (by simp [hupper, hnear])]
      · rw [if_pos (.inr (.inr (by omega))), if_neg (by simp [hnear])]
        rfl
    · rw [if_pos (.inr (.inl (by simpa using hupper))), if_neg (by simp [hupper])]
      rfl

theorem scanCommand_of_ne (hc : c ≠ unichar '/') {state : ScanState} (hstate : state.commandStart = none) :
    state.scanCommand characterSet text i c = state := by
  unfold ScanState.scanCommand
  rw [hstate]
  exact if_neg fun h => hc h.1

theorem scanCommand_opened {tag : Option (TGTextCheckingResultType × Nat)}
    (htag : ∀ kind start, tag = some (kind, start) → kind ≠ .command ∧ start = i ∧ c = kind.sign) :
    (if flags.highlightCommands ∧ (ScanState.ofOpen ⟨tag, previous, results⟩).mentionStart = none ∧
        (ScanState.ofOpen ⟨tag, previous, results⟩).hashtagStart = none then
      (ScanState.ofOpen ⟨tag, previous, results⟩).scanCommand characterSet text i c
      else .ofOpen ⟨tag, previous, results⟩) =
      .ofOpen ⟨tag.or (if flags.highlightCommands ∧ c = unichar '/' ∧ opensCommand previous then some (.command, i)
        else none), previous, results⟩ := by
  cases tag with
  | none =>
    show (if flags.highlightCommands ∧ none = none ∧ none = none then
      (if c = unichar '/' ∧ opensCommand previous then _ else _) else _) = _
    by_cases hcmds : flags.highlightCommands = true
    · by_cases hopens : c = unichar '/' ∧ opensCommand previous = true
      · rw [if_pos ⟨hcmds, rfl, rfl⟩, if_pos hopens, if_pos ⟨hcmds, hopens⟩]
        rfl
      · rw [if_pos ⟨hcmds, rfl, rfl⟩, if_neg hopens, if_neg fun h => hopens h.2]
        rfl
    · rw [if_neg fun h => hcmds h.1, if_neg fun h => hcmds h.1]
      rfl
  | some token =>
    obtain ⟨kind, start⟩ := token
    obtain ⟨hkind, -, hsign⟩ := htag kind start rfl
    rw [Option.some_or]
    cases kind with
    | command => exact absurd rfl hkind
    | mention => exact if_neg fun h => nomatch h.2.1
    | hashtag => exact if_neg fun h => nomatch h.2.2
    | cashtag =>
      have hslash : c ≠ unichar '/' := fun h =>
        absurd (sign_injective (hsign.symm.trans h : TGTextCheckingResultType.cashtag.sign =
          TGTextCheckingResultType.command.sign)) (by decide)
      rw [scanCommand_of_ne text i hslash rfl, ite_self]

end

variable (text : NSString) (previous : UInt16) (results : List TGTextCheckingResult) (i : Nat) (c : UInt16)

theorem scanBlocks_none {state : ScanState} (hstate : state = if flags.highlightMentionsAndTags then
      (ScanState.ofOpen ⟨none, previous, results⟩).openTags i c else .ofOpen ⟨none, previous, results⟩) :
    { (if flags.highlightCommands ∧ state.mentionStart = none ∧ state.hashtagStart = none then
        state.scanCommand characterSet text i c else state) with previous := c } =
      ScanState.ofOpen ⟨openedToken flags previous i c, c, results⟩ := by
  have htag : state = .ofOpen ⟨if flags.highlightMentionsAndTags then openedTag previous i c else none, previous,
      results⟩ := by
    rw [hstate, openTags_none]
    split_ifs <;> rfl
  rw [htag, scanCommand_opened text previous results i]
  · rfl
  · intro kind start h
    split_ifs at h
    exact openedTag_eq_some h

variable (flags) in
theorem scanCommand_command (start : Nat) :
    (ScanState.ofOpen ⟨some (.command, start), previous, results⟩).scanCommand characterSet text i c =
      if keepsToken characterSet flags .command start i c then .ofOpen ⟨some (.command, start), previous, results⟩
      else .ofOpen ⟨none, previous, results ++ closedToken text .command start i⟩ := by
  have hkeeps : keepsToken characterSet flags .command start i c = isCommandCharacter characterSet c := Bool.and_true _
  rw [hkeeps]
  unfold ScanState.scanCommand
  cases hc : isCommandCharacter characterSet c with
  | false => rfl
  | true =>
    have htoken : isTokenCharacter characterSet flags .command c = true := hc
    have hslash : c ≠ TGTextCheckingResultType.command.sign := ne_sign_of_isTokenCharacter id htoken
    exact if_neg fun h => hslash h.1

theorem scanBlocks_kept (hkind : kind ≠ .command) (hc : isTokenCharacter characterSet flags kind c = true)
    (start : Nat) :
    (if flags.highlightCommands ∧ (ScanState.ofOpen ⟨some (kind, start), previous, results⟩).mentionStart = none ∧
        (ScanState.ofOpen ⟨some (kind, start), previous, results⟩).hashtagStart = none then
      (ScanState.ofOpen ⟨some (kind, start), previous, results⟩).scanCommand characterSet text i c
      else .ofOpen ⟨some (kind, start), previous, results⟩) = .ofOpen ⟨some (kind, start), previous, results⟩ := by
  cases kind with
  | command => exact absurd rfl hkind
  | mention => exact if_neg fun h => nomatch h.2.1
  | hashtag => exact if_neg fun h => nomatch h.2.2
  | cashtag =>
    have hslash : c ≠ TGTextCheckingResultType.command.sign := ne_sign_of_isTokenCharacter (fun h => absurd h hkind) hc
    rw [scanCommand_of_ne text i hslash rfl, ite_self]

variable {scan : OpenScan}

/-- **The code's step is the step of the scanner with one open token.** -/
theorem scanCharacter_ofOpen (hfinds : ∀ kind start, scan.token = some (kind, start) → flags.finds kind = true)
    (i : Nat) (c : UInt16) :
    scanCharacter characterSet flags text (.ofOpen scan) i c = .ofOpen (scan.next characterSet flags text i c) := by
  obtain ⟨token, previous, results⟩ := scan
  cases token with
  | none =>
    refine scanBlocks_none text previous results i c ?_
    show (if flags.highlightMentionsAndTags = true ∧ none = none then _ else _) = _
    rw [closeTags_none]
    simp only [and_true]
  | some token =>
    obtain ⟨kind, start⟩ := token
    have hfind := hfinds kind start rfl
    by_cases hkind : kind = .command
    · subst hkind
      have hcmds : flags.highlightCommands = true := hfind
      unfold scanCharacter OpenScan.next
      rw [if_neg (fun h => nomatch h.2)]
      dsimp only
      rw [if_pos ⟨hcmds, rfl, rfl⟩, scanCommand_command flags]
      by_cases hkeeps : keepsToken characterSet flags .command start i c = true
      · rw [if_pos hkeeps, if_pos hkeeps]
        rfl
      · rw [if_neg hkeeps, if_neg hkeeps]
        rfl
    · have htags : flags.highlightMentionsAndTags = true := by cases kind <;> first | exact hfind | exact absurd rfl hkind
      have hnone : (ScanState.ofOpen ⟨some (kind, start), previous, results⟩).commandStart = none := if_neg hkind
      unfold OpenScan.next
      dsimp only
      by_cases hkeeps : keepsToken characterSet flags kind start i c = true
      · have hc : isTokenCharacter characterSet flags kind c = true := (Bool.and_eq_true_iff.mp hkeeps).1
        unfold scanCharacter
        rw [if_pos ⟨htags, hnone⟩, closeTags_some text previous results i hkind start, if_pos hkeeps,
          openTags_of_tokenCharacter i hkind hc]
        dsimp only
        rw [scanBlocks_kept text previous results i c hkind hc, if_pos hkeeps]
        rfl
      · rw [if_neg hkeeps, if_neg hkind]
        refine scanBlocks_none text previous (results ++ closedToken text kind start i) i c ?_
        rw [if_pos ⟨htags, hnone⟩, closeTags_some text previous results i hkind start, if_neg hkeeps, if_pos htags]

/-! ## Runs -/

variable (characterSet flags) in
/-- The characters `rest` from the `i`-th one on. -/
def OpenScan.run (text : NSString) : NSString → Nat → OpenScan → OpenScan
  | [], _, scan => scan
  | c :: rest, i, scan => OpenScan.run text rest (i + 1) (scan.next characterSet flags text i c)

theorem openedToken_eq_some {previous c : UInt16} {i : Nat} (h : openedToken flags previous i c = some (kind, start)) :
    flags.finds kind = true ∧ start = i ∧ c = kind.sign := by
  rcases Option.or_eq_some_iff.mp h with h | ⟨-, h⟩
  · split_ifs at h with htags
    obtain ⟨hkind, hstart, hsign⟩ := openedTag_eq_some h
    exact ⟨by cases kind <;> first | exact htags | exact absurd rfl hkind, hstart, hsign⟩
  · split_ifs at h with hcmd
    obtain ⟨rfl, rfl⟩ := Prod.mk.inj (Option.some.inj h)
    exact ⟨hcmd.1, rfl, hcmd.2.1⟩

theorem next_token_cases (scan : OpenScan) (i : Nat) (c : UInt16)
    (h : (scan.next characterSet flags text i c).token = some (kind, start)) :
    scan.token = some (kind, start) ∧ keepsToken characterSet flags kind start i c = true ∨
      openedToken flags scan.previous i c = some (kind, start) ∧ ∀ start', scan.token ≠ some (.command, start') := by
  unfold OpenScan.next at h
  cases htoken : scan.token with
  | none =>
    rw [htoken] at h
    exact .inr ⟨h, fun start' => by simp⟩
  | some token =>
    obtain ⟨kind', start'⟩ := token
    rw [htoken] at h
    dsimp only at h
    split_ifs at h with hkeeps hkind
    · obtain ⟨rfl, rfl⟩ := Prod.mk.inj (Option.some.inj h)
      exact .inl ⟨rfl, hkeeps⟩
    · exact .inr ⟨h, fun start'' heq => hkind (Prod.mk.inj (Option.some.inj heq)).1⟩

theorem finds_next {text : NSString}
    (hfinds : ∀ kind start, scan.token = some (kind, start) → flags.finds kind = true) (i : Nat) (c : UInt16)
    (kind : TGTextCheckingResultType) (start : Nat)
    (h : (scan.next characterSet flags text i c).token = some (kind, start)) : flags.finds kind = true := by
  rcases next_token_cases text scan i c h with ⟨hkept, -⟩ | ⟨hopened, -⟩
  · exact hfinds kind start hkept
  · exact (openedToken_eq_some hopened).1

theorem scanFrom_ofOpen (rest : NSString) (i : Nat)
    (hfinds : ∀ kind start, scan.token = some (kind, start) → flags.finds kind = true) :
    scanFrom characterSet flags text rest i (.ofOpen scan) = .ofOpen (scan.run characterSet flags text rest i) := by
  induction rest generalizing i scan with
  | nil => rfl
  | cons c rest ih =>
    rw [scanFrom, scanCharacter_ofOpen text hfinds, ih (i + 1) (finds_next hfinds i c)]
    rfl

theorem finishText_ofOpen (scan : OpenScan) :
    finishText text (.ofOpen scan) = scan.token.elim [] fun token => finishedToken text token.1 token.2 := by
  obtain ⟨token, previous, results⟩ := scan
  cases token with
  | none => rfl
  | some token =>
    obtain ⟨kind, start⟩ := token
    cases kind with
    | _ => simp [finishText, ScanState.ofOpen, OpenScan.startOf, finishedToken]

/-- **The scanner with one open token finds what the code finds.** -/
theorem scanText_eq : scanText characterSet flags text = (OpenScan.run characterSet flags text text 0 {}).results ++
        (OpenScan.run characterSet flags text text 0 {}).token.elim [] fun token =>
          finishedToken text token.1 token.2 := by
  have hrun : scanFrom characterSet flags text text 0 (.ofOpen {}) =
      .ofOpen (OpenScan.run characterSet flags text text 0 {}) := scanFrom_ofOpen text text 0 (by simp)
  show (scanFrom characterSet flags text text 0 (.ofOpen {})).results ++
    finishText text (scanFrom characterSet flags text text 0 (.ofOpen {})) = _
  rw [hrun, finishText_ofOpen]
  rfl

end

end TelegramClient.Messages
