import Mathlib.Data.List.Basic

/-!
# Mentions, hashtags, cashtags and commands of a text

A text without entities is searched for tokens, in one pass over its UTF-16 units with a marker for each kind of token.

* `containsSomething` : the first look at the text, which is cheaper;
* `textCheckingResultsForText`, `tokens` : all results, and those that do not come from the data detector.
-/

namespace TelegramClient.Messages

def unichar (c : Char) : UInt16 := c.toNat.toUInt16

/-- `length` fits an `int`. -/
abbrev NSString : Type := List UInt16

structure NSRange where
  location : Nat
  length : Nat
deriving DecidableEq

def NSString.substringWithRange (text : NSString) (range : NSRange) : NSString :=
  (text.drop range.location).take range.length

def NSString.characterAtIndex (text : NSString) (index : Nat) : UInt16 := text.getD index 0

inductive TGTextCheckingResultType
  | mention
  | hashtag
  | cashtag
  | command
deriving DecidableEq

structure TGTextCheckingResult where
  range : NSRange
  type : TGTextCheckingResultType
  contents : NSString
deriving DecidableEq

structure HighlightFlags where
  highlightMentionsAndTags : Bool
  highlightCommands : Bool
  highlightAsExternalMentionsAndHashtags : Bool
deriving DecidableEq

def isDigit (c : UInt16) : Bool := unichar '0' ≤ c && c ≤ unichar '9'

def isUppercase (c : UInt16) : Bool := unichar 'A' ≤ c && c ≤ unichar 'Z'

def isLowercase (c : UInt16) : Bool := unichar 'a' ≤ c && c ≤ unichar 'z'

/-- `alphanumericCharacterSet`. Its characters below 128 are the digits and the letters. -/
structure AlphanumericSet where
  characterIsMember : UInt16 → Bool
  ascii : ∀ c < 128, characterIsMember c = (isDigit c || isUppercase c || isLowercase c)

def AlphanumericSet.latin : AlphanumericSet where
  characterIsMember c := isDigit c || isUppercase c || isLowercase c
  ascii _ _ := rfl

/-! ## The first look -/

structure FirstLook where
  digitsInRow : Nat := 0
  schemeSequence : Nat := 0
  dotSequence : Nat := 0
  lastChar : UInt16 := 0

section
variable (flags : HighlightFlags)

/-- `none` where the loop is left with `containsSomething`. -/
def FirstLook.countDigits (look : FirstLook) (c : UInt16) : Option FirstLook :=
  if isDigit c then
    if look.digitsInRow + 1 ≥ 3 then none
    else some { look with digitsInRow := look.digitsInRow + 1, schemeSequence := 0, dotSequence := 0 }
  else if !(c ≠ unichar ' ' && look.digitsInRow > 0) then some { look with digitsInRow := 0 }
  else some look

def FirstLook.followSequences (look : FirstLook) (c : UInt16) : Option FirstLook :=
  if c = unichar ':' then some { look with schemeSequence := if look.schemeSequence = 0 then 1 else 0 }
  else if c = unichar '/' then
    if flags.highlightCommands then none
    else if look.schemeSequence = 2 then none
    else some { look with schemeSequence := if look.schemeSequence = 1 then look.schemeSequence + 1 else 0 }
  else if c = unichar '.' then
    some { look with dotSequence :=
      if look.dotSequence = 0 ∧ look.lastChar ≠ unichar ' ' then look.dotSequence + 1 else 0 }
  else if c ≠ unichar ' ' ∧ look.lastChar = unichar '.' ∧ look.dotSequence = 1 then none
  else some { look with dotSequence := 0 }

def FirstLook.next (look : FirstLook) (c : UInt16) : Option FirstLook :=
  if flags.highlightMentionsAndTags ∧ (c = unichar '@' ∨ c = unichar '#' ∨ c = unichar '$') then none
  else do
    let look ← look.countDigits c
    let look ← look.followSequences flags c
    return { look with lastChar := c }

def containsSomethingFrom : NSString → FirstLook → Bool
  | [], _ => false
  | c :: rest, look =>
    match look.next flags c with
    | none => true
    | some look => containsSomethingFrom rest look

def containsSomething (text : NSString) : Bool := containsSomethingFrom flags text {}

end

/-! ## The loop -/

structure ScanState where
  mentionStart : Option Nat := none
  hashtagStart : Option Nat := none
  cashtagStart : Option Nat := none
  commandStart : Option Nat := none
  previous : UInt16 := 0
  results : List TGTextCheckingResult := []
deriving DecidableEq

section
variable (characterSet : AlphanumericSet) (flags : HighlightFlags)

def isMentionCharacter (c : UInt16) : Bool :=
  isDigit c || isLowercase c || isUppercase c || c = unichar '_' || c = 0x200C ||
    (flags.highlightAsExternalMentionsAndHashtags && c = unichar '.')

def isHashtagCharacter (c : UInt16) : Bool :=
  !(c = unichar ' ' || (!characterSet.characterIsMember c && c ≠ unichar '_' && c ≠ 0x200C))

def isCommandCharacter (c : UInt16) : Bool :=
  !(!characterSet.characterIsMember c && c ≠ unichar '@' && c ≠ unichar '_')

def opensMention (previous : UInt16) : Bool :=
  previous = 0 || previous = unichar ' ' || previous = unichar '\n' || previous = unichar '[' || previous = unichar ']' ||
    previous = unichar '(' || previous = unichar ')' || previous = unichar ':'

def opensCommand (previous : UInt16) : Bool :=
  previous = 0 || previous = unichar ' ' || previous = unichar '\n' || previous = unichar '\t'

section
variable (text : NSString)

/-- The result for a mention that is followed by the character at `i`. -/
def closedMention (mentionStart i : Nat) : List TGTextCheckingResult :=
  if i > mentionStart + 1 then
    let range : NSRange := ⟨mentionStart + 1, i - mentionStart - 1⟩
    let mentionRange : NSRange := ⟨range.location - 1, range.length + 1⟩
    let mentionStartChar := text.characterAtIndex (mentionRange.location + 1)
    if mentionRange.length ≤ 1 ∨ isDigit mentionStartChar then []
    else [⟨mentionRange, .mention, text.substringWithRange range⟩]
  else []

def closedHashtag (hashtagStart i : Nat) : List TGTextCheckingResult :=
  if i > hashtagStart + 1 then
    let range : NSRange := ⟨hashtagStart + 1, i - hashtagStart - 1⟩
    let hashtagRange : NSRange := ⟨range.location - 1, range.length + 1⟩
    [⟨hashtagRange, .hashtag, text.substringWithRange range⟩]
  else []

def closedCashtag (cashtagStart i : Nat) : List TGTextCheckingResult :=
  if i > cashtagStart + 1 then
    let range : NSRange := ⟨cashtagStart + 1, i - cashtagStart - 1⟩
    let cashtagRange : NSRange := ⟨range.location - 1, range.length + 1⟩
    if range.length ≥ 3 then [⟨cashtagRange, .cashtag, text.substringWithRange range⟩] else []
  else []

def closedCommand (commandStart i : Nat) : List TGTextCheckingResult :=
  if i - commandStart > 1 then
    let range : NSRange := ⟨commandStart, i - commandStart⟩
    [⟨range, .command, text.substringWithRange range⟩]
  else []

/-- The first part of the first block: a tag ends before a character that is not one of its own. -/
def ScanState.closeTags (state : ScanState) (i : Nat) (c : UInt16) : ScanState :=
  match state.mentionStart with
  | some mentionStart =>
    if !isMentionCharacter flags c then
      { state with results := state.results ++ closedMention text mentionStart i, mentionStart := none }
    else state
  | none =>
    match state.hashtagStart with
    | some hashtagStart =>
      if !isHashtagCharacter characterSet c then
        { state with results := state.results ++ closedHashtag text hashtagStart i, hashtagStart := none }
      else state
    | none =>
      match state.cashtagStart with
      | some cashtagStart =>
        if c = unichar ' ' ∨ !isUppercase c ∨ i > cashtagStart + 8 then
          { state with results := state.results ++ closedCashtag text cashtagStart i, cashtagStart := none }
        else state
      | none => state

def ScanState.openTags (state : ScanState) (i : Nat) (c : UInt16) : ScanState :=
  if c = unichar '@' then
    if opensMention state.previous then { state with mentionStart := some i } else state
  else if c = unichar '#' then { state with hashtagStart := some i }
  else if c = unichar '$' then { state with cashtagStart := some i }
  else state

def ScanState.scanCommand (state : ScanState) (i : Nat) (c : UInt16) : ScanState :=
  match state.commandStart, isCommandCharacter characterSet c with
  | some commandStart, false =>
    { state with results := state.results ++ closedCommand text commandStart i, commandStart := none }
  | _, _ =>
    if c = unichar '/' ∧ opensCommand state.previous then { state with commandStart := some i } else state

def scanCharacter (state : ScanState) (i : Nat) (c : UInt16) : ScanState :=
  let state := if flags.highlightMentionsAndTags ∧ state.commandStart = none then
    (state.closeTags characterSet flags text i c).openTags i c else state
  let state := if flags.highlightCommands ∧ state.mentionStart = none ∧ state.hashtagStart = none then
    state.scanCommand characterSet text i c else state
  { state with previous := c }

def scanFrom : NSString → Nat → ScanState → ScanState
  | [], _, state => state
  | c :: rest, i, state => scanFrom rest (i + 1) (scanCharacter characterSet flags text state i c)

/-! ## The end of the text -/

def finishedMention (mentionStart : Nat) : List TGTextCheckingResult :=
  if mentionStart + 1 < text.length - 1 then
    let range : NSRange := ⟨mentionStart + 1, text.length - mentionStart - 1⟩
    let mentionRange : NSRange := ⟨range.location - 1, range.length + 1⟩
    let mentionStartChar := text.characterAtIndex (mentionRange.location + 1)
    if mentionRange.length ≤ 2 ∨ isDigit mentionStartChar then []
    else [⟨mentionRange, .mention, text.substringWithRange range⟩]
  else []

def finishedHashtag (hashtagStart : Nat) : List TGTextCheckingResult :=
  if hashtagStart + 1 < text.length - 1 then
    let range : NSRange := ⟨hashtagStart + 1, text.length - hashtagStart - 1⟩
    let hashtagRange : NSRange := ⟨range.location - 1, range.length + 1⟩
    [⟨hashtagRange, .hashtag, text.substringWithRange range⟩]
  else []

def finishedCashtag (cashtagStart : Nat) : List TGTextCheckingResult :=
  if cashtagStart + 1 < text.length - 1 then
    let range : NSRange := ⟨cashtagStart + 1, text.length - cashtagStart - 1⟩
    let cashtagRange : NSRange := ⟨range.location - 1, range.length + 1⟩
    if range.length ≥ 3 then [⟨cashtagRange, .cashtag, text.substringWithRange range⟩] else []
  else []

def finishedCommand (commandStart : Nat) : List TGTextCheckingResult :=
  if commandStart + 1 < text.length then
    let range : NSRange := ⟨commandStart, text.length - commandStart⟩
    [⟨range, .command, text.substringWithRange range⟩]
  else []

def finishText (state : ScanState) : List TGTextCheckingResult :=
  (state.mentionStart.elim [] (finishedMention text)) ++ (state.hashtagStart.elim [] (finishedHashtag text)) ++
    (state.cashtagStart.elim [] (finishedCashtag text)) ++ (state.commandStart.elim [] (finishedCommand text))

def scanText : List TGTextCheckingResult :=
  let state := scanFrom characterSet flags text text 0 {}
  state.results ++ finishText text state

/-- `textCheckingResultsForText:highlightMentionsAndTags:highlightCommands:entities:highlightAsExternalMentionsAndHashtags:`
without entities. The results of the data detector come first. -/
def textCheckingResultsForText {ν : Type} (dataDetector : NSString → List ν) : Option (List (ν ⊕ TGTextCheckingResult)) :=
  if containsSomething flags text then
    let results := (dataDetector text).map Sum.inl
    if flags.highlightMentionsAndTags ∨ flags.highlightCommands then
      some (results ++ (scanText characterSet flags text).map Sum.inr)
    else some results
  else none

/-- The mentions, hashtags, cashtags and commands among the results. -/
def tokens {ν : Type} (dataDetector : NSString → List ν) : List TGTextCheckingResult :=
  ((textCheckingResultsForText characterSet flags text dataDetector).getD []).filterMap Sum.getRight?

end

end

end TelegramClient.Messages
