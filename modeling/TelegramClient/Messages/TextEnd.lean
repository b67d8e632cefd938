import Mathlib.Data.List.GetD
import Mathlib.Data.List.Induction
import TelegramClient.Messages.TokenSoundness

/-!
# Tokens at the end of a text

A token that is cut off by the end of the text is added by code of its own, which asks for one character more of mentions
and hashtags.

* `scanText_of_noSign` : without signs there are no tokens, so that the first look at the text changes nothing;
* `CommandOpen`, `EndsShort` : what a text can end with, and `endsShort_iff`: what the scanner knows then;
* **`tokens_space_iff`** : when a space behind a text changes no token.
-/

namespace TelegramClient.Messages
open List
open TGTextCheckingResultType (shortest shortestAtEnd)

section
variable (characterSet : AlphanumericSet) (flags : HighlightFlags)

def CommandOpen (text : NSString) : Prop :=
  flags.highlightCommands = true ∧ ∃ before name, text = before ++ unichar '/' :: name ∧
    opensCommand (before.getLast?.getD 0) = true ∧ ∀ c ∈ name, isCommandCharacter characterSet c = true

/-- **A text that ends with a mention or a hashtag of one character.** -/
def EndsShort (text : NSString) : Prop :=
  flags.highlightMentionsAndTags = true ∧ ∃ before c,
    text = before ++ [unichar '@', c] ∧ opensMention (before.getLast?.getD 0) = true ∧
        isMentionCharacter flags c = true ∧ isDigit c = false ∨
      text = before ++ [unichar '#', c] ∧ ¬CommandOpen characterSet flags before ∧
        isHashtagCharacter characterSet c = true

def scanAll (text : NSString) : OpenScan := OpenScan.run characterSet flags text text 0 {}

end

section
variable {characterSet : AlphanumericSet} {flags : HighlightFlags}

/-! ## The first look -/

variable {rest : NSString}

theorem run_of_noSign (text : NSString) (hrest : ∀ c ∈ rest, ∀ previous i, openedToken flags previous i c = none)
    (i : Nat) (previous : UInt16) : (OpenScan.run characterSet flags text rest i ⟨none, previous, []⟩).token = none ∧
      (OpenScan.run characterSet flags text rest i ⟨none, previous, []⟩).results = [] := by
  induction rest generalizing i previous with
  | nil => exact ⟨rfl, rfl⟩
  | cons c rest ih =>
    obtain ⟨hc, hrest⟩ := forall_mem_cons.mp hrest
    have hnext : OpenScan.next characterSet flags text ⟨none, previous, []⟩ i c = ⟨none, c, []⟩ := by
      show OpenScan.mk (openedToken flags previous i c) c [] = _
      rw [hc]
    rw [OpenScan.run, hnext]
    exact ih hrest (i + 1) c

variable {text : NSString}

theorem scanText_of_noSign (htext : ∀ c ∈ text, ∀ previous i, openedToken flags previous i c = none) :
    scanText characterSet flags text = [] := by
  have hinit : ({} : OpenScan) = ⟨none, 0, []⟩ := rfl
  obtain ⟨htoken, hresults⟩ : (OpenScan.run characterSet flags text text 0 ⟨none, 0, []⟩).token = none ∧ _ :=
    run_of_noSign text htext 0 0
  rw [scanText_eq, hinit, htoken, hresults]
  rfl

variable {look : FirstLook} {c : UInt16}

theorem openedToken_of_next {look' : FirstLook} (h : look.next flags c = some look') (previous : UInt16) (i : Nat) :
    openedToken flags previous i c = none := by
  unfold FirstLook.next at h
  split_ifs at h with htag
  obtain ⟨look₁, -, h⟩ := Option.bind_eq_some_iff.mp h
  obtain ⟨look₂, hsequences, -⟩ := Option.bind_eq_some_iff.mp h
  have htags : (if flags.highlightMentionsAndTags then openedTag previous i c else none) = none := by
    split_ifs with htags
    · unfold openedTag
      rw [if_neg (fun h => htag ⟨htags, .inl h⟩), if_neg (fun h => htag ⟨htags, .inr (.inl h)⟩),
        if_neg (fun h => htag ⟨htags, .inr (.inr h)⟩)]
    · rfl
  have hcmd : ¬(flags.highlightCommands = true ∧ c = unichar '/' ∧ opensCommand previous = true) := by
    rintro ⟨hcmds, rfl, -⟩
    unfold FirstLook.followSequences at hsequences
    rw [if_neg (by decide), if_pos rfl, if_pos hcmds] at hsequences
    cases hsequences
  rw [openedToken, htags, if_neg hcmd]
  rfl

theorem noSign_of_containsSomethingFrom (h : containsSomethingFrom flags text look = false) :
    ∀ c ∈ text, ∀ previous i, openedToken flags previous i c = none := by
  induction text generalizing look with
  | nil => simp
  | cons c text ih =>
    rw [containsSomethingFrom] at h
    cases hnext : look.next flags c with
    | none =>
      rw [hnext] at h
      cases h
    | some look' =>
      rw [hnext] at h
      exact forall_mem_cons.mpr ⟨openedToken_of_next hnext, ih h⟩

theorem tokens_eq {ν : Type} (text : NSString) (dataDetector : NSString → List ν) :
    tokens characterSet flags text dataDetector = scanText characterSet flags text := by
  rcases tokens_cases characterSet flags text dataDetector with ⟨-, -, h⟩ | ⟨hnot, h⟩
  · exact h
  · rw [h]
    refine (scanText_of_noSign ?_).symm
    by_cases hflags : flags.highlightMentionsAndTags = true ∨ flags.highlightCommands = true
    · have hnothing : containsSomething flags text = false := Bool.eq_false_iff.mpr fun hsomething => hnot ⟨hsomething, hflags⟩
      exact noSign_of_containsSomethingFrom hnothing
    · intro c _ previous i
      rw [not_or] at hflags
      rw [openedToken, if_neg hflags.1, if_neg fun h => hflags.2 h.1]
      rfl

/-! ## No look ahead -/

theorem substringWithRange_append (text more : NSString) {range : NSRange}
    (h : range.location + range.length ≤ text.length) :
    NSString.substringWithRange (text ++ more) range = text.substringWithRange range := by
  unfold NSString.substringWithRange
  rw [drop_append_of_le_length (by omega), take_append_of_le_length (by rw [length_drop]; omega)]

variable {start i : Nat}

theorem closedToken_append (text more : NSString) (kind : TGTextCheckingResultType) (hi : i ≤ text.length) :
    closedToken (text ++ more) kind start i = closedToken text kind start i := by
  have hshortest : 1 ≤ kind.shortest := by cases kind <;> decide
  rw [closedToken_eq, closedToken_eq]
  by_cases hlong : start + kind.shortest < i
  · have hbad : startsBadly (text ++ more) kind start = startsBadly text kind start := by
      unfold startsBadly NSString.characterAtIndex
      rw [getD_append _ _ _ _ (by omega)]
    have htoken : tokenAt (text ++ more) kind start i = tokenAt text kind start i := by
      unfold tokenAt
      rw [substringWithRange_append]
      unfold contentsRange
      split_ifs
      · show start + (i - start) ≤ text.length
        omega
      · show start + 1 + (i - start - 1) ≤ text.length
        omega
    rw [hbad, htoken]
  · rw [if_neg fun h => hlong h.1, if_neg fun h => hlong h.1]

theorem next_append (text more : NSString) (scan : OpenScan) (hi : i ≤ text.length) (c : UInt16) :
    scan.next characterSet flags (text ++ more) i c = scan.next characterSet flags text i c := by
  unfold OpenScan.next
  cases scan.token with
  | none => rfl
  | some token => simp only [closedToken_append text more token.1 hi]

theorem run_append (text more : NSString) (hi : i + rest.length ≤ text.length) (scan : OpenScan) :
    scan.run characterSet flags (text ++ more) rest i = scan.run characterSet flags text rest i := by
  induction rest generalizing i scan with
  | nil => rfl
  | cons c rest ih =>
    rw [length_cons] at hi
    rw [OpenScan.run, OpenScan.run, next_append text more scan (by omega), ih (by omega)]

theorem run_concat (text xs : NSString) (c : UInt16) (i : Nat) (scan : OpenScan) :
    scan.run characterSet flags text (xs ++ [c]) i =
      (scan.run characterSet flags text xs i).next characterSet flags text (i + xs.length) c := by
  induction xs generalizing i scan with
  | nil => rfl
  | cons x xs ih =>
    rw [cons_append, OpenScan.run, ih, OpenScan.run, length_cons, Nat.add_right_comm i 1, Nat.add_assoc i]

/-- **One more character.** -/
theorem scanAll_snoc (text : NSString) (c : UInt16) :
    scanAll characterSet flags (text ++ [c]) = (scanAll characterSet flags text).next characterSet flags text text.length c := by
  rw [scanAll, run_concat, run_append text [c] (by rw [Nat.zero_add]), Nat.zero_add, next_append text [c] _ le_rfl]
  rfl

theorem previous_next (text : NSString) (scan : OpenScan) (i : Nat) (c : UInt16) :
    (scan.next characterSet flags text i c).previous = c := by
  unfold OpenScan.next
  cases scan.token with
  | none => rfl
  | some token =>
    dsimp only
    split_ifs <;> rfl

theorem previous_scanAll (text : NSString) : (scanAll characterSet flags text).previous = text.getLast?.getD 0 := by
  induction text using List.reverseRecOn with
  | nil => rfl
  | append_singleton text c _ => rw [scanAll_snoc, previous_next, getLast?_concat, Option.getD_some]

theorem scanAll_sound (text : NSString) : OpenScan.Sound characterSet flags text text.length (scanAll characterSet flags text) :=
  OpenScan.Sound.run (nil_append text).symm openScan_sound_init

/-! ## What the scanner knows at the end -/

variable {kind : TGTextCheckingResultType}

theorem opens_of_isTokenCharacter (hc : isTokenCharacter characterSet flags kind c = true) :
    opensMention c = false ∧ opensCommand c = false := by
  have hnot (d : UInt16) (hd : d = 0 ∨ d = unichar ' ' ∨ d = unichar '\n' ∨ d = unichar '\t' ∨ d = unichar '[' ∨
      d = unichar ']' ∨ d = unichar '(' ∨ d = unichar ')' ∨ d = unichar ':') : c ≠ d := by
    rintro rfl
    have hmember : characterSet.characterIsMember c = false := by
      rw [characterSet.ascii c (by rcases hd with rfl | rfl | rfl | rfl | rfl | rfl | rfl | rfl | rfl <;> decide)]
      rcases hd with rfl | rfl | rfl | rfl | rfl | rfl | rfl | rfl | rfl <;> decide
    cases kind with
    | mention =>
      obtain ⟨_, _, external⟩ := flags
      rcases hd with rfl | rfl | rfl | rfl | rfl | rfl | rfl | rfl | rfl <;> cases external <;> cases hc
    | hashtag =>
      have hc : isHashtagCharacter characterSet c = true := hc
      unfold isHashtagCharacter at hc
      rw [hmember] at hc
      rcases hd with rfl | rfl | rfl | rfl | rfl | rfl | rfl | rfl | rfl <;> cases hc
    | cashtag => rcases hd with rfl | rfl | rfl | rfl | rfl | rfl | rfl | rfl | rfl <;> cases hc
    | command =>
      have hc : isCommandCharacter characterSet c = true := hc
      unfold isCommandCharacter at hc
      rw [hmember] at hc
      rcases hd with rfl | rfl | rfl | rfl | rfl | rfl | rfl | rfl | rfl <;> cases hc
  constructor
  · simp [opensMention, hnot]
  · simp [opensCommand, hnot]

theorem opens_of_token (text : NSString) {token : TGTextCheckingResultType × Nat}
    (htoken : (scanAll characterSet flags text).token = some token) :
    opensMention (scanAll characterSet flags text).previous = false ∧
      opensCommand (scanAll characterSet flags text).previous = false := by
  induction text using List.reverseRecOn generalizing token with
  | nil => cases htoken
  | append_singleton text c _ =>
    rw [scanAll_snoc] at htoken ⊢
    rw [previous_next]
    rcases next_token_cases _ _ _ c htoken with ⟨-, hkeeps⟩ | ⟨hopened, -⟩
    · exact opens_of_isTokenCharacter (Bool.and_eq_true_iff.mp hkeeps).1
    · rw [(openedToken_eq_some hopened).2.2]
      cases token.1 <;> decide

variable {previous : UInt16}

theorem openedToken_eq_command : openedToken flags previous i c = some (.command, start) ↔
      flags.highlightCommands = true ∧ c = unichar '/' ∧ opensCommand previous = true ∧ start = i := by
  constructor
  · intro h
    obtain ⟨-, hstart, -⟩ := openedToken_eq_some h
    rcases Option.or_eq_some_iff.mp h with h | ⟨-, h⟩
    · split_ifs at h
      exact absurd rfl (openedTag_eq_some h).1
    · split_ifs at h with hcmd
      exact ⟨hcmd.1, hcmd.2.1, hcmd.2.2, hstart⟩
  · rintro ⟨hcmds, rfl, hopens, rfl⟩
    have htag : openedTag previous start (unichar '/') = none := rfl
    rw [openedToken, htag, ite_self, if_pos ⟨hcmds, rfl, hopens⟩]
    rfl

theorem openedToken_eq_tag (hkind : kind ≠ .command) : openedToken flags previous i c = some (kind, start) ↔
      flags.highlightMentionsAndTags = true ∧ openedTag previous i c = some (kind, start) := by
  constructor
  · intro h
    rcases Option.or_eq_some_iff.mp h with h | ⟨-, h⟩
    · split_ifs at h with htags
      exact ⟨htags, h⟩
    · split_ifs at h
      exact absurd (Prod.mk.inj (Option.some.inj h)).1.symm hkind
  · rintro ⟨htags, h⟩
    rw [openedToken, if_pos htags, h]
    rfl

theorem openedTag_eq_mention :
    openedTag previous i c = some (.mention, i) ↔ c = unichar '@' ∧ opensMention previous = true := by
  constructor
  · intro h
    obtain rfl : c = unichar '@' := (openedTag_eq_some h).2.2
    refine ⟨rfl, ?_⟩
    by_contra hopens
    rw [openedTag, if_pos rfl, if_neg hopens] at h
    cases h
  · rintro ⟨rfl, hopens⟩
    rw [openedTag, if_pos rfl, if_pos hopens]

theorem openedTag_eq_hashtag : openedTag previous i c = some (.hashtag, i) ↔ c = unichar '#' := by
  constructor
  · exact fun h => (openedTag_eq_some h).2.2
  · rintro rfl
    rfl

theorem commandOpen_snoc (text : NSString) (c : UInt16) : CommandOpen characterSet flags (text ++ [c]) ↔
      CommandOpen characterSet flags text ∧ isCommandCharacter characterSet c = true ∨
        flags.highlightCommands = true ∧ c = unichar '/' ∧ opensCommand (text.getLast?.getD 0) = true := by
  constructor
  · rintro ⟨hcmds, before, name, htext, hopens, hname⟩
    induction name using List.reverseRecOn with
    | nil =>
      obtain ⟨rfl, hc⟩ := append_inj' htext rfl
      exact .inr ⟨hcmds, (List.cons.inj hc).1, hopens⟩
    | append_singleton name d _ =>
      rw [← cons_append, ← append_assoc] at htext
      obtain ⟨rfl, hc⟩ := append_inj' htext rfl
      obtain rfl := (List.cons.inj hc).1
      rw [forall_mem_append] at hname
      exact .inl ⟨⟨hcmds, before, name, rfl, hopens, hname.1⟩, hname.2 c (mem_singleton_self c)⟩
  · rintro (⟨⟨hcmds, before, name, rfl, hopens, hname⟩, hc⟩ | ⟨hcmds, rfl, hopens⟩)
    · refine ⟨hcmds, before, name ++ [c], by simp, hopens, ?_⟩
      rw [forall_mem_append]
      exact ⟨hname, by simpa using hc⟩
    · exact ⟨hcmds, text, [], rfl, hopens, by simp⟩

/-- **A command is open exactly if the text ends with one.** -/
theorem commandOpen_iff (text : NSString) :
    (∃ start, (scanAll characterSet flags text).token = some (.command, start)) ↔ CommandOpen characterSet flags text := by
  induction text using List.reverseRecOn with
  | nil =>
    constructor
    · rintro ⟨start, h⟩
      cases h
    · rintro ⟨-, before, name, htext, -⟩
      simp at htext
  | append_singleton text c ih =>
    have hprev : (scanAll characterSet flags text).previous = text.getLast?.getD 0 := previous_scanAll text
    rw [commandOpen_snoc, ← ih, scanAll_snoc, ← hprev]
    constructor
    · rintro ⟨start, h⟩
      rcases next_token_cases _ _ _ c h with ⟨hkept, hkeeps⟩ | ⟨hopened, -⟩
      · exact .inl ⟨⟨start, hkept⟩, (Bool.and_eq_true_iff.mp hkeeps).1⟩
      · obtain ⟨hcmds, hc, hopens, -⟩ := openedToken_eq_command.mp hopened
        exact .inr ⟨hcmds, hc, hopens⟩
    · rintro (⟨⟨start, h⟩, hc⟩ | ⟨hcmds, hc, hopens⟩)
      · have hkeeps : keepsToken characterSet flags .command start text.length c = true :=
          Bool.and_eq_true_iff.mpr ⟨hc, rfl⟩
        refine ⟨start, ?_⟩
        unfold OpenScan.next
        rw [h]
        dsimp only
        rw [if_pos hkeeps]
      · refine ⟨text.length, ?_⟩
        have hnone : (scanAll characterSet flags text).token = none := by
          by_contra hsome
          obtain ⟨token, htoken⟩ := Option.ne_none_iff_exists'.mp hsome
          rw [(opens_of_token text htoken).2] at hopens
          cases hopens
        unfold OpenScan.next
        rw [hnone]
        exact openedToken_eq_command.mpr ⟨hcmds, hc, hopens, rfl⟩

theorem token_twoBack (before : NSString) (x c : UInt16) :
    (scanAll characterSet flags (before ++ [x, c])).token = some (kind, before.length) ↔
      openedToken flags (before.getLast?.getD 0) before.length x = some (kind, before.length) ∧
        ¬CommandOpen characterSet flags before ∧ isTokenCharacter characterSet flags kind c = true := by
  have hsplit : before ++ [x, c] = before ++ [x] ++ [c] := by simp
  have hlen : (before ++ [x]).length = before.length + 1 := by simp
  have hprev : (scanAll characterSet flags before).previous = before.getLast?.getD 0 := previous_scanAll before
  rw [hsplit, scanAll_snoc, hlen, ← commandOpen_iff, ← hprev]
  constructor
  · intro h
    rcases next_token_cases _ _ _ c h with ⟨hkept, hkeeps⟩ | ⟨hopened, -⟩
    · rw [scanAll_snoc] at hkept
      rcases next_token_cases _ _ _ x hkept with ⟨hearlier, -⟩ | ⟨hopened, hcmd⟩
      · exact absurd ((scanAll_sound before).start_lt _ _ hearlier) (lt_irrefl _)
      · exact ⟨hopened, fun ⟨start, h⟩ => hcmd start h, (Bool.and_eq_true_iff.mp hkeeps).1⟩
    · have hstart := (openedToken_eq_some hopened).2.1
      omega
  · rintro ⟨hopened, hcmd, hc⟩
    have hfirst : (scanAll characterSet flags (before ++ [x])).token = some (kind, before.length) := by
      rw [scanAll_snoc]
      unfold OpenScan.next
      cases htoken : (scanAll characterSet flags before).token with
      | none => exact hopened
      | some token =>
        obtain ⟨kind', start⟩ := token
        have hkind' : kind' ≠ .command := by
          rintro rfl
          exact hcmd ⟨start, htoken⟩
        have hkeeps : ¬keepsToken characterSet flags kind' start before.length x = true := by
          rw [(openedToken_eq_some hopened).2.2, keepsToken, isTokenCharacter_sign fun h => absurd h hkind']
          exact Bool.false_ne_true
        dsimp only
        rw [if_neg hkeeps, if_neg hkind']
        exact hopened
    have hkeeps : keepsToken characterSet flags kind before.length (before.length + 1) c = true := by
      rw [keepsToken, hc, Bool.true_and, Bool.or_eq_true]
      exact .inr (decide_eq_true (by omega))
    unfold OpenScan.next
    rw [hfirst]
    dsimp only
    rw [if_pos hkeeps]

theorem characterAtIndex_last (before : NSString) (x c : UInt16) :
    NSString.characterAtIndex (before ++ [x, c]) (before.length + 1) = c := by
  unfold NSString.characterAtIndex
  rw [getD_append_right _ _ _ _ (Nat.le_add_right _ 1), Nat.add_sub_cancel_left]
  rfl

theorem endsShort_iff (text : NSString) : EndsShort characterSet flags text ↔
      ∃ kind start, (scanAll characterSet flags text).token = some (kind, start) ∧ (kind = .mention ∨ kind = .hashtag) ∧
        start + 2 = text.length ∧ startsBadly text kind start = false := by
  constructor
  · rintro ⟨htags, before, c, ⟨rfl, hopens, hc, hdigit⟩ | ⟨rfl, hcmd, hc⟩⟩
    · have hcmd : ¬CommandOpen characterSet flags before := by
        rw [← commandOpen_iff]
        rintro ⟨start, htoken⟩
        have hnot := (opens_of_token before htoken).1
        rw [previous_scanAll] at hnot
        exact absurd hopens (by simp [hnot])
      refine ⟨.mention, before.length, ?_, .inl rfl, by simp, ?_⟩
      · exact (token_twoBack before _ c).mpr
          ⟨(openedToken_eq_tag (by decide)).mpr ⟨htags, openedTag_eq_mention.mpr ⟨rfl, hopens⟩⟩, hcmd, hc⟩
      · rw [startsBadly, characterAtIndex_last, hdigit, Bool.and_false]
    · refine ⟨.hashtag, before.length, ?_, .inr rfl, by simp, rfl⟩
      exact (token_twoBack before _ c).mpr
        ⟨(openedToken_eq_tag (by decide)).mpr ⟨htags, openedTag_eq_hashtag.mpr rfl⟩, hcmd, hc⟩
  · rintro ⟨kind, start, htoken, hkind, hlen, hbad⟩
    obtain ⟨before, x, c, rfl⟩ : ∃ before x c, text = before ++ [x, c] := by
      have hrest : (text.drop start).length = 2 := by rw [length_drop]; omega
      obtain ⟨x, c, hrest⟩ := length_eq_two.mp hrest
      exact ⟨text.take start, x, c, by rw [← hrest, take_append_drop]⟩
    obtain rfl : start = before.length := by simpa using hlen
    have hnot : kind ≠ .command := by rcases hkind with rfl | rfl <;> decide
    obtain ⟨hopened, hcmd, hc⟩ := (token_twoBack before x c).mp htoken
    obtain ⟨htags, htag⟩ := (openedToken_eq_tag hnot).mp hopened
    refine ⟨htags, before, c, ?_⟩
    rcases hkind with rfl | rfl
    · obtain ⟨rfl, hopens⟩ := openedTag_eq_mention.mp htag
      rw [startsBadly, characterAtIndex_last] at hbad
      exact .inl ⟨rfl, hopens, hc, by simpa using hbad⟩
    · obtain rfl := openedTag_eq_hashtag.mp htag
      exact .inr ⟨rfl, hcmd, hc⟩

theorem finishedToken_eq_closedToken_iff (text : NSString) (kind : TGTextCheckingResultType) {start : Nat} :
    finishedToken text kind start = closedToken text kind start text.length ↔
      ¬((kind = .mention ∨ kind = .hashtag) ∧ start + 2 = text.length ∧ startsBadly text kind start = false) := by
  rw [finishedToken_eq, closedToken_eq]
  cases hbad : startsBadly text kind start with
  | true => simp
  | false =>
    cases kind with
    | mention | hashtag => grind [shortest, shortestAtEnd]
    | cashtag | command => simp [shortest, shortestAtEnd]

theorem scanText_space (text : NSString) : scanText characterSet flags (text ++ [unichar ' ']) =
      (scanAll characterSet flags text).results ++ (scanAll characterSet flags text).token.elim [] fun token =>
        closedToken text token.1 token.2 text.length := by
  have hopened (previous : UInt16) (i : Nat) : openedToken flags previous i (unichar ' ') = none := by
    have htag : openedTag previous i (unichar ' ') = none := rfl
    rw [openedToken, htag, ite_self, if_neg fun h => absurd h.2.1 (by decide)]
    rfl
  have hkeeps (kind : TGTextCheckingResultType) (start : Nat) :
      ¬keepsToken characterSet flags kind start text.length (unichar ' ') = true := by
    intro h
    have hopens := (opens_of_isTokenCharacter (Bool.and_eq_true_iff.mp h).1).1
    cases hopens
  have hnext : scanAll characterSet flags (text ++ [unichar ' ']) = _ := scanAll_snoc text (unichar ' ')
  unfold OpenScan.next at hnext
  rw [scanText_eq, ← scanAll, hnext]
  cases (scanAll characterSet flags text).token with
  | none =>
    dsimp only
    rw [hopened]
    rfl
  | some token =>
    obtain ⟨kind, start⟩ := token
    dsimp only
    rw [if_neg (hkeeps kind start), hopened, ite_self]
    exact append_nil _

end

/-- **The end of the text.** A text and the same text with a space behind it have the same tokens exactly if it does not
end with a mention or a hashtag of one character. -/
theorem tokens_space_iff {ν : Type} (characterSet : AlphanumericSet) (flags : HighlightFlags) (text : NSString)
    (dataDetector : NSString → List ν) :
    tokens characterSet flags (text ++ [unichar ' ']) dataDetector = tokens characterSet flags text dataDetector ↔
      ¬EndsShort characterSet flags text := by
  have hfinish := finishedToken_eq_closedToken_iff text
  rw [tokens_eq, tokens_eq, scanText_space, scanText_eq, ← scanAll, endsShort_iff, append_cancel_left_eq]
  cases (scanAll characterSet flags text).token with
  | none => simp
  | some token =>
      obtain ⟨kind, start⟩ := token
      rw [Option.elim_some, Option.elim_some, eq_comm, hfinish]
      simp

/-- A mention of one character: it is found in front of a space only. -/
theorem short_mention_lost :
    tokens .latin ⟨true, true, false⟩ ([unichar '@', unichar 'a'] ++ [unichar ' ']) (fun _ => ([] : List Unit)) ≠
      tokens .latin ⟨true, true, false⟩ [unichar '@', unichar 'a'] fun _ => ([] : List Unit) := by
  decide

end TelegramClient.Messages
