import Mathlib.Algebra.Order.Group.Nat
import TelegramClient.Messages.TextTokens

/-!
# The tokens of a text are sound

Each result is a sign with characters of its kind behind it, and results do not overlap. The open token of the scanner is
one that is not finished: its sign and the characters so far are as they should be, and all results end before it.

* `SoundToken`, `TokensSound` : what should hold of a result and of all of them;
* `OpenScan.Sound` : the invariant of the loop, and `OpenScan.Sound.next`: a step keeps it;
* **`tokens_sound`** : the tokens of every text are sound.
-/

namespace TelegramClient.Messages
open List

section
variable (characterSet : AlphanumericSet) (flags : HighlightFlags) (text : NSString)

/-- **What should hold of a token.** -/
structure SoundToken (result : TGTextCheckingResult) : Prop where
  long : 2 ≤ result.range.length
  inside : result.range.location + result.range.length ≤ text.length
  sign : text[result.range.location]? = some result.type.sign
  characters : ∀ j c, result.range.location < j → j < result.range.location + result.range.length →
    text[j]? = some c → isTokenCharacter characterSet flags result.type c = true
  contents : result.contents = text.substringWithRange
    (if result.type = .command then result.range else ⟨result.range.location + 1, result.range.length - 1⟩)

/-- **And of all of them.** -/
structure TokensSound (results : List TGTextCheckingResult) : Prop where
  sound : ∀ result ∈ results, SoundToken characterSet flags text result
  apart : results.Pairwise fun result result' =>
    result.range.location + result.range.length ≤ result'.range.location

/-- What is left open when `i` characters have been read. -/
structure OpenScan.Sound (i : Nat) (scan : OpenScan) : Prop where
  finds : ∀ kind start, scan.token = some (kind, start) → flags.finds kind = true
  start_lt : ∀ kind start, scan.token = some (kind, start) → start < i
  sign : ∀ kind start, scan.token = some (kind, start) → text[start]? = some kind.sign
  characters : ∀ kind start, scan.token = some (kind, start) → ∀ j c, start < j → j < i → text[j]? = some c →
    isTokenCharacter characterSet flags kind c = true
  results : TokensSound characterSet flags text scan.results
  behind : ∀ result ∈ scan.results, result.range.location + result.range.length ≤ scan.token.elim i Prod.snd

end

section
variable {characterSet : AlphanumericSet} {flags : HighlightFlags} {text : NSString}

variable {kind : TGTextCheckingResultType} {start i : Nat}

variable {result : TGTextCheckingResult}

theorem mem_closedToken (h : result ∈ closedToken text kind start i) :
    start + 2 ≤ i ∧ result = tokenAt text kind start i := by
  have hshortest : 1 ≤ kind.shortest := by cases kind <;> decide
  rw [closedToken_eq] at h
  split_ifs at h with hlong
  · exact ⟨by omega, mem_singleton.mp h⟩
  · cases h

theorem mem_finishedToken (h : result ∈ finishedToken text kind start) :
    start + 2 ≤ text.length ∧ result = tokenAt text kind start text.length := by
  have hshortest : 1 ≤ kind.shortestAtEnd := by cases kind <;> decide
  rw [finishedToken_eq] at h
  split_ifs at h with hlong
  · exact ⟨by omega, mem_singleton.mp h⟩
  · cases h

theorem length_closedToken_le (kind : TGTextCheckingResultType) (start i : Nat) :
    (closedToken text kind start i).length ≤ 1 := by
  rw [closedToken_eq]
  split_ifs <;> simp

theorem length_finishedToken_le (kind : TGTextCheckingResultType) (start : Nat) :
    (finishedToken text kind start).length ≤ 1 := by
  rw [finishedToken_eq]
  split_ifs <;> simp

theorem soundToken_tokenAt (hlong : start + 2 ≤ i) (hinside : i ≤ text.length) (hsign : text[start]? = some kind.sign)
    (hcharacters : ∀ j c, start < j → j < i → text[j]? = some c → isTokenCharacter characterSet flags kind c = true) :
    SoundToken characterSet flags text (tokenAt text kind start i) where
  long := by
    show 2 ≤ i - start
    omega
  inside := by
    show start + (i - start) ≤ text.length
    omega
  sign := hsign
  characters := by
    intro j c hstart hend
    have hend' : j < start + (i - start) := hend
    exact hcharacters j c hstart (by omega)
  contents := rfl

variable {results : List TGTextCheckingResult}

theorem TokensSound.append {added : List TGTextCheckingResult} (h : TokensSound characterSet flags text results)
    (hbehind : ∀ result ∈ results, result.range.location + result.range.length ≤ start) (hone : added.length ≤ 1)
    (hadded : ∀ result ∈ added, SoundToken characterSet flags text result ∧
      result.range.location = start) : TokensSound characterSet flags text (results ++ added) where
  sound := by
    intro result hres
    rcases mem_append.mp hres with hres | hres
    · exact h.sound result hres
    · exact (hadded result hres).1
  apart := by
    rw [pairwise_append]
    refine ⟨h.apart, ?_, ?_⟩
    · match added, hone with
      | [], _ => exact List.Pairwise.nil
      | [_], _ => exact pairwise_singleton _ _
    · intro result hres result' hresult'
      rw [(hadded result' hresult').2]
      exact hbehind result hres

variable {c : UInt16}

theorem OpenScan.Sound.open (hc : text[i]? = some c) {token : Option (TGTextCheckingResultType × Nat)}
    {previous : UInt16}
    (htoken : ∀ kind start, token = some (kind, start) → flags.finds kind = true ∧ start = i ∧ c = kind.sign)
    (hresults : TokensSound characterSet flags text results)
    (hbehind : ∀ result ∈ results, result.range.location + result.range.length ≤ i) :
    OpenScan.Sound characterSet flags text (i + 1) ⟨token, previous, results⟩ where
  finds kind start h := (htoken kind start h).1
  start_lt kind start h := by
    rw [(htoken kind start h).2.1]
    exact Nat.lt_succ_self i
  sign kind start h := by
    obtain ⟨-, rfl, rfl⟩ := htoken kind start h
    exact hc
  characters := by
    intro kind start h j c' hstart hj
    rw [(htoken kind start h).2.1] at hstart
    omega
  results := hresults
  behind := by
    intro result hres
    have hle := hbehind result hres
    match token, htoken with
    | none, _ => exact hle.trans (Nat.le_succ i)
    | some (kind, start), htoken =>
      rw [Option.elim_some, (htoken kind start rfl).2.1]
      exact hle

variable {scan : OpenScan}

/-- **A step keeps what is known.** -/
theorem OpenScan.Sound.next (h : OpenScan.Sound characterSet flags text i scan) (hc : text[i]? = some c) :
    OpenScan.Sound characterSet flags text (i + 1) (scan.next characterSet flags text i c) := by
  obtain ⟨token, previous, results⟩ := scan
  cases token with
  | none => exact .open hc (fun kind start h => openedToken_eq_some h) h.results h.behind
  | some token =>
    obtain ⟨kind, start⟩ := token
    have hinside : i ≤ text.length := ((List.getElem?_eq_some_iff.mp hc).1).le
    unfold OpenScan.next
    dsimp only
    by_cases hkeeps : keepsToken characterSet flags kind start i c = true
    · rw [if_pos hkeeps]
      refine ⟨h.finds, fun kind start htoken => (h.start_lt kind start htoken).trans (Nat.lt_succ_self i), h.sign, ?_,
        h.results, h.behind⟩
      rintro kind' start' htoken j c' hstart hj hc'
      rcases Nat.lt_succ_iff_lt_or_eq.mp hj with hj | rfl
      · exact h.characters kind' start' htoken j c' hstart hj hc'
      · obtain ⟨rfl, rfl⟩ := Prod.mk.inj (Option.some.inj htoken)
        obtain rfl := Option.some.inj (hc.symm.trans hc')
        exact (Bool.and_eq_true_iff.mp hkeeps).1
    · rw [if_neg hkeeps]
      have hclosed : ∀ result ∈ closedToken text kind start i, SoundToken characterSet flags text result ∧
          result.range.location = start ∧ result.range.location + result.range.length ≤ i := by
        intro result hres
        obtain ⟨hlong, rfl⟩ := mem_closedToken hres
        refine ⟨soundToken_tokenAt hlong hinside (h.sign kind start rfl) (h.characters kind start rfl), rfl, ?_⟩
        show start + (i - start) ≤ i
        omega
      refine .open hc ?_ (h.results.append h.behind (length_closedToken_le kind start i)
        fun result hres => ⟨(hclosed result hres).1, (hclosed result hres).2.1⟩) ?_
      · intro kind' start' htoken
        split_ifs at htoken
        exact openedToken_eq_some htoken
      · intro result hres
        rcases mem_append.mp hres with hres | hres
        · exact (h.behind result hres).trans (h.start_lt kind start rfl).le
        · exact (hclosed result hres).2.2

theorem OpenScan.Sound.run {before rest : NSString} (htext : text = before ++ rest)
    (h : OpenScan.Sound characterSet flags text before.length scan) :
    OpenScan.Sound characterSet flags text text.length (scan.run characterSet flags text rest before.length) := by
  induction rest generalizing before scan with
  | nil =>
    rw [htext, append_nil] at h ⊢
    exact h
  | cons c rest ih =>
    have hc : text[before.length]? = some c := by
      rw [htext, getElem?_append_right le_rfl, Nat.sub_self]
      rfl
    have hnext := h.next hc
    have hlen : (before ++ [c]).length = before.length + 1 := by simp
    rw [← hlen] at hnext
    have hrun := ih (by rw [htext, append_assoc, singleton_append]) hnext
    rwa [hlen] at hrun

theorem openScan_sound_init : OpenScan.Sound characterSet flags text 0 {} where
  finds := by simp
  start_lt := by simp
  sign := by simp
  characters := by simp
  results := ⟨by simp, List.Pairwise.nil⟩
  behind := by simp

theorem scanText_sound : TokensSound characterSet flags text (scanText characterSet flags text) := by
  have h : OpenScan.Sound characterSet flags text text.length (OpenScan.run characterSet flags text text 0 {}) :=
    OpenScan.Sound.run (nil_append text).symm openScan_sound_init
  rw [scanText_eq]
  generalize OpenScan.run characterSet flags text text 0 {} = scan at h ⊢
  obtain ⟨token, previous, results⟩ := scan
  cases token with
  | none => exact (append_nil results).symm ▸ h.results
  | some token =>
    obtain ⟨kind, start⟩ := token
    refine h.results.append h.behind (length_finishedToken_le kind start) ?_
    intro result hres
    obtain ⟨hlong, rfl⟩ := mem_finishedToken hres
    exact ⟨soundToken_tokenAt hlong le_rfl (h.sign kind start rfl) (h.characters kind start rfl), rfl⟩

end

variable {α β : Type}

theorem filterMap_getRight?_inl (xs : List α) : (xs.map (Sum.inl : α → α ⊕ β)).filterMap Sum.getRight? = [] := by
  simp [filterMap_map]

theorem filterMap_getRight?_inr (ys : List β) : (ys.map (Sum.inr : β → α ⊕ β)).filterMap Sum.getRight? = ys := by
  rw [filterMap_map]
  exact filterMap_some

theorem tokens_cases {ν : Type} (characterSet : AlphanumericSet) (flags : HighlightFlags) (text : NSString)
    (dataDetector : NSString → List ν) :
    containsSomething flags text = true ∧ (flags.highlightMentionsAndTags = true ∨ flags.highlightCommands = true) ∧
        tokens characterSet flags text dataDetector = scanText characterSet flags text ∨
      ¬(containsSomething flags text = true ∧
          (flags.highlightMentionsAndTags = true ∨ flags.highlightCommands = true)) ∧
        tokens characterSet flags text dataDetector = [] := by
  unfold tokens textCheckingResultsForText
  by_cases hsomething : containsSomething flags text = true
  · by_cases hflags : flags.highlightMentionsAndTags = true ∨ flags.highlightCommands = true
    · refine .inl ⟨hsomething, hflags, ?_⟩
      simp only [if_pos hsomething, if_pos hflags, Option.getD_some, filterMap_append, filterMap_getRight?_inl,
        filterMap_getRight?_inr, nil_append]
    · refine .inr ⟨fun h => hflags h.2, ?_⟩
      simp only [if_pos hsomething, if_neg hflags, Option.getD_some, filterMap_getRight?_inl]
  · refine .inr ⟨fun h => hsomething h.1, ?_⟩
    rw [if_neg hsomething]
    rfl

/-- **Soundness.** The mentions, hashtags, cashtags and commands of a text lie in it one behind the other, each is a sign
with characters of its kind behind it, and carries what it should. -/
theorem tokens_sound {ν : Type} (characterSet : AlphanumericSet) (flags : HighlightFlags) (text : NSString)
    (dataDetector : NSString → List ν) :
    TokensSound characterSet flags text (tokens characterSet flags text dataDetector) := by
  rcases tokens_cases characterSet flags text dataDetector with ⟨-, -, h⟩ | ⟨-, h⟩
  · rw [h]
    exact scanText_sound
  · rw [h]
    exact ⟨by simp, List.Pairwise.nil⟩

/-- A hashtag, a cashtag and a command, the last two behind a space. -/
example : (tokens .latin ⟨true, true, false⟩ ("#a $USD /go".toList.map unichar) fun _ => ([] : List Unit)).map
    (fun result => (result.range, result.type)) = [(⟨0, 2⟩, .hashtag), (⟨3, 4⟩, .cashtag), (⟨8, 3⟩, .command)] := by
  decide

end TelegramClient.Messages
