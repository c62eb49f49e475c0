/-
  DessPlay.Irc.Nick
  **THE BRIDGE'S NICKS** (`dessplay/src/actors/irc.rs`).

  The nick is what the username has of legal characters from its first letter on, and
  `Dess`; a nick in use is retried with a number before the `Dess`.  Cutting the stem to
  make room for the number can only shorten it and otherwise the number grows, so no nick
  is tried twice.
-/
import DessPlay.Lib.Utf8

namespace DessPlay.Irc

open Utf8 List

/-! ## §1. The source. -/

def bridgeSuffix : List Char := ['D', 'e', 's', 's']

def maxNick : Nat := 30

/-- `u64::MAX`. -/
def maxNumber : Nat := 2 ^ 64 - 1

def isNickChar (c : Char) : Bool :=
  c.isAlphanum || ['-', '[', ']', '\\', '\x60', '_', '^', '\x7b', '\x7d', '|'].contains c

/-- `String::truncate`; `none` if the cut falls inside a character. -/
def truncate (s : List Char) (len : Nat) : Option (List Char) :=
  if byteLen s ≤ len then some s else (cutAt s len).map (·.1)

def deriveNick (username : List Char) : Option (List Char) :=
  let base := (username.filter isNickChar).dropWhile fun c => !c.isAlpha
  let maxBase := maxNick - byteLen bridgeSuffix
  let base := if maxBase < byteLen base then truncate base maxBase else some base
  base.map (· ++ bridgeSuffix)

def toAsciiLowercase (b : UInt8) : UInt8 := if 65 ≤ b ∧ b ≤ 90 then b + 32 else b

def isBridgeNick (nick : List Char) : Bool :=
  let bytes := nick.flatMap String.utf8EncodeChar
  let tail := bridgeSuffix.flatMap String.utf8EncodeChar
  decide (tail.length ≤ bytes.length) &&
    (bytes.drop (bytes.length - tail.length)).map toAsciiLowercase == tail.map toAsciiLowercase

/-- `parse::<u64>` of a run of digits. -/
def parseNumber (digits : List Char) : Option Nat :=
  if digits = [] then none
  else if Nat.ofDigitChars 10 digits 0 ≤ maxNumber then some (Nat.ofDigitChars 10 digits 0)
  else none

/-- The nick after `current` is in use; `none` if adding to the number overflows. -/
def nextNickOnCollision (current : List Char) : Option (List Char) :=
  let base := (current.dropSuffix? bridgeSuffix).getD current
  let stemLen := byteLen (base.rdropWhile Char.isDigit)
  (cutAt base stemLen).bind fun (stem, digits) =>
    let next := (parseNumber digits).getD 1 + 1
    if maxNumber < next then none
    else
      let next := Nat.toDigits 10 next
      let maxStem := maxNick - (byteLen bridgeSuffix + byteLen next)
      let stem := if maxStem < byteLen stem then truncate stem maxStem else some stem
      stem.map fun stem => stem ++ next ++ bridgeSuffix

/-- The nick tried after `n` collisions. -/
def nickAfter (username : List Char) : Nat → Option (List Char)
  | 0 => deriveNick username
  | n + 1 => (nickAfter username n).bind nextNickOnCollision

/-- A nick that the server takes and other bridges recognise. -/
structure Legal (nick : List Char) : Prop where
  letter : nick.head?.any Char.isAlpha = true
  chars : ∀ c ∈ nick, isNickChar c = true
  short : byteLen nick ≤ maxNick
  ending : bridgeSuffix <:+ nick
  bridge : isBridgeNick nick = true

/-! ## §2. The number a nick carries. -/

/-- What stands before the `Dess`. -/
def nickBase (nick : List Char) : List Char := (nick.dropSuffix? bridgeSuffix).getD nick

def stem (nick : List Char) : List Char := (nickBase nick).rdropWhile Char.isDigit

def number (nick : List Char) : Nat :=
  (parseNumber ((nickBase nick).rtakeWhile Char.isDigit)).getD 1

@[simp] theorem nickBase_append (base : List Char) : nickBase (base ++ bridgeSuffix) = base := by
  have hdrop : (base ++ bridgeSuffix).dropSuffix? bridgeSuffix = some base :=
    dropSuffix?_eq_some_iff.mpr ⟨bridgeSuffix, rfl, by decide⟩
  rw [nickBase, hdrop]
  rfl

theorem parseNumber_toDigits {n : Nat} (h : n ≤ maxNumber) :
    parseNumber (Nat.toDigits 10 n) = some n := by
  have hback : Nat.ofDigitChars 10 (Nat.toDigits 10 n) 0 = n :=
    Nat.ofDigitChars_toDigits (by decide) (by decide)
  rw [parseNumber, if_neg Nat.toDigits_ne_nil, hback, if_pos h]

theorem utf8Size_of_isNickChar {c : Char} (h : isNickChar c = true) : c.utf8Size = 1 := by
  rw [isNickChar, Bool.or_eq_true, contains_iff_mem] at h
  rw [Char.utf8Size_eq_one_iff, UInt32.le_iff_toNat_le]
  rcases h with h | h
  · simp only [Char.isAlphanum, Char.isAlpha, Char.isUpper, Char.isLower, Char.isDigit,
      Bool.or_eq_true, Bool.and_eq_true, decide_eq_true_eq, UInt32.le_iff_toNat_le, ge_iff_le] at h
    have hupper : 'Z'.val.toNat = 90 := rfl
    have hlower : 'z'.val.toNat = 122 := rfl
    have hdigit : '9'.val.toNat = 57 := rfl
    show c.val.toNat ≤ 127
    omega
  · have hmarks : (['-', '[', ']', '\\', '\x60', '_', '^', '\x7b', '\x7d', '|'].all
        fun c => c.val.toNat ≤ 127) = true := by decide
    exact of_decide_eq_true (all_eq_true.mp hmarks c h)

theorem isNickChar_of_isDigit {c : Char} (h : c.isDigit = true) : isNickChar c = true := by
  simp [isNickChar, Char.isAlphanum, h]

theorem not_isDigit_of_isAlpha {c : Char} (h : c.isAlpha = true) : c.isDigit = false := by
  simp only [Char.isAlpha, Char.isUpper, Char.isLower, Bool.or_eq_true, Bool.and_eq_true,
    decide_eq_true_eq, UInt32.le_iff_toNat_le, ge_iff_le] at h
  have hupper : 'A'.val.toNat = 65 := rfl
  have hlower : 'a'.val.toNat = 97 := rfl
  have hdigit : '9'.val.toNat = 57 := rfl
  simp only [Char.isDigit, Bool.and_eq_false_iff, decide_eq_false_iff_not,
    UInt32.le_iff_toNat_le, ge_iff_le]
  omega

/-! ## §3. Legal nicks. -/

/-- What stands before the `Dess` of a nick of a username with a letter. -/
structure Base (base : List Char) : Prop where
  letter : base.head?.any Char.isAlpha = true
  chars : ∀ c ∈ base, isNickChar c = true
  short : base.length ≤ 26

variable {base username a b : List Char}

theorem Base.ne_nil (h : Base base) : base ≠ [] := by
  rintro rfl
  exact absurd h.letter (by decide)

theorem Base.ascii (h : Base base) : Ascii base :=
  fun c hc => utf8Size_of_isNickChar (h.chars c hc)

theorem isBridgeNick_append (base : List Char) : isBridgeNick (base ++ bridgeSuffix) = true := by
  unfold isBridgeNick
  rw [flatMap_append]
  simp

theorem Base.legal (h : Base base) : Legal (base ++ bridgeSuffix) where
  letter := by
    cases base with
    | nil => exact absurd rfl h.ne_nil
    | cons c base => exact h.letter
  chars c hc := by
    rcases mem_append.mp hc with hc | hc
    · exact h.chars c hc
    · exact all_eq_true.mp (by decide : bridgeSuffix.all isNickChar = true) c hc
  short := by
    have hshort := h.short
    rw [byteLen_append, h.ascii.byteLen_eq]
    show base.length + 4 ≤ 30
    omega
  ending := suffix_append _ _
  bridge := isBridgeNick_append base

theorem legal_bridgeSuffix : Legal bridgeSuffix where
  letter := rfl
  chars := all_eq_true.mp (by decide)
  short := by decide
  ending := suffix_rfl
  bridge := isBridgeNick_append []

theorem truncate_spec {s : List Char} (h : Ascii s) (len : Nat) :
    (if len < byteLen s then truncate s len else some s) = some (s.take len) := by
  rw [h.byteLen_eq]
  split
  next hlt =>
    rw [truncate, h.byteLen_eq, if_neg (by omega), h.cutAt_eq (by omega)]
    rfl
  · rw [take_of_length_le (by omega)]

theorem deriveNick_eq (username : List Char) :
    deriveNick username = some
      (((username.filter isNickChar).dropWhile fun c => !c.isAlpha).take 26 ++ bridgeSuffix) := by
  have hascii : Ascii ((username.filter isNickChar).dropWhile fun c => !c.isAlpha) := fun c hc =>
    utf8Size_of_isNickChar (mem_filter.mp ((dropWhile_suffix _).subset hc)).2
  rw [deriveNick, truncate_spec hascii]
  rfl

theorem deriveNick_base (h : ∃ c ∈ username, c.isAlpha = true) :
    ∃ base, deriveNick username = some (base ++ bridgeSuffix) ∧ Base base := by
  refine ⟨_, deriveNick_eq username, ?_, fun c hc => ?_, length_take_le _ _⟩
  · obtain ⟨c, hc, halpha⟩ := h
    have hmem : c ∈ username.filter isNickChar :=
      mem_filter.mpr ⟨hc, by simp [isNickChar, Char.isAlphanum, halpha]⟩
    cases hbase : (username.filter isNickChar).dropWhile fun c => !c.isAlpha with
    | nil =>
      have hall := dropWhile_eq_nil_iff.mp hbase c hmem
      simp [halpha] at hall
    | cons d rest =>
      have hhead := head?_dropWhile_not (fun c => !c.isAlpha) (username.filter isNickChar)
      rw [hbase] at hhead
      simpa using hhead
  · exact (mem_filter.mp ((dropWhile_suffix _).subset (mem_of_mem_take hc))).2

theorem deriveNick_letterless (h : ¬ ∃ c ∈ username, c.isAlpha = true) :
    deriveNick username = some bridgeSuffix := by
  have hnone : (username.filter isNickChar).dropWhile (fun c => !c.isAlpha) = [] := by
    rw [dropWhile_eq_nil_iff]
    intro c hc
    have hmem := (mem_filter.mp hc).1
    simpa using fun halpha => h ⟨c, hmem, halpha⟩
  rw [deriveNick_eq, hnone]
  rfl

/-! ## §4. One collision. -/

def Before (a b : List Char) : Prop :=
  (stem b).length < (stem a).length ∨ (stem b).length = (stem a).length ∧ number a < number b

theorem Before.trans {c : List Char} (hab : Before a b) (hbc : Before b c) : Before a c := by
  unfold Before at *
  omega

theorem Before.ne (h : Before a b) : a ≠ b := by
  rintro rfl
  unfold Before at h
  omega

theorem nextNick_eq (nick : List Char) :
    nextNickOnCollision nick =
      if maxNumber < number nick + 1 then none
      else
        let next := Nat.toDigits 10 (number nick + 1)
        let maxStem := maxNick - (byteLen bridgeSuffix + byteLen next)
        (if maxStem < byteLen (stem nick) then truncate (stem nick) maxStem
          else some (stem nick)).map fun stem => stem ++ next ++ bridgeSuffix := by
  have hcut := cutAt_byteLen (stem nick) ((nickBase nick).rtakeWhile Char.isDigit)
  rw [stem, rdropWhile_append_rtakeWhile] at hcut
  show (cutAt (nickBase nick) (byteLen ((nickBase nick).rdropWhile Char.isDigit))).bind _ = _
  rw [hcut]
  rfl

theorem nextNick_overflow {nick : List Char} (h : number nick = maxNumber) :
    nextNickOnCollision nick = none := by
  rw [nextNick_eq, h, if_pos (Nat.lt_succ_self _)]

section Digits

variable {s digits : List Char} (hdigits : ∀ c ∈ digits, c.isDigit = true)

include hdigits

theorem rdropWhile_append_digits :
    (s ++ digits).rdropWhile Char.isDigit = s.rdropWhile Char.isDigit := by
  rw [List.rdropWhile, reverse_append, dropWhile_append_of_pos (by simpa using hdigits),
    List.rdropWhile]

theorem rtakeWhile_append_digits :
    (s ++ digits).rtakeWhile Char.isDigit = s.rtakeWhile Char.isDigit ++ digits := by
  rw [List.rtakeWhile, reverse_append, takeWhile_append_of_pos (by simpa using hdigits),
    reverse_append, reverse_reverse, List.rtakeWhile]

end Digits

theorem Base.head?_stem (h : Base base) :
    (base.rdropWhile Char.isDigit).head?.any Char.isAlpha = true := by
  have hletter := h.letter
  cases base with
  | nil => cases hletter
  | cons c base =>
    obtain ⟨rest, hrest⟩ := rdropWhile_prefix Char.isDigit (c :: base)
    cases hstem : (c :: base).rdropWhile Char.isDigit with
    | nil =>
      have hdigit := rdropWhile_eq_nil_iff.mp hstem c mem_cons_self
      rw [not_isDigit_of_isAlpha hletter] at hdigit
      cases hdigit
    | cons d stem =>
      rw [hstem] at hrest
      cases hrest
      exact hletter

def nextDigits (base : List Char) : List Char :=
  Nat.toDigits 10 (number (base ++ bridgeSuffix) + 1)

def nextBase (base : List Char) : List Char :=
  (base.rdropWhile Char.isDigit).take (26 - (nextDigits base).length) ++ nextDigits base

theorem isDigit_nextDigits (base : List Char) : ∀ c ∈ nextDigits base, c.isDigit = true :=
  fun _ hc => Nat.isDigit_of_mem_toDigits (by decide) (by decide) hc

theorem Base.chars_stem (h : Base base) : ∀ c ∈ base.rdropWhile Char.isDigit, isNickChar c = true :=
  fun c hc => h.chars c (( rdropWhile_prefix _ _).subset hc)

section Collision

variable {base : List Char} (h : Base base) (hfree : number (base ++ bridgeSuffix) < maxNumber)

include hfree

/-- A `u64` has at most twenty digits. -/
theorem length_nextDigits : (nextDigits base).length ≤ 20 := by
  refine (Nat.length_toDigits_le_iff (by decide) (by decide)).mpr ?_
  have hmax : maxNumber < 10 ^ 20 := by decide
  omega

theorem before_next : Before (base ++ bridgeSuffix) (nextBase base ++ bridgeSuffix) := by
  have hstem : stem (nextBase base ++ bridgeSuffix) =
      ((base.rdropWhile Char.isDigit).take (26 - (nextDigits base).length)).rdropWhile
        Char.isDigit := by
    rw [stem, nickBase_append, nextBase, rdropWhile_append_digits (isDigit_nextDigits base)]
  have hself : (base.rdropWhile Char.isDigit).rdropWhile Char.isDigit =
      base.rdropWhile Char.isDigit := rdropWhile_idempotent _ _
  unfold Before
  rw [hstem, show stem (base ++ bridgeSuffix) = base.rdropWhile Char.isDigit by
    rw [stem, nickBase_append]]
  by_cases hcut : (base.rdropWhile Char.isDigit).length ≤ 26 - (nextDigits base).length
  · right
    have hbare : (base.rdropWhile Char.isDigit).rtakeWhile Char.isDigit = [] :=
      rtakeWhile_eq_nil_iff.mpr (rdropWhile_eq_self_iff.mp hself)
    have hnumber : number (nextBase base ++ bridgeSuffix) = number (base ++ bridgeSuffix) + 1 := by
      rw [number, nickBase_append, nextBase, rtakeWhile_append_digits (isDigit_nextDigits base),
        take_of_length_le hcut, hbare, nil_append, nextDigits,
        parseNumber_toDigits hfree]
      rfl
    rw [take_of_length_le hcut, hself]
    exact ⟨rfl, by omega⟩
  · left
    have hle := ( rdropWhile_prefix Char.isDigit
      ((base.rdropWhile Char.isDigit).take (26 - (nextDigits base).length))).length_le
    rw [length_take] at hle
    omega

include h

theorem nextNick_some :
    nextNickOnCollision (base ++ bridgeSuffix) = some (nextBase base ++ bridgeSuffix) := by
  have hstem : stem (base ++ bridgeSuffix) = base.rdropWhile Char.isDigit := by
    rw [stem, nickBase_append]
  have hascii : Ascii (nextDigits base) := fun c hc =>
    utf8Size_of_isNickChar (isNickChar_of_isDigit (isDigit_nextDigits base c hc))
  have hroom : maxNick - (byteLen bridgeSuffix + (nextDigits base).length) =
      26 - (nextDigits base).length := by
    show 30 - (4 + (nextDigits base).length) = _
    omega
  rw [nextNick_eq, if_neg (by omega), hstem]
  dsimp only
  rw [truncate_spec fun c hc => utf8Size_of_isNickChar (h.chars_stem c hc),
    show Nat.toDigits 10 (number (base ++ bridgeSuffix) + 1) = nextDigits base from rfl,
    hascii.byteLen_eq, hroom]
  rfl

theorem Base.next : Base (nextBase base) := by
  have hlen := length_nextDigits hfree
  refine ⟨?_, fun c hc => ?_, ?_⟩
  · have hletter := h.head?_stem
    obtain ⟨room, hroom⟩ : ∃ room, 26 - (nextDigits base).length = room + 1 :=
      ⟨25 - (nextDigits base).length, by omega⟩
    rw [nextBase, hroom]
    cases hstem : base.rdropWhile Char.isDigit with
    | nil =>
      rw [hstem] at hletter
      cases hletter
    | cons c body =>
      rw [hstem] at hletter
      exact hletter
  · rcases mem_append.mp hc with hc | hc
    · exact h.chars_stem c (mem_of_mem_take hc)
    · exact isNickChar_of_isDigit (isDigit_nextDigits base c hc)
  · rw [nextBase, length_append, length_take]
    omega

end Collision

/-! ## §5. Any number of collisions. -/

/-- Every nick up to the `n`-th is there, legal and new. -/
def AllLegal (username : List Char) (n : Nat) : Prop :=
  ∀ k ≤ n, ∃ nick, nickAfter username k = some nick ∧ Legal nick ∧
    ∀ j < k, nickAfter username j ≠ some nick

def Unexhausted (username : List Char) (n : Nat) : Prop :=
  ∀ k < n, ∀ nick, nickAfter username k = some nick → number nick ≠ maxNumber

theorem number_le (nick : List Char) : number nick ≤ maxNumber := by
  rw [number, parseNumber]
  split
  · decide
  · split
    next h => exact h
    · decide

theorem nickAfter_base (hletter : ∃ c ∈ username, c.isAlpha = true) {n : Nat}
    (hfree : Unexhausted username n) :
    ∃ base, nickAfter username n = some (base ++ bridgeSuffix) ∧ Base base ∧
      ∀ j < n, ∀ nick, nickAfter username j = some nick → Before nick (base ++ bridgeSuffix) := by
  induction n with
  | zero =>
    obtain ⟨base, hnick, hbase⟩ := deriveNick_base hletter
    exact ⟨base, hnick, hbase, fun j hj => absurd hj (Nat.not_lt_zero j)⟩
  | succ n ih =>
    obtain ⟨base, hnick, hbase, hbefore⟩ := ih fun k hk => hfree k (Nat.lt_succ_of_lt hk)
    have hroom : number (base ++ bridgeSuffix) < maxNumber :=
      Nat.lt_of_le_of_ne (number_le _) (hfree n (Nat.lt_succ_self n) _ hnick)
    have hlast := before_next hroom
    refine ⟨nextBase base, ?_, hbase.next hroom, fun j hj nick hj' => ?_⟩
    · rw [nickAfter, hnick]
      exact nextNick_some hbase hroom
    · rcases Nat.lt_succ_iff_lt_or_eq.mp hj with hj | rfl
      · exact (hbefore j hj nick hj').trans hlast
      · rw [hnick] at hj'
        cases hj'
        exact hlast

/-- **Every nick tried is legal and new**, as long as the username has a letter and no nick that
collides carries the largest number. -/
theorem nicks_legal_iff (username : List Char) (n : Nat) :
    AllLegal username n ↔
      n = 0 ∨ (∃ c ∈ username, c.isAlpha = true) ∧ Unexhausted username n := by
  constructor
  · intro h
    rcases eq_zero_or_pos n with hzero | hpos
    · exact .inl hzero
    refine .inr ⟨?_, fun k hk nick hnick hmax => ?_⟩
    · by_contra hnone
      obtain ⟨nick, hnick, hlegal, _⟩ := h 1 hpos
      -- The number is all that stands before the suffix.
      have hfirst : nickAfter username 1 = some ('2' :: bridgeSuffix) := by
        rw [nickAfter, nickAfter, deriveNick_letterless hnone]
        decide
      rw [hfirst] at hnick
      cases hnick
      exact absurd hlegal.letter (by decide)
    · obtain ⟨next, hnext, _⟩ := h (k + 1) hk
      rw [nickAfter, hnick, Option.bind_some, nextNick_overflow hmax] at hnext
      cases hnext
  · rintro (rfl | ⟨hletter, hfree⟩)
    · intro k hk
      cases Nat.le_zero.mp hk
      by_cases hletter : ∃ c ∈ username, c.isAlpha = true
      · obtain ⟨base, hnick, hbase⟩ := deriveNick_base hletter
        exact ⟨_, hnick, hbase.legal, fun j hj => absurd hj (Nat.not_lt_zero j)⟩
      · exact ⟨_, deriveNick_letterless hletter, legal_bridgeSuffix,
          fun j hj => absurd hj (Nat.not_lt_zero j)⟩
    · intro k hk
      obtain ⟨base, hnick, hbase, hbefore⟩ :=
        nickAfter_base hletter (n := k) fun j hj => hfree j (Nat.lt_of_lt_of_le hj hk)
      exact ⟨_, hnick, hbase.legal, fun j hj heq => (hbefore j hj _ heq).ne rfl⟩

/-- A username that ends in the largest number overflows at its first collision, and one without a
letter becomes `2Dess`. -/
theorem nick_overflows_and_letterless :
    nickAfter ('a' :: Nat.toDigits 10 maxNumber) 1 = none ∧
    nickAfter [] 1 = some ['2', 'D', 'e', 's', 's'] ∧
    Char.isAlpha '2' = false := by
  decide +kernel

end DessPlay.Irc
