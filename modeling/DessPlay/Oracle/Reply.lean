/-
  DessPlay.Oracle.Reply
  **AN ORACLE'S ANSWER AS CHAT MESSAGES** (`split_reply` in `dessplay/src/oracle.rs`).

  Paragraphs go out one a message until the messages or the characters are used up, and a cut
  is marked by an ellipsis.  The loop misses two exact fits: a paragraph that uses up the
  characters ends it without a mark, and the mark behind the last message is not paid for.
-/
import DessPlay.Lib.Text

namespace DessPlay.Oracle

open Text (isWhitespace)
open List

def MAX_REPLY_MESSAGES : Nat := 4

def MAX_REPLY_CHARS : Nat := 1200

/-- `text.split("\n\n")`. -/
def splitParagraphs : List Char → List (List Char)
  | '\n' :: '\n' :: rest => [] :: splitParagraphs rest
  | c :: rest =>
    match splitParagraphs rest with
    | [] => [[c]]
    | p :: ps => (c :: p) :: ps
  | [] => [[]]

/-- `split_whitespace`, joined by single blanks. -/
def collapse (p : List Char) : List Char :=
  [' '].intercalate ((p.splitOnP isWhitespace).filter (· ≠ []))

def paragraphs (text : List Char) : List (List Char) :=
  ((splitParagraphs text).map collapse).filter (· ≠ [])

structure Line where
  kept : List Char
  mark : List Char

def Line.text (line : Line) : List Char := line.kept ++ line.mark

/-- The loop of `split_reply`; a turn adds one message, so `i` is also the number of messages. -/
def replyLoop (total : Nat) : Nat → Nat → List (List Char) → List Line
  | _, _, [] => []
  | i, budget, p :: ps =>
    let lastSlot := i + 1 = MAX_REPLY_MESSAGES
    let truncated := budget < p.length ∨ (lastSlot ∧ i + 1 < total)
    let line :=
      if budget < p.length then ⟨p.take (budget - 1), ['…']⟩
      else if truncated then ⟨p, [' ', '…']⟩
      else ⟨p, []⟩
    line :: if truncated ∨ budget - p.length = 0 then []
      else replyLoop total (i + 1) (budget - p.length) ps

def replyLines (text : List Char) : List Line :=
  replyLoop (paragraphs text).length 0 MAX_REPLY_CHARS (paragraphs text)

def splitReply (text : List Char) : List (List Char) := (replyLines text).map Line.text

/-! ## §1. What a reply should be, and when it is. -/

/-- The number of characters of the first `k` paragraphs. -/
def chars (ps : List (List Char)) (k : Nat) : Nat := ((ps.take k).map length).sum

/-- The last message ends in a mark, and that in an ellipsis. -/
def marked (lines : List Line) : Bool := lines.getLast?.any (·.mark.getLast? = some '…')

/-- At most `slots` messages, none empty: paragraphs as they are, and behind them at most one that
may be cut. -/
structure InOrder (slots : Nat) (ps : List (List Char)) (lines : List Line) : Prop where
  count : lines.length ≤ slots
  nonempty : ∀ line ∈ lines, line.text ≠ []
  order : lines = [] ∨ ∃ k p last, ps[k]? = some p ∧ last.kept <+: p ∧
    lines = (ps.take k).map (⟨·, []⟩) ++ [last]

/-- At most `budget` characters, and marked exactly when something is left out. -/
def Exact (budget : Nat) (ps : List (List Char)) (lines : List Line) : Prop :=
  (lines.map (·.text.length)).sum ≤ budget ∧ (marked lines = true ↔ lines.map (·.kept) ≠ ps)

/-- The exact fits the loop misses: the first paragraphs use up the characters with messages left,
or fill the last message so that its mark does not fit. -/
def Misses (slots budget : Nat) (ps : List (List Char)) : Prop :=
  (∃ k, 0 < k ∧ k < slots ∧ k < ps.length ∧ chars ps k = budget) ∨
    slots < ps.length ∧ budget ≤ chars ps slots + 1 ∧ chars ps slots ≤ budget

variable {ps : List (List Char)} {p : List Char} {slots budget total i : Nat}

theorem chars_cons (k : Nat) : chars (p :: ps) (k + 1) = p.length + chars ps k := rfl

theorem chars_zero : chars ps 0 = 0 := rfl

theorem misses_cons (hlt : p.length < budget) :
    Misses (slots + 2) budget (p :: ps) ↔ Misses (slots + 1) (budget - p.length) ps := by
  unfold Misses
  simp only [chars_cons, length_cons]
  refine or_congr ⟨?_, ?_⟩ (by omega)
  · rintro ⟨k, hk, hslots, hlen, hchars⟩
    match k with
    | 1 =>
      rw [chars_cons, chars_zero] at hchars
      omega
    | k + 2 =>
      rw [chars_cons] at hchars
      exact ⟨k + 1, by omega, by omega, by omega, by omega⟩
  · rintro ⟨k, hk, hslots, hlen, hchars⟩
    exact ⟨k + 1, by omega, by omega, by omega, by rw [chars_cons]; omega⟩

theorem exact_cons {lines : List Line} (hle : p.length ≤ budget) (hlines : lines ≠ []) :
    Exact budget (p :: ps) (⟨p, []⟩ :: lines) ↔ Exact (budget - p.length) ps lines := by
  obtain ⟨line, lines, rfl⟩ := exists_cons_of_ne_nil hlines
  unfold Exact marked
  rw [getLast?_cons_cons, map_cons, map_cons, sum_cons]
  refine and_congr ?_ (by simp)
  simp only [Line.text, append_nil]
  omega

theorem exact_singleton {last : Line} : Exact budget ps [last] ↔
    last.text.length ≤ budget ∧ (last.mark.getLast? = some '…' ↔ [last.kept] ≠ ps) := by
  simp [Exact, marked]

/-- **What a turn does**: cut the paragraph, mark the last message, end with the paragraph, or go
on. -/
theorem replyLoop_cons (p : List Char) (ps : List (List Char)) (budget : Nat)
    (hslots : i + (slots + 1) = MAX_REPLY_MESSAGES) :
    let lines := replyLoop (i + (p :: ps).length) i budget (p :: ps)
    budget < p.length ∧ lines = [⟨p.take (budget - 1), ['…']⟩] ∨
    p.length ≤ budget ∧ slots = 0 ∧ ps ≠ [] ∧ lines = [⟨p, [' ', '…']⟩] ∨
    p.length ≤ budget ∧ (ps = [] ∨ slots ≠ 0 ∧ p.length = budget) ∧ lines = [⟨p, []⟩] ∨
    p.length < budget ∧ slots ≠ 0 ∧ ps ≠ [] ∧
      lines = ⟨p, []⟩ :: replyLoop (i + 1 + ps.length) (i + 1) (budget - p.length) ps := by
  intro lines
  have hlines : lines = replyLoop (i + (p :: ps).length) i budget (p :: ps) := rfl
  rw [replyLoop] at hlines
  by_cases hlong : budget < p.length
  · exact .inl ⟨hlong, by simpa [hlong] using hlines⟩
  have hle := Nat.le_of_not_lt hlong
  refine .inr ?_
  by_cases hmore : ps = []
  · refine .inr (.inl ⟨hle, .inl hmore, ?_⟩)
    simpa [hlong, hmore, replyLoop] using hlines
  have hpos : 0 < ps.length := length_pos_iff.mpr hmore
  by_cases hlast : slots = 0
  · refine .inl ⟨hle, hlast, hmore, ?_⟩
    have hslot : i + 1 = MAX_REPLY_MESSAGES := by omega
    have hmax : MAX_REPLY_MESSAGES < i + (ps.length + 1) := by omega
    simpa [hlong, hslot, hmax] using hlines
  have hslot : i + 1 ≠ MAX_REPLY_MESSAGES := by omega
  by_cases hfull : budget ≤ p.length
  · refine .inr (.inl ⟨hle, .inr ⟨hlast, by omega⟩, ?_⟩)
    simpa [hlong, hslot, Nat.sub_eq_zero_of_le hfull] using hlines
  · refine .inr (.inr ⟨by omega, hlast, hmore, ?_⟩)
    simpa [hlong, hslot, show budget - p.length ≠ 0 by omega, Nat.add_assoc, Nat.add_comm 1]
      using hlines

theorem replyLoop_ne_nil (hps : ps ≠ []) : replyLoop total i budget ps ≠ [] := by
  obtain ⟨p, ps, rfl⟩ := exists_cons_of_ne_nil hps
  exact cons_ne_nil _ _

theorem inOrder_singleton {last : Line} (hkept : last.kept <+: p) (htext : last.text ≠ []) :
    InOrder (slots + 1) (p :: ps) [last] :=
  ⟨by simp, by simpa using htext, .inr ⟨0, p, last, rfl, hkept, rfl⟩⟩

theorem InOrder.cons {lines : List Line} (h : InOrder slots ps lines) (hp : p ≠ [])
    (hlines : lines ≠ []) : InOrder (slots + 1) (p :: ps) (⟨p, []⟩ :: lines) where
  count := Nat.succ_le_succ h.count
  nonempty := forall_mem_cons.mpr ⟨by simpa [Line.text] using hp, h.nonempty⟩
  order := by
    obtain ⟨k, q, last, hq, hkept, heq⟩ := h.order.resolve_left hlines
    exact .inr ⟨k + 1, q, last, hq, hkept, congrArg (_ :: ·) heq⟩

theorem inOrder_replyLoop (hslots : i + (slots + 1) = MAX_REPLY_MESSAGES)
    (hne : ∀ p ∈ ps, p ≠ []) : InOrder (slots + 1) ps (replyLoop (i + ps.length) i budget ps) := by
  induction ps generalizing i budget slots with
  | nil => exact ⟨Nat.zero_le _, nofun, .inl rfl⟩
  | cons p ps ih =>
    obtain ⟨hp, hne⟩ := forall_mem_cons.mp hne
    rcases replyLoop_cons p ps budget hslots with
      ⟨_, hlines⟩ | ⟨_, _, _, hlines⟩ | ⟨_, _, hlines⟩ | ⟨_, hlast, hmore, hlines⟩ <;> rw [hlines]
    · exact inOrder_singleton ⟨_, take_append_drop _ _⟩ (by simp [Line.text])
    · exact inOrder_singleton (prefix_refl _) (by simp [Line.text])
    · exact inOrder_singleton (prefix_refl _) (by simpa [Line.text] using hp)
    · obtain ⟨slots, rfl⟩ := Nat.exists_eq_succ_of_ne_zero hlast
      exact (ih (by omega) hne).cons hp (replyLoop_ne_nil hmore)

theorem not_misses_of_long (hlong : budget < p.length) : ¬ Misses (slots + 1) budget (p :: ps) := by
  rintro (⟨k, hk, _, _, hchars⟩ | ⟨_, _, hchars⟩)
  · obtain ⟨k, rfl⟩ := Nat.exists_eq_add_of_lt hk
    rw [Nat.zero_add, chars_cons] at hchars
    omega
  · rw [chars_cons] at hchars
    omega

/-- **The loop is exact unless it misses a fit.** -/
theorem exact_replyLoop (hslots : i + (slots + 1) = MAX_REPLY_MESSAGES) (hbudget : 0 < budget) :
    Exact budget ps (replyLoop (i + ps.length) i budget ps) ↔ ¬ Misses (slots + 1) budget ps := by
  induction ps generalizing i budget slots with
  | nil => simp [replyLoop, Exact, marked, Misses]
  | cons p ps ih =>
    rcases replyLoop_cons p ps budget hslots with
      ⟨hlong, hlines⟩ | ⟨hle, rfl, hmore, hlines⟩ | ⟨hle, hend, hlines⟩ |
      ⟨hlt, hlast, hmore, hlines⟩
      <;> rw [hlines]
    · rw [exact_singleton]
      refine iff_of_true ⟨?_, iff_of_true rfl fun heq => ?_⟩
        (not_misses_of_long hlong)
      · simp only [Line.text, length_append, length_take, length_singleton]
        omega
      · have hlen := congrArg length (cons.inj heq).1
        rw [length_take] at hlen
        omega
    · -- the mark takes two characters more
      have hlen := length_pos_iff.mpr hmore
      have hleft : [' ', '…'].getLast? = some '…' ↔ [p] ≠ p :: ps :=
        iff_of_true rfl fun heq => hmore (cons.inj heq).2.symm
      rw [exact_singleton, and_iff_left hleft]
      simp only [Misses, chars_cons, chars_zero, Line.text, length_append, length_cons, length_nil]
      constructor
      · rintro hfits (⟨k, hk, hslots, _⟩ | ⟨_, hover, _⟩) <;> omega
      · intro hmisses
        by_contra hfits
        exact hmisses (.inr ⟨by omega, by omega, by omega⟩)
    · rw [exact_singleton]
      cases ps with
      | nil =>
        refine iff_of_true ⟨by simpa [Line.text] using hle, by simp⟩ ?_
        rintro (⟨k, hk, _, hlen, _⟩ | ⟨hlen, _⟩)
        · exact absurd hlen (by simpa using hk.ne')
        · exact absurd hlen (by simp)
      | cons q ps =>
        -- nothing is left to spend
        obtain ⟨hslot, rfl⟩ := hend.resolve_left (cons_ne_nil _ _)
        refine iff_of_false (fun h => ?_) fun h => h (.inl ⟨1, by omega, by omega, by simp, ?_⟩)
        · simpa using h.2
        · rw [chars_cons, chars_zero, Nat.add_zero]
    · obtain ⟨slots, rfl⟩ := Nat.exists_eq_succ_of_ne_zero hlast
      rw [exact_cons hlt.le (replyLoop_ne_nil hmore), misses_cons hlt]
      exact ih (by omega) (by omega)

def Faithful (text : List Char) : Prop :=
  InOrder MAX_REPLY_MESSAGES (paragraphs text) (replyLines text) ∧
    Exact MAX_REPLY_CHARS (paragraphs text) (replyLines text)

/-- **A reply fits and tells when it is cut** for exactly the texts that have neither of the two
exact fits; it is in order for all of them. -/
theorem reply_faithful_iff (text : List Char) :
    InOrder MAX_REPLY_MESSAGES (paragraphs text) (replyLines text) ∧
      (Faithful text ↔ ¬ Misses MAX_REPLY_MESSAGES MAX_REPLY_CHARS (paragraphs text)) := by
  have hne : ∀ p ∈ paragraphs text, p ≠ [] :=
    fun p hp => of_decide_eq_true (mem_filter.mp hp).2
  have horder := @inOrder_replyLoop (paragraphs text) 3 MAX_REPLY_CHARS 0 rfl hne
  have hexact := @exact_replyLoop (paragraphs text) 3 MAX_REPLY_CHARS 0 rfl (by decide)
  rw [zero_add] at horder hexact
  exact ⟨horder, fun h => hexact.mp h.2, fun h => ⟨horder, hexact.mpr h⟩⟩

def usesUp : List Char := replicate 1200 'a' ++ ['\n', '\n', 'b']

def fillsUp : List Char :=
  (replicate 4 (replicate 300 'a' ++ ['\n', '\n'])).flatten ++ ['b']

/-- Of the first text the second paragraph is dropped without a mark; of the other the mark makes
the reply 1202 characters long. -/
theorem exact_fit_missed :
    ((splitReply usesUp).map length = [1200] ∧ marked (replyLines usesUp) = false ∧
      (paragraphs usesUp).length = 2 ∧ ¬ Faithful usesUp) ∧
    ((splitReply fillsUp).map length = [300, 300, 300, 302] ∧ ¬ Faithful fillsUp) := by
  refine ⟨⟨by decide +kernel, by decide +kernel, by decide +kernel, fun h => ?_⟩,
    by decide +kernel, fun h => ?_⟩
  · exact absurd (h.2.2.mpr (by decide +kernel)) (by decide +kernel)
  · exact absurd h.2.1 (by decide +kernel)

end DessPlay.Oracle
