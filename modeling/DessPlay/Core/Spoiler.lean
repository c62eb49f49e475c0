/-
  DessPlay.Core.Spoiler
  **SPOILERS AND THEIR MASK** (`dessplay-core/src/spoiler.rs`).

  `parse` cuts a message at byte offsets into texts and `||spoilers||`, losing nothing.
  `maskMessage` replaces every letter of a spoiler by one that a hash of the message's
  identity picks, so two messages whose spoilers have the same shape get the same mask.
-/
import DessPlay.Lib.Utf8
import DessPlay.Lib.Text

namespace DessPlay.Core.Spoiler

open Utf8 List Option
open Text (isWhitespace)

/-! ## §1. The scan. -/

inductive Segment where
  | text (t : List Char)
  /-- The inside of a run, without its bars. -/
  | spoiler (s : List Char)
  deriving DecidableEq

def bars : List Char := ['|', '|']

/-- `find("||")`: the byte offset of the first two bars. -/
def findBars : List Char → Option Nat
  | [] => none
  | c :: s => if bars <+: c :: s then some 0 else (findBars s).map (c.utf8Size + ·)

def sliceFrom (text : List Char) (start : Nat) : Option (List Char) :=
  slice text start (byteLen text)

/-- The loop of `parse`: `pos` starts the pending literal text, `scan` the search for the next
opener.  `none` is a cut inside a character, or no fuel. -/
def parseLoop (text : List Char) : Nat → Nat → Nat → List Segment → Option (Nat × List Segment)
  | 0, _, _, _ => none
  | fuel + 1, pos, scan, out =>
    (sliceFrom text scan).bind fun rest =>
      match findBars rest with
      | none => some (pos, out)
      | some openRel =>
        let opener := scan + openRel
        let after := opener + 2
        (sliceFrom text after).bind fun rest =>
          match findBars rest with
          -- an opener that is never closed
          | none => some (pos, out)
          | some closeRel =>
            -- `||||` is literal
            if closeRel = 0 then parseLoop text fuel pos after out
            else
              let close := after + closeRel
              (slice text pos opener).bind fun literal =>
                (slice text after close).bind fun spoiler =>
                  parseLoop text fuel (close + 2) (close + 2)
                    (out ++ (if pos < opener then [.text literal] else []) ++ [.spoiler spoiler])

def parse (text : List Char) : Option (List Segment) :=
  (parseLoop text (byteLen text + 1) 0 0 []).bind fun (pos, out) =>
    if pos < byteLen text then (sliceFrom text pos).map fun literal => out ++ [.text literal]
    else some out

/-! ## §2. The mask. -/

def FNV_OFFSET : UInt64 := 0xcbf29ce484222325
def FNV_PRIME : UInt64 := 0x00000100000001b3

def fnv1a (state : UInt64) (bytes : List UInt8) : UInt64 :=
  bytes.foldl (fun h b => (h ^^^ b.toUInt64) * FNV_PRIME) state

def toLeBytes (n : UInt64) : List UInt8 :=
  (range 8).map fun i => (n >>> UInt64.ofNat (8 * i)).toUInt8

/-- The seed of spoiler number `index` of a message; `sender` is the name's bytes. -/
def seed (millis : UInt64) (sender : List UInt8) (index : Nat) : UInt64 :=
  fnv1a (fnv1a (fnv1a FNV_OFFSET (toLeBytes millis)) sender) (toLeBytes (UInt64.ofNat index))

/-- `decide`, under a name of its own. -/
def decideHash (seed : UInt64) (tag : UInt8) (generation : UInt32) (index : Nat) : UInt64 :=
  fnv1a (fnv1a (fnv1a seed [tag]) (toLeBytes generation.toUInt64)) (toLeBytes (UInt64.ofNat index))

def isAsciiPunctuation (c : Char) : Bool :=
  let n := c.toNat
  (0x21 ≤ n && n ≤ 0x2F) || (0x3A ≤ n && n ≤ 0x40) || (0x5B ≤ n && n ≤ 0x60) ||
    (0x7B ≤ n && n ≤ 0x7E)

-- `char::is_numeric` and `char::is_uppercase`, two tables of the standard library
variable (isNumeric isUppercase : Char → Bool)

def substitute (c : Char) (h : UInt64) : Char :=
  if isNumeric c then .ofNat ('0'.toNat + (h % 10).toNat)
  else if isUppercase c then .ofNat ('A'.toNat + (h % 26).toNat)
  else .ofNat ('a'.toNat + (h % 26).toNat)

def scramble (text : List Char) (seed : UInt64) (generation : UInt32) : List Char :=
  text.mapIdx fun i c =>
    if isWhitespace c || isAsciiPunctuation c then c
    else substitute isNumeric isUppercase c (decideHash seed 0 generation i)

/-- The loop of `mask_message`; `index` counts the spoilers. -/
def maskSegments (seedBase : UInt64) (sender : List UInt8) : Nat → List Segment → List Char
  | _, [] => []
  | index, .text t :: rest => t ++ maskSegments seedBase sender index rest
  | index, .spoiler s :: rest =>
    scramble isNumeric isUppercase s (seed seedBase sender index) 0 ++
      maskSegments seedBase sender (index + 1) rest

def maskMessage (text : List Char) (seedBase : UInt64) (sender : List UInt8) : Option (List Char) :=
  if (findBars text).isNone then some text
  else (parse text).map (maskSegments isNumeric isUppercase seedBase sender 0)

/-! ## §3. Nothing is lost. -/

def Segment.source : Segment → List Char
  | .text t => t
  | .spoiler s => bars ++ s ++ bars

def Segment.WellFormed : Segment → Prop
  | .text t => t ≠ []
  | .spoiler s => s ≠ [] ∧ ¬ bars <:+: s

variable {text s t rest : List Char} {out segments : List Segment} {n : Nat}

theorem byteLen_bars : byteLen bars = 2 := by decide

theorem slice_of_eq (before part after : List Char) {start stop : Nat}
    (htext : text = before ++ part ++ after) (hstart : start = byteLen before)
    (hstop : stop = start + byteLen part) : slice text start stop = some part := by
  rw [htext, hstop, hstart, slice_byteLen]

theorem sliceFrom_of_eq (htext : text = s ++ t) (hn : n = byteLen s) : sliceFrom text n = some t :=
  slice_of_eq s t [] (by rw [htext, append_nil]) hn (by rw [htext, byteLen_append, hn])

/-- The bars found are the first ones. -/
theorem findBars_eq_some (h : findBars s = some n) :
    ∃ before after, s = before ++ (bars ++ after) ∧ byteLen before = n ∧ ¬ bars <:+: before := by
  induction s generalizing n with
  | nil => cases h
  | cons c s ih =>
    rw [findBars] at h
    split at h
    next hbars =>
      obtain ⟨after, hafter⟩ := hbars
      cases h
      exact ⟨[], after, hafter.symm, rfl, fun hin => by simpa [bars] using hin.length_le⟩
    next hbars =>
      obtain ⟨m, hm, rfl⟩ := map_eq_some_iff.mp h
      obtain ⟨before, after, rfl, rfl, hfirst⟩ := ih hm
      refine ⟨c :: before, after, rfl, rfl, fun hin => ?_⟩
      rcases infix_cons_iff.mp hin with hhead | htail
      · exact hbars (hhead.trans (prefix_append (c :: before) _))
      · exact hfirst htail

structure Read (done : List Char) (out : List Segment) : Prop where
  source : out.flatMap Segment.source = done
  wellFormed : ∀ segment ∈ out, segment.WellFormed

theorem Read.push {done : List Char} (h : Read done out) (segment : Segment)
    (hnew : segment.WellFormed) : Read (done ++ segment.source) (out ++ [segment]) where
  source := by rw [flatMap_append, h.source, flatMap_singleton]
  wellFormed := forall_mem_append.mpr ⟨h.wellFormed, by simpa using hnew⟩

theorem Read.literal {done : List Char} (h : Read done out) (literal : List Char) :
    Read (done ++ literal)
      (out ++ if byteLen done < byteLen done + byteLen literal then [.text literal] else []) := by
  by_cases hlit : literal = []
  · simpa [hlit] using h
  · have hpos := byteLen_pos hlit
    rw [if_pos (by omega)]
    exact h.push (.text literal) hlit

/-- **The scan never fails and loses nothing**: from any point it can be at, the segments it returns
make up the text up to the literal text that is left over. -/
theorem parseLoop_eq (done pending rest : List Char) {fuel pos scan : Nat}
    (htext : text = done ++ pending ++ rest) (hpos : pos = byteLen done)
    (hscan : scan = byteLen (done ++ pending)) (hfuel : byteLen rest < fuel)
    (hout : Read done out) :
    ∃ done' left out', text = done' ++ left ∧ Read done' out' ∧
      parseLoop text fuel pos scan out = some (byteLen done', out') := by
  induction fuel generalizing done pending rest pos scan out with
  | zero => exact absurd hfuel (Nat.not_lt_zero _)
  | succ fuel ih =>
    rw [parseLoop, sliceFrom_of_eq htext hscan, bind_some]
    have hstop : ∃ done' left out', text = done' ++ left ∧ Read done' out' ∧
        some (pos, out) = some (byteLen done', out') :=
      ⟨done, pending ++ rest, out, by rw [htext, append_assoc], hout, by rw [hpos]⟩
    cases hopen : findBars rest with
    | none => exact hstop
    | some openRel =>
      obtain ⟨before, after, rfl, rfl, _⟩ := findBars_eq_some hopen
      simp only
      have htext' : text = done ++ (pending ++ before ++ bars) ++ after := by
        simp only [htext, append_assoc]
      have hafter : scan + byteLen before + 2 = byteLen (done ++ (pending ++ before ++ bars)) := by
        simp only [hscan, byteLen_append, byteLen_bars]
        omega
      rw [sliceFrom_of_eq htext' hafter, bind_some]
      simp only [byteLen_append, byteLen_bars] at hfuel hscan
      cases hclose : findBars after with
      | none => exact hstop
      | some closeRel =>
        simp only
        split
        · exact ih _ _ _ htext' hpos hafter (by omega) hout
        next hrel =>
          obtain ⟨spoiler, tail, rfl, rfl, hfirst⟩ := findBars_eq_some hclose
          have hne : spoiler ≠ [] := fun hnil => hrel (by rw [hnil]; rfl)
          have hread := (hout.literal (pending ++ before)).push (.spoiler spoiler) ⟨hne, hfirst⟩
          rw [slice_of_eq done (pending ++ before) (bars ++ (spoiler ++ (bars ++ tail)))
              (by simp only [htext, append_assoc]) hpos (by rw [byteLen_append]; omega),
            bind_some,
            slice_of_eq (done ++ (pending ++ before ++ bars)) spoiler (bars ++ tail)
              (by simp only [htext', append_assoc]) hafter rfl, bind_some]
          rw [show byteLen done + byteLen (pending ++ before) = scan + byteLen before by
            rw [byteLen_append]; omega, ← hpos] at hread
          have hdone : scan + byteLen before + 2 + byteLen spoiler + 2 =
              byteLen (done ++ (pending ++ before) ++ (bars ++ spoiler ++ bars)) := by
            simp only [byteLen_append, byteLen_bars]
            omega
          simp only [byteLen_append, byteLen_bars] at hfuel
          exact ih _ [] tail (by simp only [htext, append_assoc, nil_append]) hdone
            (by rw [hdone, append_nil]) (by omega) hread

theorem parse_eq (text : List Char) :
    ∃ segments, parse text = some segments ∧ Read text segments := by
  obtain ⟨done, left, out, htext, hread, hloop⟩ :=
    @parseLoop_eq text [] [] [] text (byteLen text + 1) 0 0 rfl rfl rfl (Nat.lt_succ_self _)
      ⟨rfl, nofun⟩
  have hlen : byteLen text = byteLen done + byteLen left := by rw [htext, byteLen_append]
  have hread' := hread.literal left
  rw [← htext, ← hlen] at hread'
  refine ⟨_, ?_, hread'⟩
  rw [parse, hloop, bind_some]
  simp only [sliceFrom_of_eq htext rfl, map_some]
  split <;> simp

/-! ## §4. What the mask depends on. -/

inductive Kind where
  | numeric | uppercase | other

def kind (c : Char) : Kind :=
  if isNumeric c then .numeric else if isUppercase c then .uppercase else .other

def Hidden (c : Char) : Prop := isWhitespace c = false ∧ isAsciiPunctuation c = false

def SameClass (c d : Char) : Prop :=
  c = d ∨ Hidden c ∧ Hidden d ∧ kind isNumeric isUppercase c = kind isNumeric isUppercase d

inductive SameShape : Segment → Segment → Prop
  | text (t : List Char) : SameShape (.text t) (.text t)
  | spoiler {s t : List Char} :
    Forall₂ (SameClass isNumeric isUppercase) s t → SameShape (.spoiler s) (.spoiler t)

variable {isNumeric isUppercase}

theorem substitute_congr {c d : Char}
    (h : kind isNumeric isUppercase c = kind isNumeric isUppercase d) (hash : UInt64) :
    substitute isNumeric isUppercase c hash = substitute isNumeric isUppercase d hash := by
  unfold kind at h
  unfold substitute
  grind

theorem scramble_congr (h : Forall₂ (SameClass isNumeric isUppercase) s t) (seed : UInt64)
    (generation : UInt32) : scramble isNumeric isUppercase s seed generation =
      scramble isNumeric isUppercase t seed generation := by
  refine ext_getElem (by simp [scramble, h.length_eq]) fun i hi hi' => ?_
  simp only [scramble, getElem_mapIdx]
  have hclass := h.get (by simpa [scramble] using hi) (by simpa [scramble] using hi')
  rw [get_eq_getElem, get_eq_getElem] at hclass
  rcases hclass with heq | ⟨hc, hd, hkind⟩
  · rw [heq]
  · simp only [hc.1, hc.2, hd.1, hd.2, Bool.or_self, Bool.false_eq_true, if_false]
    rw [substitute_congr hkind]

theorem maskSegments_congr {seedBase : UInt64} {sender : List UInt8} {index : Nat}
    {a b : List Segment} (h : Forall₂ (SameShape isNumeric isUppercase) a b) :
    maskSegments isNumeric isUppercase seedBase sender index a =
      maskSegments isNumeric isUppercase seedBase sender index b := by
  induction h generalizing index with
  | nil => rfl
  | cons hhead _ ih =>
    cases hhead with
    | text t => rw [maskSegments, maskSegments, ih]
    | spoiler hspoiler => rw [maskSegments, maskSegments, ih, scramble_congr hspoiler]

theorem maskMessage_eq (text : List Char) (seedBase : UInt64) (sender : List UInt8) :
    maskMessage isNumeric isUppercase text seedBase sender =
      (parse text).map (maskSegments isNumeric isUppercase seedBase sender 0) := by
  rw [maskMessage]
  split
  next hnone =>
    have hslice : sliceFrom text 0 = some text := sliceFrom_of_eq (nil_append text).symm rfl
    rw [parse, parseLoop, hslice, bind_some, isNone_iff_eq_none.mp hnone]
    simp only [bind_some, hslice, map_some, nil_append]
    by_cases htext : text = []
    · simp [htext, maskSegments]
    · simp [byteLen_pos htext, maskSegments]
  · rfl

/-- **A mask shows only the shape of a spoiler**, and reading a message loses nothing. -/
theorem spoilers_masked (isNumeric isUppercase : Char → Bool) :
    (∀ text : List Char, ∃ segments, parse text = some segments ∧
      segments.flatMap Segment.source = text ∧ ∀ segment ∈ segments, segment.WellFormed) ∧
    ∀ (a b : List Char) (as bs : List Segment), parse a = some as → parse b = some bs →
      Forall₂ (SameShape isNumeric isUppercase) as bs →
      ∀ (seedBase : UInt64) (sender : List UInt8), ∃ mask,
        maskMessage isNumeric isUppercase a seedBase sender = some mask ∧
        maskMessage isNumeric isUppercase b seedBase sender = some mask := by
  refine ⟨fun text => ?_, fun a b as bs ha hb hshape seedBase sender => ?_⟩
  · obtain ⟨segments, hparse, hread⟩ := parse_eq text
    exact ⟨segments, hparse, hread.source, hread.wellFormed⟩
  · refine ⟨maskSegments isNumeric isUppercase seedBase sender 0 as, ?_, ?_⟩
    · rw [maskMessage_eq, ha, map_some]
    · rw [maskMessage_eq, hb, map_some, maskSegments_congr hshape]

theorem spoilers_masked_two_words :
    ∃ mask, maskMessage (fun _ => false) (fun _ => false) "so ||ab||".toList 1 [] = some mask ∧
      maskMessage (fun _ => false) (fun _ => false) "so ||cd||".toList 1 [] = some mask := by
  have hclass : Forall₂ (SameClass (fun _ => false) (fun _ => false)) ['a', 'b'] ['c', 'd'] :=
    .cons (.inr ⟨⟨rfl, rfl⟩, ⟨rfl, rfl⟩, rfl⟩) (.cons (.inr ⟨⟨rfl, rfl⟩, ⟨rfl, rfl⟩, rfl⟩) .nil)
  exact (spoilers_masked (fun _ => false) (fun _ => false)).2 _ _
    [.text "so ".toList, .spoiler ['a', 'b']] [.text "so ".toList, .spoiler ['c', 'd']]
    (by decide +kernel) (by decide +kernel) (.cons (.text _) (.cons (.spoiler hclass) .nil)) 1 []

end DessPlay.Core.Spoiler
