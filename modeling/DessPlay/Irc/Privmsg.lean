/-
  DessPlay.Irc.Privmsg
  **CHAT TEXT AS IRC LINES** (`dessplay/src/actors/irc.rs`).

  `formatPrivmsg` turns a chat text into `PRIVMSG` lines, cutting long ones into chunks
  of at most 400 bytes; `parseLine` is what reads a line at the other end.  The two are
  inverse, and nothing in a text can start a line of its own, unless the text has a `\r`
  inside a line: only those at a line's end are taken off.
-/
import DessPlay.Lib.Text
import DessPlay.Lib.Utf8

namespace DessPlay.Irc

open Text Utf8 List Option

/-! ## §1. Reading a line. -/

def trimStart (s : List Char) : List Char := s.dropWhile isWhitespace

structure ParsedLine where
  source : Option (List Char)
  command : List Char
  params : List (List Char)
  deriving DecidableEq

variable {rest param s : List Char}

theorem length_trimStart_lt {after : List Char} (h : splitOnce ' ' rest = some (param, after)) :
    (trimStart after).length < rest.length := by
  have hdrop : (trimStart after).length ≤ after.length := (dropWhile_suffix _).length_le
  rw [splitOnce_eq_some h, length_append, length_cons]
  omega

/-- The loop over the parameters: one that starts with `:` takes the rest of the line. -/
def parseParams (rest : List Char) : List (List Char) :=
  match rest with
  | [] => []
  | ':' :: trailing => [trailing]
  | rest =>
    match h : splitOnce ' ' rest with
    | some (param, after) =>
      have := length_trimStart_lt h
      param :: parseParams (trimStart after)
    | none => [rest]
termination_by rest.length

/-- The source and what follows it; a source that nothing follows is malformed. -/
def splitSource : List Char → Option (Option (List Char) × List Char)
  | ':' :: stripped =>
    (splitOnce ' ' stripped).map fun (source, rest) => (some source, trimStart rest)
  | rest => some (none, rest)

def splitCommand (rest : List Char) : List Char × List Char :=
  match splitOnce ' ' rest with
  | some (command, rest) => (command, trimStart rest)
  | none => (rest, [])

def parseLine (raw : List Char) : Option ParsedLine :=
  let rest := trimStart (raw.rdropWhile fun c => c = '\r' ∨ c = '\n')
  if rest = [] then none
  else
    (splitSource rest).bind fun (source, rest) =>
      let (command, rest) := splitCommand rest
      if command = [] then none else some ⟨source, command, parseParams rest⟩

/-! ## §2. Writing the lines. -/

def maxPrivmsgText : Nat := 400

/-- The loop of `chunk_str` over `char_indices`. -/
def chunkLoop (s : List Char) (max : Nat) :
    List (Nat × Char) → Nat → List (List Char) → Option (Nat × List (List Char))
  | [], start, chunks => some (start, chunks)
  | (i, c) :: rest, start, chunks =>
    if max < i + c.utf8Size - start ∧ start < i then
      (slice s start i).bind fun chunk => chunkLoop s max rest i (chunks ++ [chunk])
    else chunkLoop s max rest start chunks

/-- A text in chunks of at most `max` bytes; `none` if it were cut inside a character. -/
def chunkStr (s : List Char) (max : Nat) : Option (List (List Char)) :=
  (chunkLoop s max (charIndices 0 s) 0 []).bind fun (start, chunks) =>
    if start < byteLen s then (slice s start (byteLen s)).map fun chunk => chunks ++ [chunk]
    else some chunks

def privmsg : List Char := ['P', 'R', 'I', 'V', 'M', 'S', 'G']

def privmsgLine (channel payload : List Char) : List Char :=
  privmsg ++ ' ' :: (channel ++ ' ' :: ':' :: payload)

/-- The lines for one line of the text. -/
def formatSegment (channel segment : List Char) : Option (List (List Char)) :=
  let segment := segment.rdropWhile (· = '\r')
  if segment = [] then some []
  -- A CTCP message is kept whole, however long.
  else if segment.head? = some '\x01' ∨ byteLen segment ≤ maxPrivmsgText then
    some [privmsgLine channel segment]
  else (chunkStr segment maxPrivmsgText).map (map (privmsgLine channel))

def formatPrivmsg (channel text : List Char) : Option (List (List Char)) :=
  (text.splitOn '\n').foldlM
    (fun out segment => (formatSegment channel segment).map (out ++ ·)) []

/-! ## §3. A line is read back. -/

theorem parseParams_param (hne : param ≠ []) (hspace : ' ' ∉ param)
    (hcolon : param.head? ≠ some ':') :
    parseParams (param ++ ' ' :: rest) = param :: parseParams (trimStart rest) := by
  have hsplit := splitOnce_append hspace rest
  rw [parseParams.eq_def]
  split
  next heq => simp at heq
  next trailing heq =>
    cases param with
    | nil => exact absurd rfl hne
    | cons c param =>
      cases (cons.inj heq).1
      exact absurd rfl hcolon
  · split
    next param' after heq =>
      rw [hsplit] at heq
      cases heq
      rfl
    next heq => rw [hsplit] at heq; cases heq

theorem parseParams_trailing (trailing : List Char) :
    parseParams (':' :: trailing) = [trailing] := by
  rw [parseParams.eq_def]
  rfl

theorem trimStart_eq_self (h : ∀ c ∈ s.head?, isWhitespace c = false) : trimStart s = s := by
  cases s with
  | nil => rfl
  | cons c s => rw [trimStart, dropWhile_cons_of_neg (by rw [h c rfl]; decide)]

section Channel

variable {channel : List Char} (hne : channel ≠ []) (hspace : ∀ c ∈ channel, isWhitespace c = false)
  (hcolon : channel.head? ≠ some ':')

include hne hspace hcolon

/-- **Read back**: what does not end in a line terminator comes back as it was. -/
theorem parseLine_privmsgLine {payload : List Char}
    (hend : ∀ c ∈ payload.getLast?, c ≠ '\r' ∧ c ≠ '\n') :
    parseLine (privmsgLine channel payload) = some ⟨none, privmsg, [channel, payload]⟩ := by
  have hkeep : (privmsgLine channel payload).rdropWhile (fun c => c = '\r' ∨ c = '\n') =
      privmsgLine channel payload := by
    refine rdropWhile_eq_self_iff.mpr fun hl => ?_
    have hlast : some ((privmsgLine channel payload).getLast hl) =
        some (payload.getLast?.getD ':') := by
      rw [← getLast?_eq_some_getLast hl, ← getLast?_cons,
        show privmsgLine channel payload =
          (privmsg ++ ' ' :: (channel ++ [' '])) ++ ':' :: payload by simp [privmsgLine]]
      exact getLast?_append_of_ne_nil _ (cons_ne_nil _ _)
    rw [Option.some.inj hlast]
    cases hpayload : payload.getLast? with
    | none => decide
    | some c => simpa using hend c hpayload
  have hblank : ' ' ∉ channel := fun hmem => absurd (hspace ' ' hmem) (by decide)
  have hstart : trimStart (privmsgLine channel payload) = privmsgLine channel payload :=
    trimStart_eq_self fun c hc => by
      cases hc
      decide
  have hchannel : trimStart (channel ++ ' ' :: ':' :: payload) =
      channel ++ ' ' :: ':' :: payload := by
    refine trimStart_eq_self fun c hc => hspace c ?_
    cases channel with
    | nil => exact absurd rfl hne
    | cons d channel =>
      cases hc
      exact mem_cons_self
  have hcommand : splitCommand (privmsgLine channel payload) =
      (privmsg, channel ++ ' ' :: ':' :: payload) := by
    rw [splitCommand, privmsgLine, splitOnce_append (by decide)]
    exact congrArg _ hchannel
  have hparams : parseParams (channel ++ ' ' :: ':' :: payload) = [channel, payload] := by
    rw [parseParams_param hne hblank hcolon, trimStart_eq_self (by rintro c ⟨⟩; decide),
      parseParams_trailing]
  rw [parseLine, hkeep, hstart, if_neg nofun]
  show Option.bind (some (none, privmsgLine channel payload)) _ = _
  simp only [bind_some, hcommand, hparams]
  rfl

end Channel

/-! ## §4. The chunks. -/

/-- The loop's invariant: what is cut off and what is pending are together what was read, and
neither exceeds the limit. -/
theorem chunkLoop_spec {max : Nat} (hmax : 4 ≤ max) (todo : List Char) :
    ∀ (pending : List Char) (chunks : List (List Char)),
      s = chunks.flatten ++ pending ++ todo → byteLen pending ≤ max →
      (∀ chunk ∈ chunks, byteLen chunk ≤ max) →
      ∃ chunks' pending', chunkLoop s max
          (charIndices (byteLen (chunks.flatten ++ pending)) todo) (byteLen chunks.flatten) chunks =
            some (byteLen chunks'.flatten, chunks') ∧
        s = chunks'.flatten ++ pending' ∧ byteLen pending' ≤ max ∧
        ∀ chunk ∈ chunks', byteLen chunk ≤ max := by
  induction todo with
  | nil =>
    intro pending chunks hs hpending hchunks
    exact ⟨chunks, pending, rfl, by simpa using hs, hpending, hchunks⟩
  | cons c todo ih =>
    intro pending chunks hs hpending hchunks
    have hc := c.utf8Size_le_four
    rw [charIndices, chunkLoop]
    split
    next hcut =>
      -- The pending characters become a chunk; `c` is the first of the next.
      have hflat : (chunks ++ [pending]).flatten = chunks.flatten ++ pending := by simp
      have hslice : slice s (byteLen chunks.flatten) (byteLen (chunks.flatten ++ pending)) =
          some pending := by
        rw [hs, byteLen_append]
        exact slice_byteLen _ _ _
      obtain ⟨chunks', pending', hloop, hrest⟩ := ih [c] (chunks ++ [pending])
        (by simp [hs]) (by simp; omega) (fun chunk hchunk => by
          rcases mem_append.mp hchunk with hchunk | hchunk
          · exact hchunks chunk hchunk
          · exact mem_singleton.mp hchunk ▸ hpending)
      refine ⟨chunks', pending', ?_, hrest⟩
      rw [hslice, bind_some, ← hloop, hflat, byteLen_append _ [c]]
      rfl
    next hkeep =>
      have hfits : byteLen (pending ++ [c]) ≤ max := by
        rw [byteLen_append] at hkeep ⊢
        rw [byteLen_cons, byteLen_nil]
        rcases eq_zero_or_pos (byteLen pending) with hzero | hpos
        · omega
        · omega
      obtain ⟨chunks', pending', hloop, hrest⟩ := ih (pending ++ [c]) chunks
        (by simp [hs]) hfits hchunks
      refine ⟨chunks', pending', ?_, hrest⟩
      rw [← hloop, ← append_assoc, byteLen_append _ [c]]
      rfl

theorem chunkStr_spec {max : Nat} (hmax : 4 ≤ max) (s : List Char) :
    ∃ chunks, chunkStr s max = some chunks ∧ chunks.flatten = s ∧
      ∀ chunk ∈ chunks, byteLen chunk ≤ max := by
  obtain ⟨chunks, pending, hloop, hs, hpending, hchunks⟩ :=
    chunkLoop_spec (s := s) hmax s [] [] rfl (Nat.zero_le _) nofun
  replace hloop : chunkLoop s max (charIndices 0 s) 0 [] = _ := hloop
  rw [chunkStr, hloop, bind_some]
  dsimp only
  split
  · refine ⟨chunks ++ [pending], ?_, by simp [← hs], fun chunk hchunk => ?_⟩
    · have hslice := slice_byteLen chunks.flatten pending []
      rw [append_nil, ← byteLen_append, ← hs] at hslice
      rw [hslice]
      rfl
    · rcases mem_append.mp hchunk with hchunk | hchunk
      · exact hchunks chunk hchunk
      · exact mem_singleton.mp hchunk ▸ hpending
  next hdone =>
    refine ⟨chunks, rfl, ?_, hchunks⟩
    have hnone : pending = [] := by
      by_contra hne
      have hpos := byteLen_pos hne
      rw [hs, byteLen_append] at hdone
      omega
    rw [hs, hnone, append_nil]

/-! ## §5. The payloads of a text. -/

/-- The payloads of one line of the text: they make it up without the `\r`s at its end, and fit
unless it is a CTCP message. -/
def Conveys (segment : List Char) (payloads : List (List Char)) : Prop :=
  payloads.flatten = segment.rdropWhile (· = '\r') ∧
    (segment.head? ≠ some '\x01' → ∀ payload ∈ payloads, byteLen payload ≤ maxPrivmsgText)

theorem formatSegment_spec (channel segment : List Char) :
    ∃ payloads, formatSegment channel segment = some (payloads.map (privmsgLine channel)) ∧
      Conveys segment payloads := by
  rw [formatSegment]
  by_cases hempty : segment.rdropWhile (· = '\r') = []
  · exact ⟨[], if_pos hempty, hempty.symm, fun _ _ h => absurd h not_mem_nil⟩
  rw [if_neg hempty]
  have hhead : (segment.rdropWhile (· = '\r')).head? = segment.head? := by
    obtain ⟨rest, hrest⟩ := rdropWhile_prefix (p := (· = '\r')) (l := segment)
    cases htrim : segment.rdropWhile (· = '\r') with
    | nil => exact absurd htrim hempty
    | cons c body => rw [← hrest, htrim]; rfl
  split
  next hwhole =>
    refine ⟨[segment.rdropWhile (· = '\r')], rfl, by simp, fun hplain payload hpayload => ?_⟩
    rw [mem_singleton.mp hpayload]
    exact hwhole.resolve_left (hhead ▸ hplain)
  · obtain ⟨chunks, hchunks, hflat, hfit⟩ :=
      chunkStr_spec (show 4 ≤ maxPrivmsgText by decide) (segment.rdropWhile (· = '\r'))
    exact ⟨chunks, by rw [hchunks]; rfl, hflat, fun _ => hfit⟩

theorem format_fold (channel : List Char) (segments : List (List Char)) :
    ∀ out, ∃ payloads : List (List (List Char)),
      segments.foldlM (fun out segment => (formatSegment channel segment).map (out ++ ·)) out =
        some (out ++ payloads.flatten.map (privmsgLine channel)) ∧
      Forall₂ Conveys segments payloads := by
  induction segments with
  | nil => exact fun out => ⟨[], by simp, .nil⟩
  | cons segment segments ih =>
    intro out
    obtain ⟨payloads, hsegment, hconveys⟩ := formatSegment_spec channel segment
    obtain ⟨rest, hrest, hall⟩ := ih (out ++ payloads.map (privmsgLine channel))
    refine ⟨payloads :: rest, ?_, .cons hconveys hall⟩
    rw [foldlM_cons, hsegment]
    simp only [map_some, bind_eq_bind, bind_some]
    rw [hrest]
    simp

theorem formatPrivmsg_spec (channel text : List Char) :
    ∃ payloads : List (List (List Char)),
      formatPrivmsg channel text = some (payloads.flatten.map (privmsgLine channel)) ∧
      Forall₂ Conveys (text.splitOn '\n') payloads := by
  obtain ⟨payloads, hfold, hall⟩ := format_fold channel (text.splitOn '\n') []
  exact ⟨payloads, hfold, hall⟩

theorem flatten_conveys {segments : List (List Char)} {payloads : List (List (List Char))}
    (h : Forall₂ Conveys segments payloads) :
    payloads.flatten.flatten =
      (segments.map fun segment => segment.rdropWhile (· = '\r')).flatten := by
  induction h with
  | nil => rfl
  | cons hconveys _ ih =>
    rw [flatten_cons, flatten_append, hconveys.1, ih, map_cons, flatten_cons]

theorem mem_payload_iff {segments : List (List Char)} {payloads : List (List (List Char))}
    (h : List.Forall₂ Conveys segments payloads) (c : Char) :
    (∃ payload ∈ payloads.flatten, c ∈ payload) ↔
      ∃ segment ∈ segments, c ∈ segment.rdropWhile (· = '\r') := by
  rw [← mem_flatten, flatten_conveys h, mem_flatten]
  simp only [List.mem_map, exists_exists_and_eq_and]

/-! ## §6. What a text must not have. -/

/-- Every `\r` of a text stands at the end of one of its lines. -/
def CrTrailing (text : List Char) : Prop :=
  text.IsChain fun a b => a = '\r' → b = '\r' ∨ b = '\n'

instance (text : List Char) : Decidable (CrTrailing text) :=
  inferInstanceAs (Decidable (text.IsChain _))

theorem crTrailing_line {line : List Char} (hline : '\n' ∉ line) :
    CrTrailing line ↔ '\r' ∉ line.rdropWhile (· = '\r') := by
  unfold CrTrailing
  induction line using reverseRecOn with
  | nil => simp
  | append_singleton line c ih =>
    have hnot : '\n' ∉ line ∧ c ≠ '\n' := by simpa [eq_comm] using hline
    rw [rdropWhile_concat, isChain_append, ih hnot.1]
    by_cases hc : c = '\r'
    · simp [hc]
    · rw [if_neg (by simpa using hc)]
      constructor
      · rintro ⟨hbody, _, hlast⟩
        have hself : line.rdropWhile (· = '\r') = line := by
          refine rdropWhile_eq_self_iff.mpr fun hl hcr => ?_
          have hnext := hlast _ (getLast?_eq_some_getLast hl) c rfl (by simpa using hcr)
          exact hnext.elim hc hnot.2
        rw [hself] at hbody
        simp [hbody, Ne.symm hc]
      · intro hnone
        have hbody : '\r' ∉ line := fun h => hnone (mem_append_left _ h)
        refine ⟨fun h => hbody (( rdropWhile_prefix _ _).subset h), .singleton _, ?_⟩
        intro a ha b _ hcr
        exact absurd (hcr ▸ mem_of_getLast? ha) hbody

theorem crTrailing_iff (text : List Char) :
    CrTrailing text ↔ ∀ segment ∈ text.splitOn '\n', '\r' ∉ segment.rdropWhile (· = '\r') := by
  rw [CrTrailing, isChain_splitOn (fun a (_ : a = '\r') => .inr (rfl : '\n' = '\n'))
    (fun _ h => absurd h (by decide))]
  exact forall₂_congr fun segment hsegment => crTrailing_line (not_mem_of_mem_splitOn hsegment)

/-- Nothing breaks out of a line, and everything is read back. -/
structure Faithful (channel text : List Char) (lines : List (List Char)) : Prop where
  bare : ∀ line ∈ lines, '\r' ∉ line ∧ '\n' ∉ line
  readBack : ∃ payloads : List (List (List Char)),
    lines.map parseLine =
      payloads.flatten.map (fun payload => some ⟨none, privmsg, [channel, payload]⟩) ∧
    Forall₂ Conveys (text.splitOn '\n') payloads ∧
    payloads.flatten.flatten =
      ((text.splitOn '\n').map fun segment => segment.rdropWhile (· = '\r')).flatten

section Channel

variable {channel : List Char} (hspace : ∀ c ∈ channel, isWhitespace c = false)

include hspace

theorem mem_privmsgLine {payload : List Char} {c : Char} (hc : c = '\r' ∨ c = '\n') :
    c ∈ privmsgLine channel payload ↔ c ∈ payload := by
  have hchannel : c ∉ channel := fun hmem => by
    have hwhite := hspace c hmem
    rcases hc with rfl | rfl
    all_goals exact absurd hwhite (by decide)
  rcases hc with rfl | rfl
  all_goals simp [privmsgLine, privmsg, hchannel]

/-- **No injection and no loss**, for exactly the texts whose `\r`s all stand at the end of a
line. -/
theorem privmsg_faithful_iff (hne : channel ≠ []) (hcolon : channel.head? ≠ some ':')
    (text : List Char) :
    (∃ lines, formatPrivmsg channel text = some lines ∧ Faithful channel text lines) ↔
      CrTrailing text := by
  obtain ⟨payloads, hformat, hall⟩ := formatPrivmsg_spec channel text
  rw [hformat, crTrailing_iff]
  constructor
  · rintro ⟨lines, hlines, hfaithful⟩ segment hsegment hcr
    cases hlines
    obtain ⟨payload, hpayload, hmem⟩ := (mem_payload_iff hall '\r').mpr ⟨segment, hsegment, hcr⟩
    have hbare := (hfaithful.bare _ (mem_map_of_mem hpayload)).1
    exact hbare ((mem_privmsgLine hspace (.inl rfl)).mpr hmem)
  · intro hclean
    have hnone : ∀ payload ∈ payloads.flatten, '\r' ∉ payload ∧ '\n' ∉ payload := by
      refine fun payload hpayload => ⟨fun hmem => ?_, fun hmem => ?_⟩
      · obtain ⟨segment, hsegment, hcr⟩ := (mem_payload_iff hall '\r').mp ⟨payload, hpayload, hmem⟩
        exact hclean segment hsegment hcr
      · obtain ⟨segment, hsegment, hlf⟩ := (mem_payload_iff hall '\n').mp ⟨payload, hpayload, hmem⟩
        exact not_mem_of_mem_splitOn hsegment (( rdropWhile_prefix _ _).subset hlf)
    refine ⟨_, rfl, fun line hline => ?_, payloads, ?_, hall, flatten_conveys hall⟩
    · obtain ⟨payload, hpayload, rfl⟩ := mem_map.mp hline
      rw [mem_privmsgLine hspace (.inl rfl), mem_privmsgLine hspace (.inr rfl)]
      exact hnone payload hpayload
    · rw [List.map_map]
      refine List.map_congr_left fun payload hpayload => ?_
      refine parseLine_privmsgLine hne hspace hcolon fun c hc => ?_
      have hmem := mem_of_getLast? hc
      obtain ⟨hcr, hlf⟩ := hnone payload hpayload
      exact ⟨fun heq => hcr (heq ▸ hmem), fun heq => hlf (heq ▸ hmem)⟩

end Channel

theorem privmsg_faithful_two_lines :
    ∃ lines, formatPrivmsg ['#', 'd'] ['h', 'i', '\r', '\n', 'y', 'o'] = some lines ∧
      Faithful ['#', 'd'] ['h', 'i', '\r', '\n', 'y', 'o'] lines := by
  have hspace : ∀ c ∈ ['#', 'd'], isWhitespace c = false := by simp [isWhitespace]
  exact (privmsg_faithful_iff hspace (by decide) (by decide) _).mpr (by decide +kernel)

theorem cr_reaches_wire :
    formatPrivmsg ['#', 'd'] ['h', 'i', '\r', 'Q', 'U', 'I', 'T'] =
      some [privmsgLine ['#', 'd'] ['h', 'i', '\r', 'Q', 'U', 'I', 'T']] ∧
    '\r' ∈ privmsgLine ['#', 'd'] ['h', 'i', '\r', 'Q', 'U', 'I', 'T'] := by
  decide

end DessPlay.Irc
