/-
  DessPlay.Network.Framing
  **STREAM FRAMING** (`dessplay-core/src/net/framing.rs`).

  A frame is a `u32` length, low byte first, and the payload.  A reader hands out its bytes in
  non-empty chunks, cut anywhere: a read takes what the buffer has room for from the first of
  them, and 0 bytes are the end of the stream.  Gathering reads into a buffer depends on the
  bytes alone (`gather_spec`), so frames come back whatever the cuts.
-/
import DessPlay.Core.Snapshot

namespace DessPlay.Network

open DessPlay.Core List

/-! ## §1. Readers and frames. -/

structure Reader where
  chunks : List (List UInt8)
  nonempty : ∀ c ∈ chunks, c ≠ []

namespace Reader

def bytes (r : Reader) : List UInt8 := r.chunks.flatten

def ended : Reader := ⟨[], nofun⟩

/-- One `read` into a buffer with room for `room` bytes. -/
def read (r : Reader) (room : Nat) : List UInt8 × Reader :=
  match r with
  | ⟨[], _⟩ => ([], ended)
  | ⟨c :: rest, h⟩ =>
    have hrest : ∀ c ∈ rest, c ≠ [] := fun c hc => h c (mem_cons_of_mem _ hc)
    if hlong : room < c.length then
      (c.take room, ⟨c.drop room :: rest, forall_mem_cons.mpr ⟨by simpa using hlong, hrest⟩⟩)
    else (c, ⟨rest, hrest⟩)

/-- Read until the buffer is full or the stream ends: the loop over the length prefix, and
`read_exact`.  Every turn but the last reads something, so `turns` is enough when it is the
size of the buffer. -/
def gather : Nat → Nat → Reader → List UInt8 × Reader
  | 0, _, r => ([], r)
  | turns + 1, room, r =>
    if room = 0 then ([], r)
    else
      match r.read room with
      | ([], r) => ([], r)
      | (got, r) =>
        let (more, r) := gather turns (room - got.length) r
        (got ++ more, r)

end Reader

inductive FrameError where
  | io
  | tooLarge (len : Nat)
  | closed
  deriving DecidableEq

def MAX_FRAME_LEN : Nat := 64 * 1024 * 1024

def validateLen (len max : Nat) : Except FrameError Nat :=
  if max < len then .error (.tooLarge len) else .ok len

/-- What `write_frame` puts on the stream. -/
def writeFrame (payload : List UInt8) : Except FrameError (List UInt8) :=
  if 2 ^ 32 ≤ payload.length then .error (.tooLarge payload.length)
  else (validateLen payload.length MAX_FRAME_LEN).map fun len => toLeBytes len ++ payload

/-- What one call leaves: its result, the rest of the stream, and the buffers it allocated. -/
structure ReadFrame where
  result : Except FrameError (List UInt8)
  rest : Reader
  allocated : List Nat

def readFrameCapped (r : Reader) (max : Nat) : ReadFrame :=
  match r.gather 4 4 with
  | ([b₀, b₁, b₂, b₃], r) =>
    match validateLen (fromLeBytes b₀ b₁ b₂ b₃) max with
    | .error e => ⟨.error e, r, [4]⟩
    | .ok len =>
      let (payload, r) := r.gather len len
      if payload.length = len then ⟨.ok payload, r, [4, len]⟩ else ⟨.error .io, r, [4, len]⟩
  | ([], r) => ⟨.error .closed, r, [4]⟩
  | (_, r) => ⟨.error .io, r, [4]⟩

def readFrame (r : Reader) : ReadFrame := readFrameCapped r MAX_FRAME_LEN

/-- The results of `n` calls, up to the first error. -/
def readFrames : Nat → Reader → List (Except FrameError (List UInt8))
  | 0, _ => []
  | n + 1, r =>
    match (readFrame r).result with
    | .ok payload => .ok payload :: readFrames n (readFrame r).rest
    | .error e => [.error e]

/-! ## §2. Gathering depends on the bytes alone. -/

namespace Reader

theorem read_spec (r : Reader) {room : Nat} (hroom : room ≠ 0) :
    (r.read room).1 ++ (r.read room).2.bytes = r.bytes ∧ (r.read room).1.length ≤ room ∧
      ((r.read room).1 = [] → r.bytes = []) := by
  match r with
  | ⟨[], _⟩ => simp [read, bytes, ended]
  | ⟨c :: rest, h⟩ =>
    have hc : c ≠ [] := h c mem_cons_self
    unfold read
    dsimp only
    split
    next hlong => simp [bytes, hroom, hc, ← append_assoc]
    next hshort => simp [bytes, hc, Nat.le_of_not_lt hshort]

theorem gather_spec (turns room : Nat) (r : Reader) (h : room ≤ turns) :
    (r.gather turns room).1 = r.bytes.take room ∧
      (r.gather turns room).2.bytes = r.bytes.drop room := by
  induction turns generalizing room r with
  | zero => simp [gather, Nat.le_zero.mp h]
  | succ turns ih =>
    unfold gather
    split
    next hzero => simp [hzero]
    next hroom =>
      obtain ⟨happend, hlen, hend⟩ := r.read_spec hroom
      split
      next r' hread =>
        rw [hread] at happend hend
        simp_all
      next got r' hgot hread =>
        rw [hread] at happend hlen
        have hpos : 0 < got.length := length_pos_iff.mpr hgot
        obtain ⟨hmore, hrest⟩ := ih (room - got.length) r' (by omega)
        rw [← happend, take_append, drop_append, take_of_length_le hlen,
          drop_of_length_le hlen]
        exact ⟨congrArg (got ++ ·) hmore, hrest⟩

end Reader

/-! ## §3. One call. -/

variable {r : Reader} {max : Nat}

theorem readFrameCapped_short (h : r.bytes.length < 4) :
    (readFrameCapped r max).result = .error (if r.bytes = [] then .closed else .io) ∧
      (readFrameCapped r max).allocated = [4] := by
  have hgot := (r.gather_spec 4 4 le_rfl).1
  rw [take_of_length_le (le_of_lt h)] at hgot
  obtain ⟨got, r', hgather⟩ : ∃ got r', r.gather 4 4 = (got, r') := ⟨_, _, rfl⟩
  rw [hgather] at hgot
  rw [← hgot] at h ⊢
  unfold readFrameCapped
  rw [hgather]
  match got with
  | [] | [_] | [_, _] | [_, _, _] => exact ⟨rfl, rfl⟩
  | _ :: _ :: _ :: _ :: _ =>
    simp only [length_cons] at h
    omega

theorem readFrameCapped_whole {b₀ b₁ b₂ b₃ : UInt8} {tail : List UInt8} {len : Nat}
    (h : r.bytes = b₀ :: b₁ :: b₂ :: b₃ :: tail) (hlen : fromLeBytes b₀ b₁ b₂ b₃ = len) :
    (max < len → (readFrameCapped r max).result = .error (.tooLarge len) ∧
      (readFrameCapped r max).allocated = [4]) ∧
    (len ≤ max → (readFrameCapped r max).allocated = [4, len] ∧
      (tail.length < len → (readFrameCapped r max).result = .error .io) ∧
      (len ≤ tail.length → (readFrameCapped r max).result = .ok (tail.take len) ∧
        (readFrameCapped r max).rest.bytes = tail.drop len)) := by
  obtain ⟨hlead, htail⟩ := r.gather_spec 4 4 le_rfl
  rw [h] at hlead htail
  obtain ⟨got, r', hgather⟩ : ∃ got r', r.gather 4 4 = (got, r') := ⟨_, _, rfl⟩
  rw [hgather] at hlead htail
  obtain rfl : got = [b₀, b₁, b₂, b₃] := hlead
  obtain ⟨hpayload, hrest⟩ := r'.gather_spec len len le_rfl
  rw [show r'.bytes = tail from htail] at hpayload hrest
  unfold readFrameCapped
  rw [hgather]
  simp only [hlen, validateLen]
  refine ⟨fun hlarge => by simp [if_pos hlarge], fun hfits => ?_⟩
  simp only [if_neg (not_lt.mpr hfits), hpayload, length_take]
  refine ⟨by split <;> rfl, fun hshort => ?_, fun hthere => ?_⟩
  · rw [if_neg (by omega)]
  · rw [if_pos (min_eq_left hthere)]
    exact ⟨rfl, hrest⟩

theorem fromLeBytes_toLeBytes {n : Nat} (h : n < 2 ^ 32) :
    fromLeBytes (.ofNat n) (.ofNat (n / 2 ^ 8)) (.ofNat (n / 2 ^ 16)) (.ofNat (n / 2 ^ 24)) =
      n := by
  simp only [fromLeBytes, UInt8.toNat_ofNat']
  omega

variable {payload frame more : List UInt8}

theorem writeFrame_eq_ok (h : writeFrame payload = .ok frame) :
    frame = toLeBytes payload.length ++ payload ∧ payload.length ≤ MAX_FRAME_LEN ∧
      payload.length < 2 ^ 32 := by
  unfold writeFrame validateLen at h
  grind [Except.map]

theorem readFrame_writeFrame (h : writeFrame payload = .ok frame) (hr : r.bytes = frame ++ more) :
    (readFrame r).result = .ok payload ∧ (readFrame r).rest.bytes = more := by
  obtain ⟨rfl, hmax, hlt⟩ := writeFrame_eq_ok h
  rw [append_assoc] at hr
  have hread := ((readFrameCapped_whole hr (fromLeBytes_toLeBytes hlt)).2 hmax).2.2 (by simp)
  simpa [readFrame] using hread

theorem readFrame_cut {cut : List UInt8} (h : writeFrame payload = .ok frame) (hcut : cut <+: frame)
    (hne : cut ≠ frame) (hstart : cut ≠ []) (hr : r.bytes = cut) :
    (readFrame r).result = .error .io := by
  obtain ⟨rfl, hmax, hlt⟩ := writeFrame_eq_ok h
  obtain ⟨missing, hmissing⟩ := hcut
  by_cases hshort : cut.length < 4
  · rw [readFrame, (readFrameCapped_short (hr ▸ hshort)).1, if_neg (hr ▸ hstart)]
  · obtain ⟨b₀, b₁, b₂, b₃, tail, rfl⟩ :
        ∃ b₀ b₁ b₂ b₃ tail, cut = b₀ :: b₁ :: b₂ :: b₃ :: tail := by
      match cut with
      | b₀ :: b₁ :: b₂ :: b₃ :: tail => exact ⟨b₀, b₁, b₂, b₃, tail, rfl⟩
      | [] | [_] | [_, _] | [_, _, _] => simp at hshort
    simp only [toLeBytes, cons_append, nil_append, List.cons.injEq] at hmissing
    obtain ⟨rfl, rfl, rfl, rfl, htail⟩ := hmissing
    have hlen := ((readFrameCapped_whole hr (fromLeBytes_toLeBytes hlt)).2 hmax).2.1
    refine hlen (lt_of_le_of_ne (htail ▸ by simp) fun heq => hne ?_)
    have hnil : missing = [] := by simpa [heq] using congrArg List.length htail
    simp [toLeBytes, ← htail, hnil]

/-! ## §4. Any number of calls. -/

theorem readFrames_written {payloads frames : List (List UInt8)}
    (h : List.Forall₂ (fun p f => writeFrame p = .ok f) payloads frames) {e : FrameError}
    (hend : ∀ r : Reader, r.bytes = more → (readFrame r).result = .error e)
    (hr : r.bytes = frames.flatten ++ more) :
    readFrames (payloads.length + 1) r = payloads.map .ok ++ [.error e] := by
  induction h generalizing r with
  | nil =>
    rw [length_nil, readFrames, hend r hr]
    rfl
  | cons hframe _ ih =>
    rw [flatten_cons, append_assoc] at hr
    obtain ⟨hresult, hrest⟩ := readFrame_writeFrame hframe hr
    rw [length_cons, readFrames, hresult]
    exact congrArg (_ :: ·) (ih hrest)

/-- **Frames survive any fragmentation.**  What was written is read back in order, and then the end
of the stream is `Closed`; a stream that breaks off inside a frame gives the frames before it and
then an I/O error.  Under any cap, no buffer exceeds the cap or the prefix, and a prefix above the
cap allocates none. -/
theorem framing_lossless :
    (∀ (payloads frames : List (List UInt8)) (r : Reader),
      List.Forall₂ (fun p f => writeFrame p = .ok f) payloads frames → r.bytes = frames.flatten →
        readFrames (payloads.length + 1) r = payloads.map .ok ++ [.error .closed]) ∧
    (∀ (payloads frames : List (List UInt8)) (payload frame cut : List UInt8) (r : Reader),
      List.Forall₂ (fun p f => writeFrame p = .ok f) payloads frames →
      writeFrame payload = .ok frame → cut <+: frame → cut ≠ frame → cut ≠ [] →
      r.bytes = frames.flatten ++ cut →
        readFrames (payloads.length + 1) r = payloads.map .ok ++ [.error .io]) ∧
    ∀ (r : Reader) (max : Nat),
      (∀ size ∈ (readFrameCapped r max).allocated, size ≤ Nat.max 4 max) ∧
      ∀ b₀ b₁ b₂ b₃ tail, r.bytes = b₀ :: b₁ :: b₂ :: b₃ :: tail →
        max < fromLeBytes b₀ b₁ b₂ b₃ →
        (readFrameCapped r max).result = .error (.tooLarge (fromLeBytes b₀ b₁ b₂ b₃)) ∧
          (readFrameCapped r max).allocated = [4] := by
  refine ⟨fun payloads frames r h hr => ?_, fun payloads frames payload frame cut r h hframe hcut
    hne hstart hr => ?_, fun r max => ⟨fun size hsize => ?_, fun b₀ b₁ b₂ b₃ tail hr hlarge => ?_⟩⟩
  · refine readFrames_written h (fun r hr => ?_) (hr.trans (append_nil _).symm)
    rw [readFrame, (readFrameCapped_short (by simp [hr])).1, if_pos hr]
  · exact readFrames_written h (fun r hr => readFrame_cut hframe hcut hne hstart hr) hr
  · match hr : r.bytes with
    | b₀ :: b₁ :: b₂ :: b₃ :: tail =>
      obtain ⟨hlarge, hfits⟩ := @readFrameCapped_whole r max _ _ _ _ _ _ hr rfl
      by_cases hmax : max < fromLeBytes b₀ b₁ b₂ b₃
      · rw [(hlarge hmax).2] at hsize
        exact mem_singleton.mp hsize ▸ Nat.le_max_left 4 max
      · rw [(hfits (Nat.le_of_not_lt hmax)).1] at hsize
        rcases mem_pair.mp hsize with rfl | rfl
        · exact Nat.le_max_left 4 max
        · exact (Nat.le_of_not_lt hmax).trans (Nat.le_max_right 4 max)
    | [] | [_] | [_, _] | [_, _, _] =>
      rw [(readFrameCapped_short (by simp [hr])).2] at hsize
      exact mem_singleton.mp hsize ▸ Nat.le_max_left 4 max
  · exact (readFrameCapped_whole hr rfl).1 hlarge

/-- Two frames in three pieces, and the same stream without its last byte. -/
def whole : Reader := ⟨[[1, 0], [0, 0, 7, 2], [0, 0, 0, 8, 9]], by decide⟩

def brokenOff : Reader := ⟨[[1, 0, 0, 0, 7, 2, 0], [0, 0, 8]], by decide⟩

theorem framing_lossless_two_frames :
    readFrames 3 whole = [.ok [7], .ok [8, 9], .error .closed] ∧
      readFrames 2 brokenOff = [.ok [7], .error .io] :=
  ⟨framing_lossless.1 [[7], [8, 9]] [[1, 0, 0, 0, 7], [2, 0, 0, 0, 8, 9]] whole
      (.cons rfl (.cons rfl .nil)) rfl,
    framing_lossless.2.1 [[7]] [[1, 0, 0, 0, 7]] [8, 9] [2, 0, 0, 0, 8, 9] [2, 0, 0, 0, 8]
      brokenOff (.cons rfl .nil) rfl (by decide) (by decide) (by decide) rfl⟩

end DessPlay.Network
