/-
  DessPlay.Network.TimeSync
  **THE CLOCK OFFSET** (`dessplay-core/src/net/timesync.rs`).

  Four timestamps make a sample; the estimate is the mean offset of the samples whose round
  trip is at most twice the window's median.  Division truncates; a quotient still lies
  between two integers when the dividend lies between their multiples (`tdiv_between`).
-/
import Mathlib

namespace DessPlay.Network

open List Option

/-! ## §1. Samples and the window. -/

structure TimeSyncSample where
  rtt : Nat
  offset : Int

def InI64 (n : Int) : Prop := -2 ^ 63 ≤ n ∧ n < 2 ^ 63

instance (n : Int) : Decidable (InI64 n) := inferInstanceAs (Decidable (_ ∧ _))

structure Exchange where
  t1 : Nat
  t2 : Nat
  t3 : Nat
  t4 : Nat

def sampleFromExchange (e : Exchange) : Option TimeSyncSample :=
  let round : Int := e.t4 - e.t1
  let turnaround : Int := e.t3 - e.t2
  if round < 0 ∨ turnaround < 0 ∨ round < turnaround then none
  else
    let rtt := (round - turnaround).toNat
    let offset := ((e.t2 - e.t1 : Int) + (e.t3 - e.t4)).tdiv 2
    if rtt < 2 ^ 64 ∧ InI64 offset then some ⟨rtt, offset⟩ else none

def WINDOW : Nat := 16

structure TimeSync where
  samples : List TimeSyncSample

namespace TimeSync

def new : TimeSync := ⟨[]⟩

def addExchange (sync : TimeSync) (e : Exchange) : TimeSync :=
  match sampleFromExchange e with
  | some sample =>
    let samples := sync.samples ++ [sample]
    ⟨samples.drop (samples.length - WINDOW)⟩
  | none => sync

def medianRtt (sync : TimeSync) : Option Nat :=
  let rtts := (sync.samples.map (·.rtt)).insertionSort (· ≤ ·)
  rtts[rtts.length / 2]?

def offset (sync : TimeSync) : Option Int :=
  sync.medianRtt.bind fun median =>
    let cutoff := min (median * 2) (2 ^ 64 - 1)
    let kept := (sync.samples.filter (·.rtt ≤ cutoff)).map (·.offset)
    let mean := kept.sum.tdiv kept.length
    if kept ≠ [] ∧ InI64 mean then some mean else none

end TimeSync

/-- With the server's clock `trueOffset` ahead: some time there, a turnaround, some time back. -/
def Exchange.Timed (trueOffset : Int) (e : Exchange) : Prop :=
  ∃ there turnaround back : Nat, (e.t2 : Int) = e.t1 + there + trueOffset ∧
    e.t3 = e.t2 + turnaround ∧ e.t4 = e.t1 + there + turnaround + back

/-! ## §2. What truncation cannot break. -/

theorem tdiv_between {lo hi n k : Int} (hk : 0 < k) (hlo : lo * k ≤ n) (hhi : n ≤ hi * k) :
    lo ≤ n.tdiv k ∧ n.tdiv k ≤ hi := by
  constructor
  · calc lo = (lo * k).tdiv k := (Int.mul_tdiv_cancel lo hk.ne').symm
      _ ≤ n.tdiv k := Int.tdiv_le_tdiv hk hlo
  · calc n.tdiv k ≤ (hi * k).tdiv k := Int.tdiv_le_tdiv hk hhi
      _ = hi := Int.mul_tdiv_cancel hi hk.ne'

theorem mean_between {l : List Int} {lo hi : Int} (hne : l ≠ []) (h : ∀ x ∈ l, lo ≤ x ∧ x ≤ hi) :
    lo ≤ l.sum.tdiv l.length ∧ l.sum.tdiv l.length ≤ hi := by
  apply tdiv_between
  · exact_mod_cast length_pos_iff.mpr hne
  · simpa [mul_comm] using l.card_nsmul_le_sum lo fun x hx => (h x hx).1
  · simpa [mul_comm] using l.sum_le_card_nsmul hi fun x hx => (h x hx).2

/-- A sample as the window may hold one: its error is at most half its round trip. -/
structure TimeSyncSample.Sound (trueOffset : Int) (s : TimeSyncSample) : Prop where
  rtt : s.rtt < 2 ^ 64
  offset : InI64 s.offset
  error : |s.offset - trueOffset| ≤ (s.rtt + 1) / 2

theorem sound_sampleFromExchange {trueOffset : Int} {e : Exchange} (h : e.Timed trueOffset)
    {s : TimeSyncSample} (hs : sampleFromExchange e = some s) : s.Sound trueOffset := by
  obtain ⟨there, turnaround, back, h2, h3, h4⟩ := h
  unfold sampleFromExchange at hs
  obtain ⟨_, hs⟩ := ite_none_left_eq_some.mp hs
  obtain ⟨⟨hrtt, hoffset⟩, hs⟩ := ite_none_right_eq_some.mp hs
  cases hs
  refine ⟨hrtt, hoffset, ?_⟩
  have hround : ((e.t4 - e.t1 : Int) - (e.t3 - e.t2)).toNat = there + back := by omega
  simp only [hround]
  have hbetween := @tdiv_between (trueOffset - (there + back + 1) / 2)
    (trueOffset + (there + back + 1) / 2) ((e.t2 - e.t1 : Int) + (e.t3 - e.t4)) 2
    (by omega) (by omega) (by omega)
  push_cast
  rw [abs_le]
  omega

namespace TimeSync

variable {trueOffset : Int} {sync : TimeSync} {median : Nat}

theorem sound_addExchange (h : ∀ s ∈ sync.samples, s.Sound trueOffset) {e : Exchange}
    (he : e.Timed trueOffset) : ∀ s ∈ (sync.addExchange e).samples, s.Sound trueOffset := by
  unfold addExchange
  cases hsample : sampleFromExchange e with
  | none => exact h
  | some sample =>
    intro s hs
    rcases mem_append.mp (mem_of_mem_drop hs) with hs | hs
    · exact h s hs
    · rw [mem_singleton.mp hs]
      exact sound_sampleFromExchange he hsample

/-- **The estimate is there, and within the median**: the sample of the median is kept, and whatever
is kept has at most twice its round trip. -/
theorem offset_of_sound (h : ∀ s ∈ sync.samples, s.Sound trueOffset)
    (hmedian : sync.medianRtt = some median) :
    ∃ estimate, sync.offset = some estimate ∧ |estimate - trueOffset| ≤ median := by
  set kept := (sync.samples.filter (·.rtt ≤ min (median * 2) (2 ^ 64 - 1))).map (·.offset)
    with hkept
  have hne : kept ≠ [] := by
    have hmem := (mem_insertionSort _).mp (mem_of_getElem? hmedian)
    obtain ⟨s, hs, rfl⟩ := mem_map.mp hmem
    have hlt := (h s hs).rtt
    have hcut : s.rtt ≤ min (s.rtt * 2) (2 ^ 64 - 1) := by omega
    exact ne_nil_of_mem
      (mem_map_of_mem (mem_filter.mpr ⟨hs, decide_eq_true hcut⟩))
  have herror : ∀ x ∈ kept, trueOffset - median ≤ x ∧ x ≤ trueOffset + median := by
    intro x hx
    obtain ⟨s, hs, rfl⟩ := mem_map.mp hx
    obtain ⟨hs, hcut⟩ := mem_filter.mp hs
    have hcut := of_decide_eq_true hcut
    have herr := abs_le.mp (h s hs).error
    omega
  have hrange : ∀ x ∈ kept, -2 ^ 63 ≤ x ∧ x ≤ 2 ^ 63 - 1 := by
    intro x hx
    obtain ⟨s, hs, rfl⟩ := mem_map.mp hx
    have hin := (h s (mem_of_mem_filter hs)).offset
    exact ⟨hin.1, Int.le_sub_one_of_lt hin.2⟩
  have hmean := mean_between hne herror
  have hin := mean_between hne hrange
  refine ⟨kept.sum.tdiv kept.length, ?_, abs_le.mpr (by omega)⟩
  unfold offset
  rw [hmedian, bind_some]
  exact if_pos ⟨hne, hin.1, Int.lt_of_le_sub_one hin.2⟩

end TimeSync

/-- **The offset's error is bounded by the network**, whatever the delays: a sample's by half its
round trip, the estimate's by the window's median round trip.  What no such exchange can look
like changes nothing. -/
theorem offset_error_bounded (trueOffset : Int) (exchanges : List Exchange)
    (h : ∀ e ∈ exchanges, e.Timed trueOffset) :
    (∀ e ∈ exchanges, ∀ s, sampleFromExchange e = some s →
      |s.offset - trueOffset| ≤ (s.rtt + 1) / 2) ∧
    (∀ median, (exchanges.foldl TimeSync.addExchange .new).medianRtt = some median →
      ∃ estimate, (exchanges.foldl TimeSync.addExchange .new).offset = some estimate ∧
        |estimate - trueOffset| ≤ median) ∧
    ∀ (sync : TimeSync) (e : Exchange),
      (e.t4 - e.t1 : Int) < 0 ∨ (e.t3 - e.t2 : Int) < 0 ∨ (e.t4 - e.t1 : Int) < e.t3 - e.t2 →
        sync.addExchange e = sync := by
  refine ⟨fun e he s hs => (sound_sampleFromExchange (h e he) hs).error, fun median hmedian => ?_,
    fun sync e he => ?_⟩
  · refine TimeSync.offset_of_sound ?_ hmedian
    clear hmedian
    induction exchanges using List.reverseRecOn with
    | nil => exact nofun
    | append_singleton exchanges e ih =>
      rw [foldl_concat]
      exact TimeSync.sound_addExchange (ih fun e he => h e (mem_append_left _ he))
        (h e (mem_append_right _ (mem_singleton_self e)))
  · have hnone : sampleFromExchange e = none := if_pos he
    rw [TimeSync.addExchange, hnone]

theorem offset_error_bounded_two :
    ∃ estimate, ([⟨1000, 6040, 6043, 1083⟩, ⟨2000, 7010, 7010, 2301⟩].foldl
      TimeSync.addExchange .new).offset = some estimate ∧ |estimate - 5000| ≤ 301 := by
  refine (offset_error_bounded 5000 [⟨1000, 6040, 6043, 1083⟩, ⟨2000, 7010, 7010, 2301⟩] ?_).2.1
    301 (by decide +kernel)
  intro e he
  rcases mem_pair.mp he with rfl | rfl
  · exact ⟨40, 3, 40, by decide, by decide, by decide⟩
  · exact ⟨10, 0, 291, by decide, by decide, by decide⟩

end DessPlay.Network
