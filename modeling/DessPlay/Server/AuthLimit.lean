/-
  DessPlay.Server.AuthLimit
  **THROTTLING OF WRONG PASSWORDS, PER SOURCE ADDRESS.**

  Every address key has a budget of `burst` failures that refills at one per
  `refill`, kept as one `Instant` in a table.  Refilled entries may be swept out of
  the table, and a table at its cap does not track new addresses.

  As long as the cap is not reached, the table agrees with budgets that are never
  forgotten (`Agree`), and the bounds are those of the budget alone (`Lib.Gcra`).
-/
import DessPlay.Lib.BTree
import DessPlay.Lib.Gcra

namespace DessPlay.Server.AuthLimit

open BTree Gcra Option Function
open List hiding getElem?_filter getElem?_insert

/-! ## §1. The limiter. -/

inductive IpAddr where
  | v4 (bits : BitVec 32)
  | v6 (bits : BitVec 128)
  deriving DecidableEq

def IpAddr.key : IpAddr → Nat ×ₗ Nat
  | .v4 bits => toLex (0, bits.toNat)
  | .v6 bits => toLex (1, bits.toNat)

theorem IpAddr.key_injective : Injective IpAddr.key := by
  intro a b h
  cases a <;> cases b <;> simp_all [IpAddr.key, BitVec.toNat_inj]

instance : LinearOrder IpAddr :=
  LinearOrder.lift' IpAddr.key IpAddr.key_injective

/-- `::ffff:a.b.c.d`. -/
def toIpv4Mapped (bits : BitVec 128) : Option (BitVec 32) :=
  if bits.extractLsb' 32 96 = 0xffff then some (bits.extractLsb' 0 32) else none

def addressKey : IpAddr → IpAddr
  | .v4 bits => .v4 bits
  | .v6 bits =>
    match toIpv4Mapped bits with
    | some mapped => .v4 mapped
    | none => .v6 (bits &&& (BitVec.allOnes 128 <<< 64))

/-- Moments and durations are in nanoseconds; Rust panics where they overflow. -/
structure Limit where
  burst : Nat
  refill : Nat

/-- The burst in use: at least one. -/
def Limit.units (limit : Limit) : Nat := max limit.burst 1

inductive Verdict where
  | accept | reject | throttled
  deriving DecidableEq, Repr

def sweepAt : Nat := 1024
def maxTracked : Nat := 65536

structure AuthLimiter where
  limit : Limit
  fullAt : BTreeMap IpAddr Nat

namespace AuthLimiter

def new (limit : Limit) : AuthLimiter := { limit, fullAt := ∅ }

/-- `retain(|_, full_at| *full_at > now)`. -/
def sweep (l : AuthLimiter) (now : Nat) : AuthLimiter :=
  { l with fullAt := l.fullAt.filter fun _ full => now < full }

/-- `make_room`: the table afterwards, and whether there is room. -/
def makeRoom (l : AuthLimiter) (now : Nat) : AuthLimiter × Bool :=
  let l := if sweepAt ≤ l.fullAt.size then l.sweep now else l
  (l, l.fullAt.size < maxTracked)

/-- `judge`.  The password check is a computation of its own (in any monad), so that
whether it is RUN shows. -/
def judge {m : Type → Type} [Monad m] (l : AuthLimiter) (ip : IpAddr) (now : Nat)
    (correct : m Bool) : m (AuthLimiter × Verdict) :=
  let key := addressKey ip
  let fullAt := l.fullAt[key]?
  let debt := fullAt.elim 0 fun full => full - now
  let capacity := l.limit.refill * max l.limit.burst 1
  if capacity < debt + l.limit.refill then pure (l, .throttled)
  else do
    if ← correct then pure (l, .accept)
    else
      let newFullAt := now + debt + l.limit.refill
      let room := if fullAt.isNone then l.makeRoom now else (l, true)
      if room.2 then
        pure ({ room.1 with fullAt := room.1.fullAt.insert key newFullAt }, .reject)
      else pure (room.1, .reject)

/-- When the budget of `key` is full again; a missing entry says nothing. -/
def full (l : AuthLimiter) (key : IpAddr) : Nat := l.fullAt[key]?.getD 0

/-- The address has no budget left at `now`. -/
def Throttles (l : AuthLimiter) (ip : IpAddr) (now : Nat) : Prop :=
  Refused l.limit.refill l.limit.units (l.full (addressKey ip)) now

def failed (l : AuthLimiter) (ip : IpAddr) (now : Nat) : AuthLimiter :=
  let key := addressKey ip
  let room := if l.fullAt[key]?.isNone then l.makeRoom now else (l, true)
  if room.2 then
    { room.1 with fullAt := room.1.fullAt.insert key (spend l.limit.refill (l.full key) now) }
  else room.1

instance (l : AuthLimiter) (ip : IpAddr) (now : Nat) : Decidable (l.Throttles ip now) :=
  inferInstanceAs (Decidable (Refused _ _ _ _))

theorem debt_eq (o : Option Nat) (now : Nat) :
    (o.elim 0 fun full => full - now) = o.getD 0 - now := by
  cases o with
  | none => exact (Nat.zero_sub now).symm
  | some full => rfl

theorem judge_eq {m : Type → Type} [Monad m] (l : AuthLimiter) (ip : IpAddr) (now : Nat)
    (correct : m Bool) :
    l.judge ip now correct =
      if l.Throttles ip now then pure (l, .throttled)
      else correct >>= fun ok =>
        if ok then pure (l, .accept) else pure (l.failed ip now, .reject) := by
  unfold judge Throttles Refused Limit.units failed full spend
  simp only [debt_eq]
  congr 2
  funext ok
  cases ok with
  | true => rfl
  | false =>
    simp only [Bool.false_eq_true, if_false]
    split_ifs <;> rfl

end AuthLimiter

/-! ## §2. Tables that agree about the present. -/

/-- At `now` and later the two say the same of every key. -/
def Agree (now : Nat) (full full' : IpAddr → Nat) : Prop :=
  ∀ key, max now (full key) = max now (full' key)

variable {full full' : IpAddr → Nat}

theorem Agree.mono {now later : Nat} (h : Agree now full full') (hle : now ≤ later) :
    Agree later full full' := by
  intro key
  have := h key
  omega

theorem Agree.symm {now : Nat} (h : Agree now full full') : Agree now full' full :=
  fun key => (h key).symm

theorem Agree.trans {now : Nat} {full'' : IpAddr → Nat} (h : Agree now full full')
    (h' : Agree now full' full'') : Agree now full full'' :=
  fun key => (h key).trans (h' key)

theorem Agree.update {now refill : Nat} (h : Agree now full full') (key : IpAddr) :
    Agree now (update full key (spend refill (full key) now))
      (update full' key (spend refill (full' key) now)) := by
  intro other
  by_cases heq : other = key
  · rw [heq, update_self, update_self, spend_congr (h key)]
  · rw [update_of_ne heq, update_of_ne heq]
    exact h other

namespace AuthLimiter

theorem sweep_agree (l : AuthLimiter) (now : Nat) : Agree now (l.sweep now).full l.full := by
  intro key
  unfold full sweep
  rw [getElem?_filter]
  cases l.fullAt[key]? with
  | none => rfl
  | some moment =>
    rw [filter_some]
    by_cases hlive : now < moment
    · rw [if_pos (decide_eq_true hlive), getD_some]
    · rw [if_neg fun h => hlive (of_decide_eq_true h)]
      show max now 0 = max now moment
      omega

theorem sweep_congr {l l' : AuthLimiter} {now : Nat} (h : Agree now l'.full l.full) :
    (l'.sweep now).fullAt = (l.sweep now).fullAt := by
  refine map_ext fun key => ?_
  have hkey := h key
  unfold full at hkey
  unfold sweep
  rw [getElem?_filter, getElem?_filter]
  cases h' : l'.fullAt[key]? <;> cases h₀ : l.fullAt[key]? <;>
    simp only [h', h₀, getD_none, getD_some, filter_none,
      filter_some] at hkey ⊢
  · grind
  · grind
  · grind

theorem size_sweep_le (l : AuthLimiter) (now : Nat) : (l.sweep now).fullAt.size ≤ l.fullAt.size :=
  Std.ExtTreeMap.size_filter_le_size

theorem makeRoom_agree (l : AuthLimiter) (now : Nat) :
    Agree now (l.makeRoom now).1.full l.full := by
  unfold makeRoom
  by_cases hsize : sweepAt ≤ l.fullAt.size
  · rw [if_pos hsize]
    exact l.sweep_agree now
  · rw [if_neg hsize]
    exact fun _ => rfl

@[simp] theorem makeRoom_limit (l : AuthLimiter) (now : Nat) :
    (l.makeRoom now).1.limit = l.limit := by
  unfold makeRoom
  split <;> rfl

/-- There is room in a table that agrees with one below its cap: above `sweepAt` it is
swept down to the entries both have. -/
theorem makeRoom_room {l l₀ : AuthLimiter} {now : Nat} (h : Agree now l.full l₀.full)
    (hcap : l₀.fullAt.size < maxTracked) : (l.makeRoom now).2 = true := by
  unfold makeRoom
  refine decide_eq_true ?_
  by_cases hsize : sweepAt ≤ l.fullAt.size
  · rw [if_pos hsize, sweep_congr h]
    exact lt_of_le_of_lt (l₀.size_sweep_le now) hcap
  · rw [if_neg hsize]
    exact lt_trans (not_le.mp hsize) (by decide)

theorem failed_agree {l l₀ : AuthLimiter} {ip : IpAddr} {now : Nat} (h : Agree now l.full l₀.full)
    (hcap : l₀.fullAt.size < maxTracked) :
    Agree now (l.failed ip now).full (update l.full (addressKey ip)
      (spend l.limit.refill (l.full (addressKey ip)) now)) := by
  have hroom : ∀ b : Bool, (if b then l.makeRoom now else (l, true)).2 = true
      ∧ Agree now (if b then l.makeRoom now else (l, true)).1.full l.full := by
    intro b
    cases b with
    | true => exact ⟨makeRoom_room h hcap, l.makeRoom_agree now⟩
    | false => exact ⟨rfl, fun _ => rfl⟩
  unfold failed
  obtain ⟨hyes, hagree⟩ := hroom l.fullAt[addressKey ip]?.isNone
  simp only [hyes, if_true]
  intro key
  unfold full at hagree ⊢
  simp only [getElem?_insert]
  by_cases heq : key = addressKey ip
  · rw [if_pos heq, heq, update_self]
    rfl
  · rw [if_neg heq, update_of_ne heq]
    exact hagree key

@[simp] theorem failed_limit (l : AuthLimiter) (ip : IpAddr) (now : Nat) :
    (l.failed ip now).limit = l.limit := by
  unfold failed
  dsimp only
  split_ifs <;> simp

end AuthLimiter

/-! ## §3. Runs of attempts. -/

structure Attempt where
  ip : IpAddr
  now : Nat
  correct : Bool

structure Judged where
  limiter : AuthLimiter
  log : List (Attempt × Verdict)

namespace Judged

def step (st : Judged) (a : Attempt) : Judged :=
  let result := Id.run (st.limiter.judge a.ip a.now (pure a.correct))
  { limiter := result.1, log := st.log ++ [(a, result.2)] }

def run (st : Judged) (attempts : List Attempt) : Judged :=
  attempts.foldl step st

def UnderCap (st : Judged) : List Attempt → Prop
  | [] => st.limiter.fullAt.size < maxTracked
  | a :: rest => st.limiter.fullAt.size < maxTracked ∧ UnderCap (st.step a) rest

instance decidableUnderCap (st : Judged) : (attempts : List Attempt) →
    Decidable (st.UnderCap attempts)
  | [] => inferInstanceAs (Decidable (_ < _))
  | a :: rest =>
    have := decidableUnderCap (st.step a) rest
    inferInstanceAs (Decidable (_ ∧ _))

/-- When wrong passwords of `key` were judged, oldest first: the password was wrong and the
attempt was answered with something other than "throttled". -/
def failures (st : Judged) (key : IpAddr) : List Nat :=
  (st.log.filter fun e => addressKey e.1.ip = key ∧ e.1.correct = false ∧ e.2 ≠ .throttled).map
    fun e => e.1.now

theorem step_cases (st : Judged) (a : Attempt) :
    (st.limiter.Throttles a.ip a.now ∧
        st.step a = { st with log := st.log ++ [(a, .throttled)] })
      ∨ (¬ st.limiter.Throttles a.ip a.now ∧ a.correct = true ∧
        st.step a = { st with log := st.log ++ [(a, .accept)] })
      ∨ (¬ st.limiter.Throttles a.ip a.now ∧ a.correct = false ∧
        st.step a = { limiter := st.limiter.failed a.ip a.now,
                      log := st.log ++ [(a, .reject)] }) := by
  unfold step
  rw [AuthLimiter.judge_eq]
  by_cases hthrottled : st.limiter.Throttles a.ip a.now
  · exact .inl ⟨hthrottled, by rw [if_pos hthrottled]; rfl⟩
  · rw [if_neg hthrottled]
    cases hcorrect : a.correct with
    | true => exact .inr (.inl ⟨hthrottled, rfl, rfl⟩)
    | false => exact .inr (.inr ⟨hthrottled, rfl, rfl⟩)

variable {st st' : Judged} {a : Attempt}

theorem failures_of_not_judged {v : Verdict} (hlog : st'.log = st.log ++ [(a, v)])
    (h : a.correct = true ∨ v = .throttled) : st'.failures = st.failures := by
  funext key
  unfold failures
  rw [hlog, filter_append, filter_singleton]
  rcases h with hcorrect | hthrottled
  · simp [hcorrect]
  · simp [hthrottled]

theorem failures_of_wrong (hlog : st'.log = st.log ++ [(a, .reject)]) (hwrong : a.correct = false)
    (key : IpAddr) :
    st'.failures key = if addressKey a.ip = key then st.failures key ++ [a.now]
      else st.failures key := by
  unfold failures
  rw [hlog, filter_append, filter_singleton]
  by_cases heq : addressKey a.ip = key
  · simp [heq, hwrong]
  · simp [heq]

/-- **The table and the history**: the table says of the present what the budgets say
that were never forgotten, and every failure was within its budget. -/
structure Inv (limit : Limit) (now : Nat) (st : Judged) : Prop where
  limit_eq : st.limiter.limit = limit
  agree : Agree now st.limiter.full fun key => spendAll limit.refill (st.failures key)
  admitted : ∀ key, Admitted limit.refill limit.units (st.failures key)
  past : ∀ key, ∀ u ∈ st.failures key, u ≤ now

variable {limit : Limit}

theorem Inv.mono {now later : Nat} (h : Inv limit now st) (hle : now ≤ later) :
    Inv limit later st :=
  ⟨h.limit_eq, h.agree.mono hle, h.admitted, fun key u hu => (h.past key u hu).trans hle⟩

theorem Inv.of_failures_eq {now : Nat} (h : Inv limit now st) (hlimiter : st'.limiter = st.limiter)
    (hfailures : st'.failures = st.failures) : Inv limit now st' := by
  obtain ⟨hlimit, hagree, hadmitted, hpast⟩ := h
  rw [← hlimiter] at hlimit hagree
  rw [← hfailures] at hagree hadmitted hpast
  exact ⟨hlimit, hagree, hadmitted, hpast⟩

theorem inv_new (limit : Limit) (now : Nat) : Inv limit now ⟨.new limit, []⟩ :=
  ⟨rfl, fun _ => rfl, fun _ => .nil, fun _ _ h => absurd h not_mem_nil⟩

theorem Inv.refused_iff (h : Inv limit a.now st) :
    st.limiter.Throttles a.ip a.now ↔
      Refused limit.refill limit.units
        (spendAll limit.refill (st.failures (addressKey a.ip))) a.now := by
  unfold AuthLimiter.Throttles
  rw [h.limit_eq]
  exact refused_congr (h.agree _)

theorem Inv.step (h : Inv limit a.now st) (hcap : st.limiter.fullAt.size < maxTracked) :
    Inv limit a.now (st.step a) := by
  obtain ⟨-, heq⟩ | ⟨-, hcorrect, heq⟩ | ⟨hopen, hwrong, heq⟩ := step_cases st a
  · rw [heq]
    exact h.of_failures_eq rfl (failures_of_not_judged rfl (.inr rfl))
  · rw [heq]
    exact h.of_failures_eq rfl (failures_of_not_judged rfl (.inl hcorrect))
  · rw [heq]
    have hfail : ∀ key, Judged.failures
        { limiter := st.limiter.failed a.ip a.now, log := st.log ++ [(a, .reject)] } key =
        if addressKey a.ip = key then st.failures key ++ [a.now] else st.failures key :=
      failures_of_wrong rfl hwrong
    refine ⟨(st.limiter.failed_limit _ _).trans h.limit_eq, ?_, ?_, ?_⟩
    · refine (AuthLimiter.failed_agree (fun _ => rfl) hcap).trans ?_
      rw [h.limit_eq]
      refine (h.agree.update _).trans fun key => ?_
      simp only [hfail]
      by_cases hkey : key = addressKey a.ip
      · rw [hkey, update_self, if_pos rfl, spendAll_snoc, spend_eq_max]
      · rw [update_of_ne hkey, if_neg (Ne.symm hkey)]
    · intro key
      rw [hfail]
      split
      next hkey => exact .snoc (h.admitted key) (hkey ▸ mt h.refused_iff.mpr hopen)
      · exact h.admitted key
    · intro key u hu
      rw [hfail] at hu
      split at hu
      · cases mem_append.mp hu with
        | inl hold => exact h.past key u hold
        | inr hnew => exact (mem_singleton.mp hnew).le
      · exact h.past key u hu

variable {attempts before after : List Attempt}

theorem Inv.run {now t : Nat} (h : Inv limit now st)
    (hsorted : attempts.Pairwise fun a b => a.now ≤ b.now) (hfrom : ∀ a ∈ attempts, now ≤ a.now)
    (hle : now ≤ t) (hto : ∀ a ∈ attempts, a.now ≤ t) (hcap : st.UnderCap attempts) :
    Inv limit t (st.run attempts) := by
  induction attempts generalizing now st with
  | nil => exact h.mono hle
  | cons a rest ih =>
    obtain ⟨hfirst, hrest⟩ := pairwise_cons.mp hsorted
    have hstep := (h.mono (hfrom a mem_cons_self)).step hcap.1
    exact ih hstep hrest hfirst (hto a mem_cons_self)
      (fun b hb => hto b (mem_cons_of_mem _ hb)) hcap.2

theorem UnderCap.left (h : st.UnderCap (before ++ after)) : st.UnderCap before := by
  induction before generalizing st with
  | nil =>
    cases after with
    | nil => exact h
    | cons a rest => exact h.1
  | cons a rest ih => exact ⟨h.1, ih h.2⟩

theorem UnderCap.right (h : st.UnderCap (before ++ after)) : (st.run before).UnderCap after := by
  induction before generalizing st with
  | nil => exact h
  | cons a rest ih => exact ih h.2

/-! ## §4. Sweeping. -/

/-- Two limiters that agree about the present, with the same answers so far. -/
structure Alike (now : Nat) (st' st : Judged) : Prop where
  limit_eq : st'.limiter.limit = st.limiter.limit
  agree : Agree now st'.limiter.full st.limiter.full
  log_eq : st'.log = st.log

theorem Alike.step (h : Alike a.now st' st) (hcap : st.limiter.fullAt.size < maxTracked) :
    Alike a.now (st'.step a) (st.step a) := by
  have hthrottles : st'.limiter.Throttles a.ip a.now ↔ st.limiter.Throttles a.ip a.now := by
    unfold AuthLimiter.Throttles
    rw [h.limit_eq]
    exact refused_congr (h.agree _)
  obtain ⟨hyes, heq⟩ | ⟨hopen, hcorrect, heq⟩ | ⟨hopen, hwrong, heq⟩ := step_cases st a <;>
    obtain ⟨hyes', heq'⟩ | ⟨hopen', hcorrect', heq'⟩ | ⟨hopen', hwrong', heq'⟩ := step_cases st' a
  all_goals first
    | exact absurd (hthrottles.mpr hyes) hopen'
    | exact absurd (hthrottles.mp hyes') hopen
    | exact absurd (hcorrect.symm.trans hwrong') (by decide)
    | exact absurd (hcorrect'.symm.trans hwrong) (by decide)
    | skip
  · rw [heq, heq']
    exact ⟨h.limit_eq, h.agree, by rw [h.log_eq]⟩
  · rw [heq, heq']
    exact ⟨h.limit_eq, h.agree, by rw [h.log_eq]⟩
  · rw [heq, heq']
    refine ⟨?_, ?_, by rw [h.log_eq]⟩
    · rw [AuthLimiter.failed_limit, AuthLimiter.failed_limit]
      exact h.limit_eq
    · refine (AuthLimiter.failed_agree h.agree hcap).trans ?_
      refine .trans ?_ (AuthLimiter.failed_agree (fun _ => rfl) hcap).symm
      rw [h.limit_eq]
      exact h.agree.update _

theorem Alike.run {now : Nat} (h : Alike now st' st)
    (hsorted : attempts.Pairwise fun a b => a.now ≤ b.now) (hfrom : ∀ a ∈ attempts, now ≤ a.now)
    (hcap : st.UnderCap attempts) : (st'.run attempts).log = (st.run attempts).log := by
  induction attempts generalizing now st' st with
  | nil => exact h.log_eq
  | cons a rest ih =>
    obtain ⟨hfirst, hrest⟩ := pairwise_cons.mp hsorted
    have hnow : Alike a.now st' st :=
      ⟨h.limit_eq, h.agree.mono (hfrom a mem_cons_self), h.log_eq⟩
    exact ih (hnow.step hcap.1) hrest hfirst hcap.2

/-! ## §5. The bounds. -/

/-- **Password guesses are rate bounded.** -/
theorem password_guesses_bounded (limit : Limit) (hrefill : 0 < limit.refill)
    (attempts : List Attempt) (hsorted : attempts.Pairwise fun a b => a.now ≤ b.now)
    (hcap : UnderCap ⟨.new limit, []⟩ attempts) :
    -- in every window, for every key
    (∀ key s t, s ≤ t →
        ((run ⟨.new limit, []⟩ attempts).failures key).countP (fun u => s ≤ u ∧ u ≤ t)
          ≤ max limit.burst 1 + (t - s) / limit.refill)
      -- the check of the password is not run, whatever it would do
      ∧ (∀ (l : AuthLimiter) (ip : IpAddr) (now : Nat) (guess : Bool),
          (Id.run (l.judge ip now (pure guess))).2 = .throttled →
            ∀ (m : Type → Type) [Monad m] (correct : m Bool),
              l.judge ip now correct = pure (l, .throttled))
      -- an attempt is throttled only after a whole burst of recent failures
      ∧ (∀ before a after, attempts = before ++ a :: after →
          ((run ⟨.new limit, []⟩ before).step a).log
              = (run ⟨.new limit, []⟩ before).log ++ [(a, .throttled)] →
            max limit.burst 1 ≤
              ((run ⟨.new limit, []⟩ before).failures (addressKey a.ip)).countP
                (fun u => a.now < u + max limit.burst 1 * limit.refill))
      -- a sweep at any moment is not seen afterwards
      ∧ ∀ before after now, attempts = before ++ after → (∀ a ∈ after, now ≤ a.now) →
          let st := run ⟨.new limit, []⟩ before
          (run { st with limiter := st.limiter.sweep now } after).log = (run st after).log := by
  have hunits : 0 < limit.units := lt_of_lt_of_le Nat.one_pos (le_max_right _ _)
  refine ⟨fun key s t hst => ?_, fun l ip now guess h m _ correct => ?_,
    fun before a after hsplit h => ?_, fun before after now hsplit hfrom => ?_⟩
  · have hend : ∀ a ∈ attempts, a.now ≤ (attempts.map (·.now)).sum := fun a ha =>
      le_sum_of_mem (mem_map_of_mem ha)
    have hinv := (inv_new limit 0).run hsorted (fun _ _ => Nat.zero_le _) (Nat.zero_le _) hend hcap
    exact count_window_le (hinv.admitted key) hrefill hunits hst
  · rw [AuthLimiter.judge_eq] at h ⊢
    by_cases hthrottled : l.Throttles ip now
    · rw [if_pos hthrottled]
    · rw [if_neg hthrottled] at h
      cases guess <;> cases h
  · subst hsplit
    have hbefore := (pairwise_append.mp hsorted)
    have hinv : Inv limit a.now (run ⟨.new limit, []⟩ before) :=
      (inv_new limit 0).run hbefore.1 (fun _ _ => Nat.zero_le _) (Nat.zero_le _)
        (fun b hb => hbefore.2.2 b hb a mem_cons_self) hcap.left
    have hthrottled : (run ⟨.new limit, []⟩ before).limiter.Throttles a.ip a.now := by
      obtain ⟨hyes, -⟩ | ⟨-, -, heq⟩ | ⟨-, -, heq⟩ := step_cases (run ⟨.new limit, []⟩ before) a
      · exact hyes
      · rw [heq] at h
        simp at h
      · rw [heq] at h
        simp at h
    exact burst_le_of_refused (hinv.admitted _) (hinv.past _) (hinv.refused_iff.mp hthrottled)
  · subst hsplit
    refine Alike.run ⟨rfl, AuthLimiter.sweep_agree _ now, rfl⟩ ?_ hfrom hcap.right
    exact (pairwise_append.mp hsorted).2.1

def threeGuesses : List Attempt :=
  [⟨.v4 1, 0, false⟩, ⟨.v4 1, 5, false⟩, ⟨.v6 0xffff00000001, 12, false⟩]

theorem password_guesses_bounded_three :
    (run ⟨.new ⟨0, 10⟩, []⟩ threeGuesses).log.map Prod.snd = [.reject, .throttled, .reject]
      ∧ ((run ⟨.new ⟨0, 10⟩, []⟩ threeGuesses).failures (.v4 1)).countP
          (fun u => 0 ≤ u ∧ u ≤ 12) ≤ max 0 1 + (12 - 0) / 10 :=
  ⟨by decide, (password_guesses_bounded ⟨0, 10⟩ (by decide) threeGuesses (by decide)
    (by decide)).1 (.v4 1) 0 12 (by decide)⟩

end Judged

end DessPlay.Server.AuthLimit
