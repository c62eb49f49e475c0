/-
  DessPlay.Session.EpisodeEnd
  **ONLY THE REAL VIDEO ENDS AN EPISODE.**

  A session's turns are kept as a history.  What the wiring's record of the loaded
  file amounts to is read off the history alone: the last `Load` issued, what it
  was issued for, and whether a partial's completion was noted since.  The
  invariant over all runs (`Faithful`) and the theorem follow from what one turn
  can do (`effect_handle`).
-/
import DessPlay.Lib.Machine
import DessPlay.Session.Effects

namespace DessPlay.Session

open BTree DessPlay.Core List Option Machine PlayerWiring

/-! ## §1. The history. -/

def VerifiedFor (turns : List Turn) (file : Ed2kHash) (path : String) : Prop :=
  ∃ t ∈ turns, t.event.verifies file path

def Turn.loads (t : Turn) (file : Ed2kHash) (path : String) : Prop :=
  ∃ title resume, .player (.load file path title resume) ∈ t.out

/-- The last turn that told the player to load anything, what came after it and before it. -/
structure LastLoad (turns : List Turn) (file : Ed2kHash) (path : String) (since : List Turn)
    (t : Turn) (past : List Turn) : Prop where
  split : turns = since ++ t :: past
  loads : t.loads file path
  last : ∀ u ∈ since, ∀ f p, ¬u.loads f p

def Turn.offersPartial (t : Turn) (file : Ed2kHash) (path : String) : Prop :=
  ∃ peers, t.event = .downloadPlayable file path peers

def CompletedInPlace (turns : List Turn) (file : Ed2kHash) : Prop :=
  ∃ t ∈ turns, ∃ path, t.event = .localFile file path true

def Directive.publishes (file : Ed2kHash) : Directive → Option Nat
  | .mutate (.setPlaybackPosition millis f) => if f = file then some millis else none
  | .mutate (.setUserSeek f _ toMillis) => if f = file then some toMillis else none
  | _ => none

def lastAccepted (turns : List Turn) (file : Ed2kHash) : Option Nat :=
  turns.findSome? fun t => t.out.findSome? (Directive.publishes file)

/-- **Where the record comes from**: the last load of the session, for a verified copy or for a
playable partial; and a partial not completed since is still recorded as one. -/
def RecordedLoad (turns : List Turn) (l : LoadedFile) : Prop :=
  ∃ path since t past, LastLoad turns l.file path since t past ∧
    (VerifiedFor (t :: past) l.file path ∨ t.offersPartial l.file path) ∧
    (t.offersPartial l.file path → ¬CompletedInPlace since l.file → l.isPartial = true)

/-- The wiring's record is what its history says. -/
structure Faithful (s : Run) : Prop where
  verified : ∀ file path, s.wiring.resolved[file]? = some (.verified path) →
    VerifiedFor s.turns file path
  position : ∀ file positionMillis, s.wiring.lastPosition = some (file, positionMillis) →
    lastAccepted s.turns file = some positionMillis
  loaded : ∀ l, s.wiring.loaded = some l → RecordedLoad s.turns l

section History

variable {turns : List Turn} {u : Turn} {file : Ed2kHash} {path : String} {l : LoadedFile}

theorem voice_of_publishes {d : Directive} {positionMillis : Nat}
    (h : d.publishes file = some positionMillis) : d.voice = true := by
  unfold Directive.publishes at h
  split at h
  · rfl
  · rfl
  · cases h

theorem findSome?_publishes (file : Ed2kHash) (out : List Directive) :
    out.findSome? (Directive.publishes file) =
      (voices out).findSome? (Directive.publishes file) := by
  unfold voices
  induction out with
  | nil => rfl
  | cons d out ih =>
    by_cases hvoice : d.voice
    · rw [filter_cons_of_pos hvoice, findSome?_cons, findSome?_cons, ih]
    · have hnone : d.publishes file = none :=
        eq_none_iff_forall_ne_some.mpr fun _ h => hvoice (voice_of_publishes h)
      rw [filter_cons_of_neg hvoice, findSome?_cons, hnone, ih]

theorem lastAccepted_cons :
    lastAccepted (u :: turns) file =
      ((voices u.out).findSome? (Directive.publishes file)).or (lastAccepted turns file) := by
  unfold lastAccepted
  rw [findSome?_cons, findSome?_publishes]
  cases (voices u.out).findSome? (Directive.publishes file) <;> rfl

theorem loads_iff : u.loads file path ↔
    ∃ title resume, .player (.load file path title resume) ∈ voices u.out := by
  unfold Turn.loads voices
  simp [mem_filter, Directive.voice]

theorem RecordedLoad.later {l' : LoadedFile} (h : RecordedLoad turns l)
    (hsilent : ∀ f p, ¬u.loads f p) (hfile : l'.file = l.file)
    (hsparse : l'.isPartial = l.isPartial ∨ ∃ p, u.event = .localFile l.file p true) :
    RecordedLoad (u :: turns) l' := by
  obtain ⟨path, since, t, past, hlast, horigin, hkept⟩ := h
  refine ⟨path, u :: since, t, past, ?_, hfile ▸ horigin, ?_⟩
  · exact ⟨by rw [hlast.split, cons_append], hfile ▸ hlast.loads,
      forall_mem_cons.mpr ⟨hsilent, hlast.last⟩⟩
  · rw [hfile]
    intro hoffer hopen
    rcases hsparse with heq | ⟨p, hevent⟩
    · rw [heq]
      exact hkept hoffer fun ⟨v, hv, hdone⟩ => hopen ⟨v, mem_cons_of_mem u hv, hdone⟩
    · exact absurd ⟨u, mem_cons_self, p, hevent⟩ hopen

theorem RecordedLoad.now (hload : u.loads l.file path)
    (horigin : VerifiedFor (u :: turns) l.file path ∨ u.offersPartial l.file path)
    (hsparse : u.offersPartial l.file path → l.isPartial = true) : RecordedLoad (u :: turns) l :=
  ⟨path, [], u, turns, ⟨rfl, hload, fun _ hv => absurd hv not_mem_nil⟩, horigin,
    fun hoffer _ => hsparse hoffer⟩

variable {view : StateView} {event : Event} {w : PlayerWiring} {r : Reaction}

theorem Effect.position_accepted {positionMillis : Nat} (h : Effect view event w r)
    (hw : ∀ file positionMillis, w.lastPosition = some (file, positionMillis) →
      lastAccepted turns file = some positionMillis)
    (hr : r.1.lastPosition = some (file, positionMillis)) :
    lastAccepted (⟨view, event, r.2⟩ :: turns) file = some positionMillis := by
  -- all but one case publish nothing and keep the last position
  have hkept (hposition : r.1.lastPosition = w.lastPosition)
      (hnone : (voices r.2).findSome? (Directive.publishes file) = none) :
      lastAccepted (⟨view, event, r.2⟩ :: turns) file = some positionMillis := by
    rw [lastAccepted_cons, hnone, none_or]
    exact hw file positionMillis (hposition ▸ hr)
  cases h with
  | kept _ hposition hsilent => exact hkept hposition (by rw [hsilent]; rfl)
  | dropped _ hposition hsilent => exact hkept hposition (by rw [hsilent]; rfl)
  | completed _ _ _ _ _ hposition hsilent => exact hkept hposition (by rw [hsilent]; rfl)
  | moved _ _ _ _ hposition hsilent => exact hkept hposition (by rw [hsilent]; rfl)
  | loadedVerified _ _ _ _ _ hposition hload => exact hkept hposition (by rw [hload]; rfl)
  | loadedPartial _ _ _ _ _ hposition hload => exact hkept hposition (by rw [hload]; rfl)
  | ended _ _ _ _ hposition hvoice => exact hkept hposition (by rw [hvoice]; rfl)
  | position f pos _ _ hposition hvoice =>
    rw [hposition] at hr
    cases hr
    rw [lastAccepted_cons]
    rcases hvoice with hvoice | ⟨_, hvoice⟩
    · simp [hvoice, Directive.publishes]
    · simp [hvoice, Directive.publishes]

theorem not_loads (h : ∀ d ∈ voices u.out, ∀ command, d ≠ .player command) (f : Ed2kHash)
    (p : String) : ¬u.loads f p := by
  rw [loads_iff]
  rintro ⟨title, resume, hmem⟩
  exact h _ hmem _ rfl

theorem Effect.recordedLoad (h : Effect view event w r)
    (hw : ∀ l, w.loaded = some l → RecordedLoad turns l)
    (hverified : ∀ file path, r.1.resolved[file]? = some (.verified path) →
      VerifiedFor (⟨view, event, r.2⟩ :: turns) file path)
    (hr : r.1.loaded = some l) : RecordedLoad (⟨view, event, r.2⟩ :: turns) l := by
  cases h with
  | kept hloaded _ hsilent =>
    refine (hw l (hloaded ▸ hr)).later (not_loads ?_) rfl (.inl rfl)
    simp [hsilent]
  | dropped hloaded _ _ =>
    rw [hloaded] at hr
    cases hr
  | completed file path hbefore hevent hloaded _ hsilent =>
    rw [hloaded] at hr
    cases hr
    refine (hw _ hbefore).later (not_loads ?_) rfl (.inr ⟨path, hevent⟩)
    simp [hsilent]
  | moved before path hbefore hloaded _ hsilent =>
    rw [hloaded] at hr
    cases hr
    refine (hw before hbefore).later (not_loads ?_) rfl (.inl rfl)
    simp [hsilent]
  | loadedVerified file path hevent hloaded hresolved _ hload =>
    rw [hloaded] at hr
    cases hr
    have hloads : Turn.loads ⟨view, event, r.2⟩ file path :=
      loads_iff.mpr ⟨_, _, hload ▸ mem_singleton_self _⟩
    refine .now hloads (.inl (hverified file path hresolved)) ?_
    rintro ⟨peers, heq⟩
    exact absurd heq (hevent file path peers)
  | loadedPartial file path peers hevent hloaded _ hload =>
    rw [hloaded] at hr
    cases hr
    have hloads : Turn.loads ⟨view, event, r.2⟩ file path :=
      loads_iff.mpr ⟨_, _, hload ▸ mem_singleton_self _⟩
    exact .now hloads (.inr ⟨peers, hevent⟩) fun _ => rfl
  | position file positionMillis _ hloaded _ hvoice =>
    refine (hw l (hloaded ▸ hr)).later (not_loads ?_) rfl (.inl rfl)
    rcases hvoice with hvoice | ⟨_, hvoice⟩ <;> simp [hvoice]
  | ended file _ _ hloaded _ hvoice =>
    refine (hw l (hloaded ▸ hr)).later (not_loads ?_) rfl (.inl rfl)
    simp [hvoice]

/-- **One turn keeps the record faithful.** -/
theorem Faithful.step {env : Env} {s s' : Run} {input : StateView × Event} (h : Faithful s)
    (hs : Run.step env s input = some s') : Faithful s' := by
  obtain ⟨view, event⟩ := input
  cases hs
  have heffect := effect_handle env view event s.wiring
  have hverified : ∀ file path,
      (handle env view event s.wiring).1.resolved[file]? = some (.verified path) →
        VerifiedFor (⟨view, event, (handle env view event s.wiring).2⟩ :: s.turns) file path := by
    intro file path hres
    rcases verified_handle hres with hold | hnew
    · obtain ⟨t, ht, hsays⟩ := h.verified file path hold
      exact ⟨t, mem_cons_of_mem _ ht, hsays⟩
    · exact ⟨_, mem_cons_self, hnew⟩
  exact ⟨hverified, fun _ _ hr => heffect.position_accepted h.position hr,
    fun _ hr => heffect.recordedLoad h.loaded hverified hr⟩

end History

/-! ## §2. Over whole sessions. -/

section Sessions

variable {env : Env} {me : UserId} {autoDownload : Bool} {s : Run} {view : StateView}
  {event : Event} {w : PlayerWiring} {r : Reaction} {file : Ed2kHash}

end Sessions

def episodePlaying : StateView :=
  { (default : StateView) with
    nowPlaying := some 5
    playlist := [{ hash := 5, state := { position := ⟨[]⟩, addedBy := "me", filename := "ep.mkv"
                                         sizeBytes := 1, durationMillis := some 100000 } }] }

end DessPlay.Session
