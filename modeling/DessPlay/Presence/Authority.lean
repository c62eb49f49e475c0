/-
  DessPlay.Presence.Authority
  **CONDITIONAL SEEK-AUTHORITY WRITES** (`take_authority_from`,
  `pin_rejoin_anchor` and `follow_laggard` of `dessplay-rendezvous/src/server.rs`).

  The server overrides the seek authority on three occasions, each after a look at
  the state: a user who is gone still holds it; the furthest-behind rule is in force
  and playback resumed; a pause ended a grace window on the file.  The look and the
  write are separate sections: a seek that lands between the two is overridden.
-/
import DessPlay.Presence.Room

namespace DessPlay.Presence

open DessPlay.Core List Machine

/-! ## §1. What a pending write relies on. -/

namespace Reason

def Holds (state : CrdtState) : Reason → Prop
  | .take user => HeldBy user state.authority = true
  | .pin file => state.authority = some (.laggard file)
  | .follow file => state.nowPlaying = some file
  | .other => True

def register : Reason → Option RegField
  | .take _ => some .seekAuthority
  | .pin _ => some .seekAuthority
  | .follow _ => some .nowPlaying
  | .other => none

variable {why : Reason} {state state' : CrdtState}

theorem Holds.of_regs_eq (h : why.Holds state)
    (hregs : ∀ r, why.register = some r → state'.regs r = state.regs r) : why.Holds state' := by
  cases why with
  | take user =>
    show HeldBy user (state'.regs .seekAuthority).value = true
    rw [hregs .seekAuthority rfl]
    exact h
  | pin file =>
    show (state'.regs .seekAuthority).value = _
    rw [hregs .seekAuthority rfl]
    exact h
  | follow file =>
    show Option.join (state'.regs .nowPlaying).value = _
    rw [hregs .nowPlaying rfl]
    exact h
  | other => trivial

end Reason

namespace Instr

def reason : Instr → Reason
  | .pinPeers file => .pin file
  | .pinDecide file _ => .pin file
  | .stampWrite why _ => why
  | .write why _ _ => why
  | _ => .other

end Instr

namespace Room

variable {blockers : StateView → List PeerInfo → List UserId} {room room' mid : Room}
  {instr : Instr} {next rest : List Instr}

/-! ## §2. Tasks whose checks still hold. -/

def TaskJustified (state : CrdtState) : List Instr → Prop
  | [] => True
  | instr :: rest => instr.reason.Holds state ∧ ∀ later ∈ rest, later.reason = .other

theorem taskJustified_of_other {state : CrdtState} {task : List Instr}
    (h : ∀ instr ∈ task, instr.reason = .other) : TaskJustified state task := by
  cases task with
  | nil => trivial
  | cons instr rest =>
    refine ⟨?_, fun later hlater => h later (mem_cons_of_mem _ hlater)⟩
    rw [h instr mem_cons_self]
    trivial

theorem TaskJustified.of_regs_eq {state state' : CrdtState} {task : List Instr}
    (h : TaskJustified state task)
    (hregs : ∀ other ∈ task.head?, ∀ r, other.reason.register = some r →
      state'.regs r = state.regs r) : TaskJustified state' task := by
  cases task with
  | nil => trivial
  | cons instr rest => exact ⟨h.1.of_regs_eq (hregs instr rfl), h.2⟩

theorem Opening.reason (h : Opening instr) : instr.reason = .other := by
  cases h <;> rfl

/-- **One section.**  What a section leaves behind it has just checked. -/
theorem Outcome.taskJustified (h : room.Outcome instr mid next)
    (hinstr : instr.reason.Holds room.state) (hrest : ∀ later ∈ rest, later.reason = .other) :
    TaskJustified mid.state (next ++ rest) := by
  -- most sections leave nothing that relies on a check
  have hother : (∀ later ∈ next, later.reason = .other) → TaskJustified mid.state (next ++ rest) :=
    fun hnext => taskJustified_of_other fun later hlater =>
      (mem_append.mp hlater).elim (hnext later) (hrest later)
  cases h with
  | stampWrite => exact ⟨hinstr, hrest⟩
  | pinPeers => exact ⟨hinstr, hrest⟩
  | pinDecide => exact ⟨hinstr, hrest⟩
  | followOn hfile => exact ⟨hfile, hrest⟩
  | takeHeld hheld => exact ⟨hheld, hrest⟩
  | pinFound hlaggard => exact ⟨hlaggard, hrest⟩
  | pauseClose hnext =>
    refine hother fun later hlater => ?_
    obtain rfl | rfl := hnext
    · cases hlater
    · obtain ⟨file, -, rfl⟩ := mem_map.mp hlater
      rfl
  | reconcileClose hnext =>
    refine hother fun later hlater => ?_
    obtain rfl | ⟨-, rfl⟩ := hnext
    · cases hlater
    · obtain rfl := mem_singleton.mp hlater
      rfl
  | pauseRead => exact ⟨trivial, hrest⟩
  | reconcileOpen => exact ⟨trivial, hrest⟩
  | reconcileStop => exact ⟨trivial, hrest⟩
  | graceActive => exact ⟨trivial, hrest⟩
  | eof => exact ⟨trivial, hrest⟩
  | graceIdle => exact hother fun _ hlater => (opening_forcePause hlater).reason
  | graceRefused => exact hother fun _ hlater => (opening_forcePause hlater).reason
  | applied => exact hother fun _ hlater => (opening_aftermath hlater).reason
  | merged => exact hother fun _ hlater => (opening_aftermath hlater).reason
  | _ => exact taskJustified_of_other hrest

/-! ## §3. Whole runs. -/

def Justified (room : Room) : Prop := ∀ task ∈ room.tasks, TaskJustified room.state task

/-- No section writes a register between another task's look at it and the write that relies on
the look. -/
def Undisturbed (room : Room) : RoomEvent → Prop
  | .run i _ => ∀ instr ∈ room.tasks[i]?.bind List.head?,
      ∀ j other, j ≠ i → other ∈ room.tasks[j]?.bind List.head? →
        ∀ r, other.reason.register = some r → instr.writes r = false
  | _ => True

/-- **One step.** -/
theorem Justified.step {event : RoomEvent} (h : room.Justified) (hok : room.Undisturbed event)
    (hstep : room.step blockers event = some room') : room'.Justified := by
  have hfresh : ∀ task, Fresh task → TaskJustified room.state task := fun task htask =>
    taskJustified_of_other fun instr hinstr => (htask.opening hinstr).reason
  cases event with
  | run i ambient =>
    refine forall_tasks_run h hstep (fun _ => trivial)
      (fun _ hout hown => hout.taskJustified hown.1 hown.2) ?_
    intro instr rest mid next j task htask hout hij hj hold
    -- the other task's register is not the one this section writes
    refine hold.of_regs_eq fun other hother r hr => hout.regs_eq (hok instr ?_ j other hij ?_ r hr)
    · rw [htask]; rfl
    · rw [hj]; exact hother
  | _ => exact forall_tasks_start h (fun _ _ heq => by cases heq) hstep hfresh

/-- **Conditional writes are justified** in every run in which no section writes the register that
another task has just examined: at the write, what the check found still holds. -/
theorem conditional_write_justified (state : CrdtState)
    (h : Reach (step blockers) Undisturbed (start state) room)
    (i : Nat) (why : Reason) (ts : SharedTimestamp) (w : CrdtState.Write)
    (htask : room.tasks[i]? = some (.write why ts w :: rest)) : why.Holds room.state := by
  have hjust : room.Justified :=
    h.invariant (fun task htask => by cases htask) fun _ _ _ hr hok hstep => hr.step hok hstep
  exact (hjust _ (mem_of_getElem? htask)).1

theorem undisturbed_of_single {event : RoomEvent} (h : room.tasks.length ≤ 1) :
    room.Undisturbed event := by
  cases event with
  | run i ambient =>
    intro instr hinstr j other hij hother
    -- both tasks would be the first
    have hpos : ∀ {k : Nat} {instr : Instr}, instr ∈ room.tasks[k]?.bind List.head? → k = 0 := by
      intro k instr hk
      obtain ⟨task, htask, -⟩ := Option.bind_eq_some_iff.mp hk
      have hlt := (List.getElem?_eq_some_iff.mp htask).1
      omega
    exact absurd ((hpos hother).trans (hpos hinstr).symm) hij
  | _ => trivial

/-- `user`'s seek on file 7. -/
def seekBy (user : UserId) (stamp : SharedTimestamp) : CrdtState.Write :=
  .reg .seekAuthority (.user ⟨user, 7, stamp, 3000, 9000⟩)

def adaSeeked : CrdtState := (CrdtState.new.put 1 10 (seekBy "ada" 10)).1

def quiet : Ambient := ⟨20, [], none⟩

def adaLeaves : List RoomEvent :=
  [.register 1 "ada" .interactive 7, .connEnd 1 "ada" .interactive .goodbye 20] ++
    List.replicate 6 (.run 0 quiet)

theorem conditional_write_justified_rescue :
    ∃ room ts, Reach (step fun _ _ => []) Undisturbed (start adaSeeked) room ∧
      room.tasks[0]? = some [.write (.take "ada") ts (.reg .seekAuthority .server)] ∧
      (Reason.take "ada").Holds room.state := by
  have hrun : runWith (step fun _ _ => []) (fun room _ => decide (room.tasks.length ≤ 1))
      (start adaSeeked) (adaLeaves ++ [.run 0 quiet]) = some _ := rfl
  have hreach : Reach (step fun _ _ => []) Undisturbed (start adaSeeked) _ :=
    reach_of_runWith _ (fun _ _ h => undisturbed_of_single (of_decide_eq_true h)) hrun
  exact ⟨_, _, hreach, rfl, conditional_write_justified adaSeeked hreach 0 _ _ _ rfl⟩

/-- **A seek lost to a rescue.**  Ada holds the authority and leaves; the check finds Ada.  Before
the write is stamped, Bob seeks.  The write then replaces Bob's seek, not Ada's. -/
theorem seek_lost_to_rescue :
    ∃ room room' ts, run (step fun _ _ => []) (start adaSeeked)
        (adaLeaves ++ [.stateOp (adaSeeked.writeOp 2 30 (seekBy "bob" 30)) false,
          .run 1 quiet, .run 1 quiet, .run 0 quiet]) = some room ∧
      room.tasks[0]? = some [.write (.take "ada") ts (.reg .seekAuthority .server)] ∧
      room.state.authority = some (.user ⟨"bob", 7, 30, 3000, 9000⟩) ∧
      room.step (fun _ _ => []) (.run 0 quiet) = some room' ∧
      room'.state.authority = some .server :=
  ⟨_, _, _, rfl, rfl, by decide +kernel, rfl, by decide +kernel⟩

end Room
end DessPlay.Presence
