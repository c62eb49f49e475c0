/-
  DessPlay.Session.ChatOsd
  **CHAT LINES ON THE OSD** (the chat arm of `PlayerWiring::on_state` in
  `dessplay/src/session.rs`).

  The wiring keeps a COUNT of the lines it has handled and shows what lies beyond
  it.  The list it counts is ordered by identifiers: a late line can go in anywhere,
  and compaction drops the front.  The count is right as long as new lines come behind
  it and nothing uncounted is in the list when the front goes; two concurrent appends
  are enough to show one line twice and the other never.
-/
import DessPlay.Core.View
import DessPlay.Lib.Machine

namespace DessPlay.Session

open DessPlay.Core Crdts BTree List

/-! ## §1. The OSD arm of `on_state`. -/

/-- A directive of this arm.  The text is the line's rendering. -/
inductive OsdCommand where
  | showOsd (text : String)
  deriving DecidableEq

/-- The chat lines that go to the OSD, and the new count.  The first view's backlog is history;
later everything beyond the count is news, except the client's own words.  `osdText` renders a
message (CTCP actions decoded, spoilers masked). -/
def onStateChat (osdText : ChatMessage → String) (me : UserId) (chatSeen : Option Nat)
    (chat : List ChatMessage) : Option Nat × List OsdCommand :=
  match chatSeen with
  | none => (some chat.length, [])
  | some seen =>
    (some chat.length,
      ((chat.drop seen).filter fun msg => msg.sender ≠ me).map fun msg => .showOsd (osdText msg))

/-! ## §2. Chat lines and their views. -/

/-- One line of the chat.  Two lines may say the same: `tag` tells them apart. -/
structure Line where
  tag : Nat
  msg : ChatMessage
  deriving DecidableEq

/-- A chat list and the client that is shown its views.  `viewed`, `backlog` and `shown` record the
lines of all views, of the first one, and those that went to the OSD; nothing reads them. -/
structure Viewing where
  lines : List Line
  next : Nat
  chatSeen : Option Nat
  osd : List OsdCommand
  viewed : List Line
  backlog : List Line
  shown : List Line

/-- What happens to the chat list between two views, and the view itself. -/
inductive ChatEvent where
  /-- a message arrives and is ordered in at `pos` -/
  | insert (pos : Nat) (msg : ChatMessage)
  /-- compaction keeps only the trailing lines -/
  | trim (count : Nat)
  /-- `on_state` -/
  | view

namespace Viewing

def start (messages : List ChatMessage) : Viewing :=
  { lines := messages.zipIdx.map fun e => ⟨e.2, e.1⟩
    next := messages.length
    chatSeen := none
    osd := []
    viewed := []
    backlog := []
    shown := [] }

def news (me : UserId) (v : Viewing) : List Line :=
  match v.chatSeen with
  | none => []
  | some seen => (v.lines.drop seen).filter fun line => line.msg.sender ≠ me

def step (osdText : ChatMessage → String) (me : UserId) (v : Viewing) : ChatEvent → Option Viewing
  | .insert pos msg =>
    if pos ≤ v.lines.length then
      some { v with
        lines := v.lines.take pos ++ ⟨v.next, msg⟩ :: v.lines.drop pos
        next := v.next + 1 }
    else none
  | .trim count => some { v with lines := v.lines.drop count }
  | .view =>
    let (seen, commands) := onStateChat osdText me v.chatSeen (v.lines.map Line.msg)
    some { v with
      chatSeen := seen
      osd := v.osd ++ commands
      viewed := v.viewed ++ v.lines
      backlog := if v.chatSeen = none then v.lines else v.backlog
      shown := v.shown ++ v.news me }

/-- **Exactly once.**  What went to the OSD is, line by line, what somebody else said and a view
after the first one was the first to hold; none of it twice. -/
structure ExactlyOnce (osdText : ChatMessage → String) (me : UserId) (v : Viewing) : Prop where
  osd : v.osd = v.shown.map fun line => .showOsd (osdText line.msg)
  once : v.shown.Nodup
  all : ∀ line, line ∈ v.shown ↔ line ∈ v.viewed ∧ line ∉ v.backlog ∧ line.msg.sender ≠ me

/-- Lines arrive behind those already counted, and the front is trimmed only when every line has
been counted. -/
def AppendOnly (v : Viewing) : ChatEvent → Prop
  | .insert pos _ => ∀ seen ∈ v.chatSeen, seen ≤ pos
  | .trim _ => ∀ seen ∈ v.chatSeen, v.lines.length ≤ seen
  | .view => True

/-! ## §3. The count splits the list. -/

/-- The lines behind the count are new: no view held them.  Lines differ by their tags, and a tag
is never used twice. -/
structure Counted (v : Viewing) : Prop where
  distinct : v.lines.Nodup
  fresh : ∀ line, line ∈ v.lines ∨ line ∈ v.viewed → line.tag < v.next
  beyond : ∀ seen ∈ v.chatSeen, ∀ line ∈ v.lines.drop seen, line ∉ v.viewed
  within : ∀ seen ∈ v.chatSeen, ∀ line ∈ v.lines.take seen, line ∈ v.viewed
  unviewed : v.chatSeen = none → v.viewed = []
  history : v.backlog ⊆ v.viewed

variable {osdText : ChatMessage → String} {me : UserId} {v v' : Viewing}

theorem counted_start (messages : List ChatMessage) : (start messages).Counted where
  distinct := by
    have htags : ((start messages).lines.map Line.tag).Nodup := by
      show ((messages.zipIdx.map fun e => (⟨e.2, e.1⟩ : Line)).map Line.tag).Nodup
      rw [map_map]
      show (messages.zipIdx.map Prod.snd).Nodup
      rw [zipIdx_map_snd]
      exact nodup_range'
    exact htags.of_map
  fresh line hline := by
    rcases hline with hline | hline
    · obtain ⟨e, he, rfl⟩ := mem_map.mp hline
      have := snd_lt_add_of_mem_zipIdx he
      show e.2 < messages.length
      omega
    · cases hline
  beyond seen hseen := by cases hseen
  within seen hseen := by cases hseen
  unviewed _ := rfl
  history := fun line hline => hline

theorem onStateChat_eq (v : Viewing) :
    onStateChat osdText me v.chatSeen (v.lines.map Line.msg) =
      (some v.lines.length, (v.news me).map fun line => .showOsd (osdText line.msg)) := by
  unfold onStateChat news
  cases v.chatSeen with
  | none => simp
  | some seen =>
    simp only [length_map, ← map_drop, filter_map, map_map]
    rfl

theorem take_insert {α : Type} (l : List α) (x : α) {seen pos : Nat} (h : seen ≤ pos)
    (hpos : pos ≤ l.length) : (l.take pos ++ x :: l.drop pos).take seen = l.take seen := by
  rw [take_append_of_le_length (by simp; omega), take_take, min_eq_left h]

theorem mem_drop_insert {α : Type} {l : List α} {x y : α} {seen pos : Nat} (h : seen ≤ pos)
    (hpos : pos ≤ l.length) (hy : y ∈ (l.take pos ++ x :: l.drop pos).drop seen) :
    y = x ∨ y ∈ l.drop seen := by
  rw [drop_append_of_le_length (by simp; omega)] at hy
  rcases mem_append.mp hy with hy | hy
  · rw [drop_take] at hy
    exact .inr (mem_of_mem_take hy)
  · rcases mem_cons.mp hy with hy | hy
    · exact .inl hy
    · have hsplit : l.drop pos = (l.drop seen).drop (pos - seen) := by
        rw [drop_drop]
        congr 1
        omega
      rw [hsplit] at hy
      exact .inr (mem_of_mem_drop hy)

theorem mem_insert {α : Type} (l : List α) (x y : α) (pos : Nat) :
    y ∈ l.take pos ++ x :: l.drop pos ↔ y = x ∨ y ∈ l := by
  conv_rhs => rw [← take_append_drop pos l]
  simp only [mem_append, mem_cons]
  tauto

/-- **One event** keeps the split. -/
theorem Counted.step {e : ChatEvent} (h : v.Counted) (hok : v.AppendOnly e)
    (hstep : v.step osdText me e = some v') : v'.Counted := by
  cases e with
  | insert pos msg =>
    simp only [Viewing.step] at hstep
    split at hstep
    next hpos =>
      obtain rfl := Option.some.inj hstep
      -- the new line's tag is above all others
      have hnew : ∀ line, line ∈ v.lines ∨ line ∈ v.viewed → line ≠ ⟨v.next, msg⟩ := by
        intro line hline heq
        have := h.fresh line hline
        rw [heq] at this
        exact lt_irrefl _ this
      refine ⟨?_, ?_, ?_, ?_, h.unviewed, h.history⟩
      · have hperm : (v.lines.take pos ++ ⟨v.next, msg⟩ :: v.lines.drop pos).Perm
            (⟨v.next, msg⟩ :: v.lines) := by
          refine perm_middle.trans ?_
          rw [take_append_drop]
        rw [hperm.nodup_iff, nodup_cons]
        exact ⟨fun hin => hnew _ (.inl hin) rfl, h.distinct⟩
      · intro line hline
        rw [mem_insert] at hline
        show line.tag < v.next + 1
        rcases hline with (rfl | hold) | hviewed
        · exact Nat.lt_succ_self _
        · exact (h.fresh line (.inl hold)).trans (Nat.lt_succ_self _)
        · exact (h.fresh line (.inr hviewed)).trans (Nat.lt_succ_self _)
      · intro seen hseen line hline
        rcases mem_drop_insert (hok seen hseen) hpos hline with rfl | hold
        · exact fun hviewed => hnew _ (.inr hviewed) rfl
        · exact h.beyond seen hseen line hold
      · intro seen hseen line hline
        rw [take_insert _ _ (hok seen hseen) hpos] at hline
        exact h.within seen hseen line hline
    · cases hstep
  | trim count =>
    obtain rfl := Option.some.inj hstep
    refine ⟨h.distinct.sublist (drop_sublist _ _), ?_, ?_, ?_, h.unviewed, h.history⟩
    · intro line hline
      exact h.fresh line (hline.imp_left mem_of_mem_drop)
    · -- nothing is left behind the count
      intro seen hseen line hline
      have hlen := hok seen hseen
      rw [drop_drop, drop_eq_nil_of_le (by omega)] at hline
      cases hline
    · intro seen hseen line hline
      have hlen := hok seen hseen
      have hold : line ∈ v.lines.take seen := by
        rw [take_of_length_le hlen]
        exact mem_of_mem_drop (mem_of_mem_take hline)
      exact h.within seen hseen line hold
  | view =>
    simp only [Viewing.step, onStateChat_eq] at hstep
    obtain rfl := Option.some.inj hstep
    refine ⟨h.distinct, ?_, ?_, ?_, nofun, ?_⟩
    · intro line hline
      rw [mem_append] at hline
      refine h.fresh line ?_
      tauto
    · rintro seen hseen line hline
      obtain rfl := Option.some.inj hseen
      rw [drop_length] at hline
      cases hline
    · intro seen _ line hline
      exact mem_append_right _ (mem_of_mem_take hline)
    · intro line hline
      dsimp only at hline
      split at hline
      · exact mem_append_right _ hline
      · exact mem_append_left _ (h.history hline)

theorem ExactlyOnce.viewed (hx : v.ExactlyOnce osdText me) (h : v.Counted) :
    ∀ line, line ∈ v.shown ++ v.news me ↔
      line ∈ v.viewed ++ v.lines ∧ (v.chatSeen = none → line ∉ v.lines) ∧ line ∉ v.backlog ∧
        line.msg.sender ≠ me := by
  intro line
  rw [mem_append, mem_append, hx.all]
  unfold news
  cases hseen : v.chatSeen with
  | none =>
    simp only [not_mem_nil, or_false, h.unviewed hseen, false_or, forall_const]
    tauto
  | some seen =>
    simp only [mem_filter, decide_eq_true_eq, reduceCtorEq, false_imp_iff, true_and]
    have hbeyond := h.beyond seen hseen line
    have hwithin := h.within seen hseen line
    have hhistory : line ∈ v.backlog → line ∈ v.viewed := fun hb => h.history hb
    have hsplit : line ∈ v.lines ↔ line ∈ v.lines.take seen ∨ line ∈ v.lines.drop seen := by
      rw [← mem_append, take_append_drop]
    tauto

theorem ExactlyOnce.step {e : ChatEvent} (hx : v.ExactlyOnce osdText me) (h : v.Counted)
    (hstep : v.step osdText me e = some v') : v'.ExactlyOnce osdText me := by
  cases e with
  | insert pos msg =>
    simp only [Viewing.step] at hstep
    split at hstep
    · obtain rfl := Option.some.inj hstep; exact ⟨hx.osd, hx.once, hx.all⟩
    · cases hstep
  | trim count => obtain rfl := Option.some.inj hstep; exact ⟨hx.osd, hx.once, hx.all⟩
  | view =>
    simp only [Viewing.step, onStateChat_eq] at hstep
    obtain rfl := Option.some.inj hstep
    refine ⟨?_, ?_, fun line => ?_⟩
    · show v.osd ++ _ = (v.shown ++ _).map _
      rw [hx.osd, map_append]
    · -- the news are new: no earlier view held them, so they were not shown
      have hnews : v.news me ⊆ v.lines ∧ (v.news me).Nodup ∧
          ∀ line ∈ v.news me, line ∉ v.viewed := by
        unfold news
        cases hseen : v.chatSeen with
        | none => simp
        | some seen =>
          refine ⟨fun line hl => mem_of_mem_drop (mem_of_mem_filter hl),
            (h.distinct.sublist (drop_sublist _ _)).filter _, fun line hl => ?_⟩
          exact h.beyond seen hseen line (mem_of_mem_filter hl)
      show (v.shown ++ v.news me).Nodup
      rw [nodup_append']
      exact ⟨hx.once, hnews.2.1, fun line hs hn => hnews.2.2 line hn ((hx.all line).mp hs).1⟩
    · show line ∈ v.shown ++ v.news me ↔ line ∈ v.viewed ++ v.lines ∧ _ ∧ _
      rw [hx.viewed h]
      dsimp only
      split
      next hseen =>
        have hempty : line ∉ v.backlog := fun hb => by
          have := h.history hb
          rw [h.unviewed hseen] at this
          cases this
        simp only [hseen, forall_const]
        tauto
      next hseen => simp only [hseen, false_imp_iff, true_and]

/-- **Every message reaches the OSD exactly once** along every run in which lines arrive behind
those already counted and the front is trimmed only when every line has been counted. -/
theorem exactly_once_of_append_only (osdText : ChatMessage → String) (me : UserId)
    (messages : List ChatMessage)
    (h : Machine.Reach (step osdText me) AppendOnly (start messages) v) :
    v.ExactlyOnce osdText me := by
  suffices hboth : v.Counted ∧ v.ExactlyOnce osdText me from hboth.2
  induction h with
  | refl => exact ⟨counted_start messages, rfl, nodup_nil, fun _ => by simp [start]⟩
  | step _ hok hs ih => exact ⟨ih.1.step hok hs, ih.2.step ih.1 hs⟩

theorem exactly_once_of_append_only_appended :
    ExactlyOnce ChatMessage.text "cleo"
      { lines := [⟨0, ⟨1, "ada", "hi"⟩⟩, ⟨1, ⟨2, "bob", "yo"⟩⟩]
        next := 2
        chatSeen := some 2
        osd := [.showOsd "yo"]
        viewed := [⟨0, ⟨1, "ada", "hi"⟩⟩, ⟨0, ⟨1, "ada", "hi"⟩⟩, ⟨1, ⟨2, "bob", "yo"⟩⟩]
        backlog := [⟨0, ⟨1, "ada", "hi"⟩⟩]
        shown := [⟨1, ⟨2, "bob", "yo"⟩⟩] } := by
  refine exactly_once_of_append_only ChatMessage.text "cleo" [⟨1, "ada", "hi"⟩]
    (.step (e := .view) (.step (e := .insert 1 ⟨2, "bob", "yo"⟩)
      (.step (e := .view) .refl trivial rfl) ?_ rfl) trivial rfl)
  intro seen hseen
  obtain rfl := Option.some.inj hseen
  exact le_rfl

/-- Two clients append after the same line.  The one whose message sorts first arrives last: the
other line is shown a second time, and this one never. -/
theorem concurrent_append_shown_twice :
    (∃ v, Machine.run (step ChatMessage.text "cleo") (start [⟨1, "ada", "hi"⟩])
        [.view, .insert 1 ⟨3, "ada", "new"⟩, .view, .insert 1 ⟨2, "bob", "late"⟩, .view] = some v ∧
      v.osd = [.showOsd "new", .showOsd "new"] ∧ ¬ v.ExactlyOnce ChatMessage.text "cleo") ∧
    -- the states behind these views
    (let s₁ := (CrdtState.new.appendChat 1 0 ⟨1, "ada", "hi"⟩).1
     let s₂ := (s₁.appendChat 1 0 ⟨3, "ada", "new"⟩).1
     let s₃ := s₂.apply (s₁.appendChat 2 0 ⟨2, "bob", "late"⟩).2
     s₂.chat.read? = some [⟨1, "ada", "hi"⟩, ⟨3, "ada", "new"⟩] ∧
       s₃.chat.read? = some [⟨1, "ada", "hi"⟩, ⟨2, "bob", "late"⟩, ⟨3, "ada", "new"⟩]) := by
  refine ⟨⟨_, rfl, rfl, fun h => absurd h.once ?_⟩, by decide +kernel⟩
  decide +kernel

end Viewing

end DessPlay.Session
