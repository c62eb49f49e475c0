/-
  DessPlay.Lib.Ledger
  **REQUESTS AND THEIR ANSWERS, IN ONE LOG.**

  A service takes requests and emits events; both are entered in a ledger in the order
  in which they happen.  `Accounted answers held log` says that each request in the log
  is answered by an event after it or is still held by the service.  The rules say what
  an entry asks of the service.
-/
import Mathlib.Data.List.Basic

namespace Ledger

open List

inductive Entry (ρ ε : Type) where
  | request (r : ρ)
  | event (e : ε)
  deriving DecidableEq

variable {ρ ε : Type} {answers : ε → ρ → Prop} {held held' : ρ → Prop} {log : List (Entry ρ ε)}

/-- Every request of the log is answered after it was made, or still held. -/
def Accounted (answers : ε → ρ → Prop) (held : ρ → Prop) (log : List (Entry ρ ε)) : Prop :=
  ∀ r before after, log = before ++ .request r :: after →
    (∃ e, .event e ∈ after ∧ answers e r) ∨ held r

theorem accounted_nil : Accounted answers held [] := by
  intro r before after hlog
  exact absurd hlog (by simp)

theorem Accounted.mono (h : Accounted answers held log) (hheld : ∀ r, held r → held' r) :
    Accounted answers held' log :=
  fun r before after hlog => (h r before after hlog).imp_right (hheld r)

theorem append_singleton_eq_split {log before after : List (Entry ρ ε)} {x y : Entry ρ ε}
    (h : log ++ [x] = before ++ y :: after) :
    (after = [] ∧ x = y) ∨ ∃ rest, after = rest ++ [x] ∧ log = before ++ y :: rest := by
  rcases eq_nil_or_concat after with rfl | ⟨rest, last, rfl⟩
  · obtain ⟨_, hlast⟩ := append_inj' h rfl
    exact .inl ⟨rfl, singleton_inj.mp hlast⟩
  · rw [concat_eq_append, ← cons_append, ← append_assoc] at h
    obtain ⟨hlog, hlast⟩ := append_inj' h rfl
    cases hlast
    exact .inr ⟨rest, by rw [concat_eq_append], hlog⟩

theorem Accounted.event (h : Accounted answers held log) (e : ε)
    (hheld : ∀ r, held r → answers e r ∨ held' r) :
    Accounted answers held' (log ++ [.event e]) := by
  intro r before after hlog
  rcases append_singleton_eq_split hlog with ⟨_, heq⟩ | ⟨rest, rfl, hsplit⟩
  · cases heq
  · rcases h r before rest hsplit with ⟨e', hmem, hans⟩ | hr
    · exact .inl ⟨e', mem_append_left _ hmem, hans⟩
    · rcases hheld r hr with hans | hr
      · exact .inl ⟨e, mem_append_right _ (mem_singleton_self _), hans⟩
      · exact .inr hr

theorem Accounted.request (h : Accounted answers held log) {r : ρ} (hr : held' r)
    (hheld : ∀ r, held r → held' r) : Accounted answers held' (log ++ [.request r]) := by
  intro r' before after hlog
  rcases append_singleton_eq_split hlog with ⟨rfl, heq⟩ | ⟨rest, rfl, hsplit⟩
  · cases heq
    exact .inr hr
  · rcases h r' before rest hsplit with ⟨e, hmem, hans⟩ | hr'
    · exact .inl ⟨e, mem_append_left _ hmem, hans⟩
    · exact .inr (hheld r' hr')

end Ledger
