import Valv.Lib.Effect

/-!
# Histories

What a program alone goes through, state after state.

* `history`: the states, the first one included.
* `KeepsAt D I`, `Keeps D I`: from this state, from a state in `I`, the program ends in `I`, if `D` holds of every
  state that it goes through.
-/

namespace Valv.Conc.Proc

variable {σ κ ε α β : Type} [Sequence σ κ]

/-- The states that the program alone goes through from `s` on. -/
def history : Proc σ κ ε α → σ → List σ
  | .done _, s => [s]
  | .fail _, s => [s]
  | .act put next, s => s :: (next s).history (put s s)
  | .draw next, s => s :: (next (Sequence.value κ s)).history (Sequence.bump κ s)
  | .ctl _ next, s => next.history s

theorem head?_history (p : Proc σ κ ε α) (s : σ) : (p.history s).head? = some s := by
  induction p generalizing s with
  | done a => rfl
  | fail e => rfl
  | act put next ih => rfl
  | draw next ih => rfl
  | ctl c next ih => exact ih s

/-- The first state. -/
theorem mem_history (p : Proc σ κ ε α) (s : σ) : s ∈ p.history s := List.mem_of_mem_head? (head?_history p s)

section Sequences

variable {s t u : σ}

theorem mem_history_bind {p : Proc σ κ ε α} (f : α → Proc σ κ ε β) (h : t ∈ p.history s) :
    t ∈ (p >>= f).history s := by
  induction p generalizing s with
  | done a =>
    rw [history, List.mem_singleton] at h
    subst h
    exact mem_history (f a) t
  | fail e => exact h
  | act put next ih =>
    cases h with
    | head => exact List.mem_cons_self
    | tail _ h => exact List.mem_cons_of_mem _ (ih s h)
  | draw next ih =>
    cases h with
    | head => exact List.mem_cons_self
    | tail _ h => exact List.mem_cons_of_mem _ (ih _ h)
  | ctl c next ih => exact ih h

theorem mem_history_bind_ok {p : Proc σ κ ε α} {f : α → Proc σ κ ε β} {a : α} (hrun : p.runBody s = (t, .ok a))
    (h : u ∈ (f a).history t) : u ∈ (p >>= f).history s := by
  induction p generalizing s with
  | done b =>
    cases hrun
    exact h
  | fail e => cases hrun
  | act put next ih => exact List.mem_cons_of_mem _ (ih s hrun)
  | draw next ih => exact List.mem_cons_of_mem _ (ih _ hrun)
  | ctl c next ih => exact ih hrun

theorem mem_history_attempt {p : Proc σ κ ε α} (f : ε → Proc σ κ ε α) (h : t ∈ p.history s) :
    t ∈ (p.attempt f).history s := by
  induction p generalizing s with
  | done a => exact h
  | fail e =>
    rw [history, List.mem_singleton] at h
    subst h
    exact mem_history (f e) t
  | act put next ih =>
    cases h with
    | head => exact List.mem_cons_self
    | tail _ h => exact List.mem_cons_of_mem _ (ih s h)
  | draw next ih =>
    cases h with
    | head => exact List.mem_cons_self
    | tail _ h => exact List.mem_cons_of_mem _ (ih _ h)
  | ctl c next ih => exact ih h

theorem mem_history_attempt_error {p : Proc σ κ ε α} {f : ε → Proc σ κ ε α} {e : ε}
    (hrun : p.runBody s = (t, .error e)) (h : u ∈ (f e).history t) : u ∈ (p.attempt f).history s := by
  induction p generalizing s with
  | done b => cases hrun
  | fail e' =>
    cases hrun
    exact h
  | act put next ih => exact List.mem_cons_of_mem _ (ih s hrun)
  | draw next ih => exact List.mem_cons_of_mem _ (ih _ hrun)
  | ctl c next ih => exact ih hrun

end Sequences

/-! ### Invariants -/

variable {D I : σ → Prop} {s : σ}

/-- From `s` the program ends in `I`, if `D` holds all the way. -/
def KeepsAt (D I : σ → Prop) (p : Proc σ κ ε α) (s : σ) : Prop := (∀ t ∈ p.history s, D t) → I (p.runBody s).1

/-- From a state in `I` the program ends in `I`, if `D` holds all the way. -/
def Keeps (D I : σ → Prop) (p : Proc σ κ ε α) : Prop := ∀ s, I s → p.KeepsAt D I s

theorem KeepsAt.bind {p : Proc σ κ ε α} {f : α → Proc σ κ ε β} (h : p.KeepsAt D I s)
    (hf : ∀ t a, p.runBody s = (t, .ok a) → I t → (f a).KeepsAt D I t) : (p >>= f).KeepsAt D I s := by
  intro hD
  have hend := h fun t ht => hD t (mem_history_bind f ht)
  rw [runBody_bind]
  cases hrun : p.runBody s with
  | mk t r =>
    rw [hrun] at hend
    cases r with
    | ok a => exact hf t a hrun hend fun u hu => hD u (mem_history_bind_ok hrun hu)
    | error e => exact hend

theorem Keeps.bind {p : Proc σ κ ε α} {f : α → Proc σ κ ε β} (h : p.Keeps D I) (hf : ∀ a, (f a).Keeps D I) :
    (p >>= f).Keeps D I :=
  fun s hs => (h s hs).bind fun t a _ ht => hf a t ht

theorem KeepsAt.attempt {p : Proc σ κ ε α} {f : ε → Proc σ κ ε α} (h : p.KeepsAt D I s)
    (hf : ∀ e, (f e).Keeps D I) : (p.attempt f).KeepsAt D I s := by
  intro hD
  have hend := h fun t ht => hD t (mem_history_attempt f ht)
  rw [runBody_attempt]
  cases hrun : p.runBody s with
  | mk t r =>
    rw [hrun] at hend
    cases r with
    | ok a => exact hend
    | error e => exact hf e t hend fun u hu => hD u (mem_history_attempt_error hrun hu)

end Valv.Conc.Proc
