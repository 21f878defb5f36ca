import Valv.Lib.Effect

/-!
# Programs that can be stopped

A program that runs alone can be stopped between any two of its statements.  `Ensures` is its weakest
precondition: for what holds at each such moment, for the result, and for an error.

* `stateAfter`: the state after some of the statements.
* `Ensures`: the weakest precondition.
* `Ensures.bind`, `Ensures.attempt`, `Ensures.read`: a rule for each way to put programs together.
* `Ensures.of_writes`, `Ensures.of_run`: what the writes of a program keep, and what a run of it returns.
* `Ensures.always`, `Ensures.of_runBody_ok`: what it says of a run.
* `Preserves`: an invariant at each moment, and what is returned, from any state with the invariant.
-/

namespace Valv.Conc.Proc

variable {σ κ ε α β : Type} [Sequence σ κ]

/-- What the first statements of a program that runs alone leave. -/
def stateAfter : ℕ → Proc σ κ ε α → σ → σ
  | 0, _, s => s
  | _ + 1, .done _, s => s
  | _ + 1, .fail _, s => s
  | n + 1, .act put next, s => (next s).stateAfter n (put s s)
  | n + 1, .draw next, s => (next (Sequence.value κ s)).stateAfter n (Sequence.bump κ s)
  | n + 1, .ctl _ next, s => next.stateAfter n s

/-- Run alone from this state, the program has `I` at each moment, and ends with `Q`, or with `E` after an error. -/
def Ensures (I : σ → Prop) (Q : α → σ → Prop) (E : ε → σ → Prop) : Proc σ κ ε α → σ → Prop
  | .done a, s => I s ∧ Q a s
  | .fail e, s => I s ∧ E e s
  | .act put next, s => I s ∧ (next s).Ensures I Q E (put s s)
  | .draw next, s => I s ∧ (next (Sequence.value κ s)).Ensures I Q E (Sequence.bump κ s)
  | .ctl _ next, s => next.Ensures I Q E s

variable {I J : σ → Prop} {Q Q' : α → σ → Prop} {E E' : ε → σ → Prop} {s s' : σ}

/-! ### Rules -/

theorem Ensures.pure {a : α} (hI : I s) (hQ : Q a s) : (pure a : Proc σ κ ε α).Ensures I Q E s := ⟨hI, hQ⟩

theorem Ensures.fail {e : ε} (hI : I s) (hE : E e s) : (Proc.fail e : Proc σ κ ε α).Ensures I Q E s := ⟨hI, hE⟩

/-- The consequence rule. -/
theorem Ensures.mono {p : Proc σ κ ε α} (h : p.Ensures I Q E s) (hI : ∀ t, I t → J t)
    (hQ : ∀ a t, I t → Q a t → Q' a t) (hE : ∀ e t, I t → E e t → E' e t) : p.Ensures J Q' E' s := by
  induction p generalizing s with
  | done a => exact ⟨hI s h.1, hQ a s h.1 h.2⟩
  | fail e => exact ⟨hI s h.1, hE e s h.1 h.2⟩
  | act put next ih => exact ⟨hI s h.1, ih s h.2⟩
  | draw next ih => exact ⟨hI s h.1, ih _ h.2⟩
  | ctl c next ih => exact ih h

/-- A program after another. -/
theorem Ensures.bind {p : Proc σ κ ε α} {f : α → Proc σ κ ε β} {R : β → σ → Prop}
    (h : p.Ensures I (fun a t => (f a).Ensures I R E t) E s) : (p >>= f).Ensures I R E s := by
  induction p generalizing s with
  | done a => exact h.2
  | fail e => exact h
  | act put next ih => exact ⟨h.1, ih s h.2⟩
  | draw next ih => exact ⟨h.1, ih _ h.2⟩
  | ctl c next ih => exact ih h

/-- A handler continues where the error was. -/
theorem Ensures.attempt {p : Proc σ κ ε α} {f : ε → Proc σ κ ε α}
    (h : p.Ensures I Q (fun e t => (f e).Ensures I Q E t) s) : (p.attempt f).Ensures I Q E s := by
  induction p generalizing s with
  | done a => exact h
  | fail e => exact h.2
  | act put next ih => exact ⟨h.1, ih s h.2⟩
  | draw next ih => exact ⟨h.1, ih _ h.2⟩
  | ctl c next ih => exact ih h

theorem Ensures.read {f : σ → α} (hI : I s) (hQ : Q (f s) s) : (Proc.read f : Proc σ κ ε α).Ensures I Q E s :=
  ⟨hI, hI, hQ⟩

/-- A single statement. -/
theorem Ensures.act {put : σ → σ → σ} {f : σ → α} (hI : I s) (hput : I (put s s)) (hQ : Q (f s) (put s s)) :
    (Proc.act put fun v => Pure.pure (f v) : Proc σ κ ε α).Ensures I Q E s := ⟨hI, hput, hQ⟩

/-- Two invariants of one run. -/
theorem Ensures.and {p : Proc σ κ ε α} (h : p.Ensures I Q E s) (h' : p.Ensures J Q' E' s) :
    p.Ensures (fun t => I t ∧ J t) (fun a t => Q a t ∧ Q' a t) (fun e t => E e t ∧ E' e t) s := by
  induction p generalizing s with
  | done a => exact ⟨⟨h.1, h'.1⟩, h.2, h'.2⟩
  | fail e => exact ⟨⟨h.1, h'.1⟩, h.2, h'.2⟩
  | act put next ih => exact ⟨⟨h.1, h'.1⟩, ih s h.2 h'.2⟩
  | draw next ih => exact ⟨⟨h.1, h'.1⟩, ih _ h.2 h'.2⟩
  | ctl c next ih => exact ih h h'

/-- **What every write keeps** holds at each moment. -/
theorem Ensures.of_writes {R : σ → σ → Prop} [Std.Refl R] [IsTrans σ R] {p : Proc σ κ ε α} (h : p.Writes R) (s : σ) :
    p.Ensures (R s) (fun _ => R s) (fun _ => R s) s := by
  have hall : ∀ (p : Proc σ κ ε α) (t : σ), p.Writes R → R s t →
      p.Ensures (R s) (fun _ => R s) (fun _ => R s) t := by
    intro p
    induction p with
    | done a => exact fun _ _ ht => ⟨ht, ht⟩
    | fail e => exact fun _ _ ht => ⟨ht, ht⟩
    | act put next ih =>
      exact fun t h ht => ⟨ht, ih t _ (h.2 t) (IsTrans.trans _ _ _ ht (h.1 t t))⟩
    | draw next ih =>
      exact fun t h ht => ⟨ht, ih _ _ (h.2 _) (IsTrans.trans _ _ _ ht (h.1 t))⟩
    | ctl c next ih => exact fun t h ht => ih t h ht
  exact hall p s h (refl s)

/-- What a run returns, and what it leaves. -/
theorem Ensures.of_run {p : Proc σ κ ε α} (h : ∀ a s', p.runBody s = (s', .ok a) → Q a s') :
    p.Ensures (fun _ => True) Q (fun _ _ => True) s := by
  induction p generalizing s with
  | done a => exact ⟨True.intro, h a s rfl⟩
  | fail e => exact ⟨True.intro, True.intro⟩
  | act put next ih => exact ⟨True.intro, ih s h⟩
  | draw next ih => exact ⟨True.intro, ih _ h⟩
  | ctl c next ih => exact ih h

/-! ### Runs -/

theorem Ensures.start {p : Proc σ κ ε α} (h : p.Ensures I Q E s) : I s := by
  induction p generalizing s with
  | done a => exact h.1
  | fail e => exact h.1
  | act put next _ => exact h.1
  | draw next _ => exact h.1
  | ctl c next ih => exact ih h

/-- **Wherever the program is stopped**, the invariant holds. -/
theorem Ensures.always {p : Proc σ κ ε α} (h : p.Ensures I Q E s) (n : ℕ) : I (p.stateAfter n s) := by
  induction p generalizing s n with
  | done a => cases n <;> exact h.1
  | fail e => cases n <;> exact h.1
  | act put next ih =>
    cases n with
    | zero => exact h.1
    | succ n => exact ih s h.2 n
  | draw next ih =>
    cases n with
    | zero => exact h.1
    | succ n => exact ih _ h.2 n
  | ctl c next ih =>
    cases n with
    | zero => exact Ensures.start (p := next) h
    | succ n => exact ih h n

/-- **What the program returns**, and the state it leaves. -/
theorem Ensures.of_runBody_ok {p : Proc σ κ ε α} (h : p.Ensures I Q E s) {a : α} (hrun : p.runBody s = (s', .ok a)) :
    I s' ∧ Q a s' := by
  induction p generalizing s with
  | done b =>
    cases hrun
    exact h
  | fail e => cases hrun
  | act put next ih => exact ih s h.2 hrun
  | draw next ih => exact ih _ h.2 hrun
  | ctl c next ih => exact ih h hrun

/-- **What it fails with**, and the state it leaves. -/
theorem Ensures.of_runBody_error {p : Proc σ κ ε α} (h : p.Ensures I Q E s) {e : ε}
    (hrun : p.runBody s = (s', .error e)) : I s' ∧ E e s' := by
  induction p generalizing s with
  | done b => cases hrun
  | fail f =>
    cases hrun
    exact h
  | act put next ih => exact ih s h.2 hrun
  | draw next ih => exact ih _ h.2 hrun
  | ctl c next ih => exact ih h hrun

/-! ### Invariants -/

/-- From each state with `I` the program has `I` at each moment, and what it returns is in `P`. -/
def Preserves (I : σ → Prop) (P : α → Prop) (p : Proc σ κ ε α) : Prop :=
  ∀ s, I s → p.Ensures I (fun a _ => P a) (fun _ _ => True) s

section Preserves

variable {P : α → Prop} {R : β → Prop}

theorem Preserves.pure {a : α} (h : P a) : (Pure.pure a : Proc σ κ ε α).Preserves I P := fun _ hs => ⟨hs, h⟩

theorem Preserves.fail {e : ε} : (Proc.fail e : Proc σ κ ε α).Preserves I P := fun _ hs => ⟨hs, True.intro⟩

theorem Preserves.act {put : σ → σ → σ} {f : σ → α} (hput : ∀ s, I s → I (put s s)) (hP : ∀ s, I s → P (f s)) :
    (Proc.act put fun v => Pure.pure (f v) : Proc σ κ ε α).Preserves I P := fun s hs =>
  .act hs (hput s hs) (hP s hs)

theorem Preserves.read {f : σ → α} (h : ∀ s, I s → P (f s)) : (Proc.read f : Proc σ κ ε α).Preserves I P :=
  fun s hs => .read hs (h s hs)

theorem Preserves.bind {p : Proc σ κ ε α} {f : α → Proc σ κ ε β} (h : p.Preserves I P)
    (hf : ∀ a, P a → (f a).Preserves I R) : (p >>= f).Preserves I R := fun s hs =>
  .bind ((h s hs).mono (fun _ ht => ht) (fun a t ht ha => hf a ha t ht) fun _ _ _ he => he)

theorem Preserves.mono {P' : α → Prop} {p : Proc σ κ ε α} (h : p.Preserves I P) (hP : ∀ a, P a → P' a) :
    p.Preserves I P' := fun s hs => (h s hs).mono (fun _ ht => ht) (fun a _ _ ha => hP a ha) fun _ _ _ he => he

/-- **Wherever the program is stopped.** -/
theorem Preserves.always {p : Proc σ κ ε α} (h : p.Preserves I P) (hs : I s) (n : ℕ) : I (p.stateAfter n s) :=
  (h s hs).always n

end Preserves

end Valv.Conc.Proc
