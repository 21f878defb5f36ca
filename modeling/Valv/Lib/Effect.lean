import Mathlib.Order.Defs.Unbundled
import Valv.Lib.Exec
import Valv.Lib.Schedule

/-!
# What a program can write

* `Writes R`: every write of a program satisfies `R`, whatever view it is chosen from and
  whatever state it is applied to, so also where a transaction holds it back.
* `Writes.exec`: a program run alone has an effect in `R`.
* `Returns P`: whatever views it sees, a program returns nothing but values in `P`.
* `Pool.Confined`: the writes of thread `i` satisfy `R i`.  One scheduled statement of the
  thread then has an effect in `R i`, a commit included.
-/

namespace Valv.Conc

variable {σ κ ε α β : Type} [Sequence σ κ]

namespace Proc

/-- Every write satisfies `R`, on any state and from any view. -/
def Writes (R : σ → σ → Prop) : Proc σ κ ε α → Prop
  | .done _ => True
  | .fail _ => True
  | .act put next => (∀ v s, R s (put v s)) ∧ ∀ v, (next v).Writes R
  | .draw next => (∀ s, R s (Sequence.bump κ s)) ∧ ∀ n, (next n).Writes R
  | .ctl _ next => next.Writes R

variable {R R' : σ → σ → Prop}

theorem Writes.mono {p : Proc σ κ ε α} (h : p.Writes R) (hR : ∀ s s', R s s' → R' s s') :
    p.Writes R' := by
  induction p with
  | done a => exact True.intro
  | fail e => exact True.intro
  | act put next ih => exact ⟨fun v s => hR _ _ (h.1 v s), fun v => ih v (h.2 v)⟩
  | draw next ih => exact ⟨fun s => hR _ _ (h.1 s), fun n => ih n (h.2 n)⟩
  | ctl c next ih => exact ih h

theorem Writes.bind {p : Proc σ κ ε α} {f : α → Proc σ κ ε β} (h : p.Writes R)
    (hf : ∀ a, (f a).Writes R) : (p >>= f).Writes R := by
  induction p with
  | done a => exact hf a
  | fail e => exact True.intro
  | act put next ih => exact ⟨h.1, fun v => ih v (h.2 v)⟩
  | draw next ih => exact ⟨h.1, fun n => ih n (h.2 n)⟩
  | ctl c next ih => exact ih h

/-- Every value that the program can return is in `P`. -/
def Returns (P : α → Prop) : Proc σ κ ε α → Prop
  | .done a => P a
  | .fail _ => True
  | .act _ next => ∀ v, (next v).Returns P
  | .draw next => ∀ n, (next n).Returns P
  | .ctl _ next => next.Returns P

omit [Sequence σ κ] in
theorem Returns.bind {P : α → Prop} {Q : β → Prop} {p : Proc σ κ ε α} {f : α → Proc σ κ ε β} (h : p.Returns P)
    (hf : ∀ a, P a → (f a).Returns Q) : (p >>= f).Returns Q := by
  induction p with
  | done a => exact hf a h
  | fail e => exact True.intro
  | act put next ih => exact fun v => ih v (h v)
  | draw next ih => exact fun n => ih n (h n)
  | ctl c next ih => exact ih h

omit [Sequence σ κ] in
theorem Returns.mono {P Q : α → Prop} {p : Proc σ κ ε α} (h : p.Returns P) (hPQ : ∀ a, P a → Q a) : p.Returns Q := by
  induction p with
  | done a => exact hPQ a h
  | fail e => exact True.intro
  | act put next ih => exact fun v => ih v (h v)
  | draw next ih => exact fun n => ih n (h n)
  | ctl c next ih => exact ih h

omit [Sequence σ κ] in
theorem Returns.trivial (p : Proc σ κ ε α) : p.Returns fun _ => True := by
  induction p with
  | done a => exact True.intro
  | fail e => exact True.intro
  | act put next ih => exact ih
  | draw next ih => exact ih
  | ctl c next ih => exact ih

/-- What a run returns is in `P`. -/
theorem Returns.of_runBody {P : α → Prop} {p : Proc σ κ ε α} (h : p.Returns P) {s s' : σ} {a : α}
    (hrun : p.runBody s = (s', .ok a)) : P a := by
  induction p generalizing s with
  | done b =>
    cases hrun
    exact h
  | fail e => cases hrun
  | act put next ih => exact ih s (h s) hrun
  | draw next ih => exact ih _ (h _) hrun
  | ctl c next ih => exact ih h hrun

/-- What follows is only run on what the first part returns. -/
theorem Writes.bind_of_returns {P : α → Prop} {p : Proc σ κ ε α} {f : α → Proc σ κ ε β} (h : p.Writes R)
    (hp : p.Returns P) (hf : ∀ a, P a → (f a).Writes R) : (p >>= f).Writes R := by
  induction p with
  | done a => exact hf a hp
  | fail e => exact True.intro
  | act put next ih => exact ⟨h.1, fun v => ih v (h.2 v) (hp v)⟩
  | draw next ih => exact ⟨h.1, fun n => ih n (h.2 n) (hp n)⟩
  | ctl c next ih => exact ih h hp

theorem Writes.attempt {p : Proc σ κ ε α} {f : ε → Proc σ κ ε α} (h : p.Writes R)
    (hf : ∀ e, (f e).Writes R) : (p.attempt f).Writes R := by
  induction p with
  | done a => exact True.intro
  | fail e => exact hf e
  | act put next ih => exact ⟨h.1, fun v => ih v (h.2 v)⟩
  | draw next ih => exact ⟨h.1, fun n => ih n (h.2 n)⟩
  | ctl c next ih => exact ih h

theorem Writes.transaction {p : Proc σ κ ε α} (h : p.Writes R) : (Proc.transaction p).Writes R := by
  have hbody : (p.attempt fun e => .ctl .rollback (.fail e)).Writes R := h.attempt fun _ => True.intro
  exact hbody.bind fun _ => True.intro

theorem Writes.unprotected {p : Proc σ κ ε α} (h : p.Writes R) (k : κ) : (Proc.unprotected k p).Writes R := by
  have hbody : (p.attempt fun e => .ctl .release (.fail e)).Writes R := h.attempt fun _ => True.intro
  exact hbody.bind fun _ => True.intro

section Closed

variable [Std.Refl R]

theorem Writes.stmt {check : σ → Option ε} {write : σ → σ → σ} (h : ∀ v s, R s (write v s)) :
    (Proc.stmt check write : Proc σ κ ε Unit).Writes R := by
  refine ⟨fun v s => ?_, fun v => ?_⟩
  · dsimp only
    split
    · exact h v s
    · exact refl s
  · dsimp only
    cases check v <;> exact True.intro

theorem ReadOnly.writes {p : Proc σ κ ε α} (hp : p.ReadOnly) : p.Writes R := by
  induction p with
  | done a => exact True.intro
  | fail e => exact True.intro
  | act put next ih =>
    refine ⟨fun v s => ?_, fun v => ih v (hp.2 v)⟩
    rw [hp.1 v s]
    exact refl s
  | draw next _ => exact hp.elim
  | ctl c next _ => exact hp.elim

theorem Writes.read (f : σ → α) : (Proc.read f : Proc σ κ ε α).Writes R := (readOnly_read f).writes

variable [IsTrans σ R]

/-- The program statement by statement has an effect in `R`. -/
theorem Writes.runBody {p : Proc σ κ ε α} (h : p.Writes R) (s : σ) : R s (p.runBody s).1 := by
  induction p generalizing s with
  | done a => exact refl s
  | fail e => exact refl s
  | act put next ih => exact IsTrans.trans _ _ _ (h.1 s s) (ih s (h.2 s) _)
  | draw next ih => exact IsTrans.trans _ _ _ (h.1 s) (ih _ (h.2 _) _)
  | ctl c next ih => exact ih h s

theorem Writes.of_runBody {p : Proc σ κ ε α} (h : p.Writes R) {s s' : σ} {res : Except ε α}
    (hrun : p.runBody s = (s', res)) : R s s' := by
  have hR := h.runBody s
  rw [hrun] at hR
  exact hR

/-- **A program run alone** has an effect in `R`, its transactions included. -/
theorem Writes.exec {p : Proc σ κ ε α} (h : p.Writes R) (s : σ) {w : Option (σ → σ)}
    (hw : ∀ u ∈ w, ∀ x, R x (u x)) : R s (p.exec s w).1 := by
  induction p generalizing s w with
  | done a => exact refl s
  | fail e => exact refl s
  | act put next ih =>
    cases w with
    | none => exact IsTrans.trans _ _ _ (h.1 s s) (ih s (h.2 s) _ hw)
    | some u =>
      have hu : ∀ x, R x (put (u s) (u x)) := fun x => IsTrans.trans _ _ _ (hw u rfl x) (h.1 _ _)
      refine ih (u s) (h.2 _) s fun u' hu' => ?_
      cases hu'
      exact hu
  | draw next ih => exact IsTrans.trans _ _ _ (h.1 s) (ih _ (h.2 _) _ hw)
  | ctl c next ih =>
    cases c with
    | begin =>
      refine ih h s fun u hu => ?_
      cases hu
      exact fun x => refl x
    | commit =>
      have hcommit : R s (w.getD id s) := by
        cases w with
        | none => exact refl s
        | some u => exact hw u rfl s
      exact IsTrans.trans _ _ _ hcommit (ih h _ fun u hu => absurd hu nofun)
    | rollback => exact ih h s fun u hu => absurd hu nofun
    | lock k => exact ih h s hw
    | claim k => exact ih h s hw
    | release => exact ih h s hw

/-- **A direct program run alone** has an effect in `R`. -/
theorem Direct.exec {p : Proc σ κ ε α} (h : p.Direct R) (s : σ) : R s (p.exec s none).1 := by
  rw [exec_eq_runBody h.unbracketed]
  induction p generalizing s with
  | done a => exact refl s
  | fail e => exact refl s
  | act put next ih => exact IsTrans.trans _ _ _ (h.1 s) (ih s (h.2 s) _)
  | draw next ih => exact IsTrans.trans _ _ _ (h.1 s) (ih _ (h.2 _) _)
  | ctl c next ih =>
    cases c with
    | begin => exact h.elim
    | commit => exact h.elim
    | rollback => exact h.elim
    | _ => exact ih h s

end Closed

end Proc

/-! ### Pools -/

namespace Pool

variable [DecidableEq κ] {R : ℕ → σ → σ → Prop}

/-- Every write of thread `i` satisfies `R i`, the ones it holds back included. -/
def Confined (R : ℕ → σ → σ → Prop) (p : Pool σ κ ε α) : Prop :=
  ∀ i t, p.threads[i]? = some t → t.prog.Writes (R i) ∧ ∀ w ∈ t.pending, ∀ s, R i s (w s)

omit [DecidableEq κ] in
theorem Confined.start {s : σ} {progs : List (Proc σ κ ε α)}
    (h : ∀ (i : ℕ) (prog : Proc σ κ ε α), progs[i]? = some prog → prog.Writes (R i)) : Confined R (Pool.start s progs) := by
  intro i t ht
  simp only [Pool.start, List.getElem?_map, Option.map_eq_some_iff] at ht
  obtain ⟨prog, hprog, rfl⟩ := ht
  exact ⟨h i prog hprog, fun w hw => absurd hw (Option.not_mem_none w)⟩

omit [DecidableEq κ] in
/-- What one statement of a thread writes. -/
theorem Confined.thread {R : σ → σ → Prop} [Std.Refl R] [IsTrans σ R] {t t' : Thread σ κ ε α}
    {s s' : σ} {busy : κ → Bool} (hp : t.prog.Writes R) (hw : ∀ w ∈ t.pending, ∀ s, R s (w s))
    (hs : t.step busy s = some (s', t')) :
    (t'.prog.Writes R ∧ ∀ w ∈ t'.pending, ∀ s, R s (w s)) ∧ R s s' := by
  obtain ⟨prog, held, pending⟩ := t
  cases prog with
  | done a => simp [Thread.step] at hs
  | fail e => simp [Thread.step] at hs
  | act put next =>
    cases pending with
    | none =>
      simp only [Thread.step, Option.some.injEq, Prod.mk.injEq] at hs
      obtain ⟨rfl, rfl⟩ := hs
      exact ⟨⟨hp.2 s, hw⟩, hp.1 s s⟩
    | some w =>
      simp only [Thread.step, Option.some.injEq, Prod.mk.injEq] at hs
      obtain ⟨rfl, rfl⟩ := hs
      have hu : ∀ x, R x (put (w s) (w x)) := fun x => IsTrans.trans _ _ _ (hw w rfl x) (hp.1 _ _)
      refine ⟨⟨hp.2 _, fun w' hw' => ?_⟩, refl s⟩
      cases hw'
      exact hu
  | draw next =>
    simp only [Thread.step, Option.some.injEq, Prod.mk.injEq] at hs
    obtain ⟨rfl, rfl⟩ := hs
    exact ⟨⟨hp.2 _, hw⟩, hp.1 s⟩
  | ctl c next =>
    cases c with
    | begin =>
      simp only [Thread.step, Option.some.injEq, Prod.mk.injEq] at hs
      obtain ⟨rfl, rfl⟩ := hs
      refine ⟨⟨hp, fun w' hw' => ?_⟩, refl s⟩
      cases hw'
      exact fun x => refl x
    | commit =>
      simp only [Thread.step, Option.some.injEq, Prod.mk.injEq] at hs
      obtain ⟨rfl, rfl⟩ := hs
      refine ⟨⟨hp, fun w' hw' => absurd hw' (Option.not_mem_none w')⟩, ?_⟩
      cases pending with
      | none => exact refl s
      | some w => exact hw w rfl s
    | rollback =>
      simp only [Thread.step, Option.some.injEq, Prod.mk.injEq] at hs
      obtain ⟨rfl, rfl⟩ := hs
      exact ⟨⟨hp, fun w' hw' => absurd hw' (Option.not_mem_none w')⟩, refl s⟩
    | lock k =>
      simp only [Thread.step] at hs
      split at hs
      · cases hs
      · simp only [Option.some.injEq, Prod.mk.injEq] at hs
        obtain ⟨rfl, rfl⟩ := hs
        exact ⟨⟨hp, hw⟩, refl s⟩
    | claim k =>
      simp only [Thread.step, Option.some.injEq, Prod.mk.injEq] at hs
      obtain ⟨rfl, rfl⟩ := hs
      exact ⟨⟨hp, hw⟩, refl s⟩
    | release =>
      simp only [Thread.step, Option.some.injEq, Prod.mk.injEq] at hs
      obtain ⟨rfl, rfl⟩ := hs
      exact ⟨⟨hp, hw⟩, refl s⟩

/-- **One scheduled statement** of thread `i` has an effect in `R i`. -/
theorem Confined.step [∀ i, Std.Refl (R i)] [∀ i, IsTrans σ (R i)] {p p' : Pool σ κ ε α} {i : ℕ}
    (h : Confined R p) (hs : p.step i = some p') : Confined R p' ∧ R i p.state p'.state := by
  obtain ⟨t, t', s', ht, hst, rfl⟩ := step_cases hs
  obtain ⟨hp, hw⟩ := h i t ht
  obtain ⟨ht', hR⟩ := Confined.thread hp hw hst
  refine ⟨fun j u hu => ?_, hR⟩
  rcases getElem?_set_cases hu with ⟨rfl, rfl⟩ | ⟨-, hu⟩
  · exact ht'
  · exact h j u hu

end Pool

end Valv.Conc
