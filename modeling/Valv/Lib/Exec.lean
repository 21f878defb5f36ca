import Mathlib.Logic.Function.Iterate
import Valv.Lib.Proc

/-!
# Programs that run alone

A program nobody interleaves with sees its own writes at once, inside a transaction or not.

* `runBody`: the program statement by statement, brackets and keys ignored.
* `runBody_unprotected`, `exec_transaction`: a section run alone is its body run alone; a
  failed transaction only leaves its draws behind.
* `exec_eq_runBody`, `exec_bind`: what comes outside of transactions.
-/

namespace Valv.Conc.Proc

variable {σ κ ε α β : Type} [Sequence σ κ]

/-- The program alone on `s`, statement by statement. -/
def runBody : Proc σ κ ε α → σ → σ × Except ε α
  | .done a, s => (s, .ok a)
  | .fail e, s => (s, .error e)
  | .act put next, s => (next s).runBody (put s s)
  | .draw next, s => (next (Sequence.value κ s)).runBody (Sequence.bump κ s)
  | .ctl _ next, s => next.runBody s

theorem runBody_bind (p : Proc σ κ ε α) (f : α → Proc σ κ ε β) (s : σ) :
    (p >>= f).runBody s = match p.runBody s with
      | (s', .ok a) => (f a).runBody s'
      | (s', .error e) => (s', .error e) := by
  induction p generalizing s with
  | done a => rfl
  | fail e => rfl
  | act put next ih => exact ih s (put s s)
  | draw next ih => exact ih _ (Sequence.bump κ s)
  | ctl c next ih => exact ih s

theorem runBody_attempt (p : Proc σ κ ε α) (h : ε → Proc σ κ ε α) (s : σ) :
    (p.attempt h).runBody s = match p.runBody s with
      | (s', .ok a) => (s', .ok a)
      | (s', .error e) => (h e).runBody s' := by
  induction p generalizing s with
  | done a => rfl
  | fail e => rfl
  | act put next ih => exact ih s (put s s)
  | draw next ih => exact ih _ (Sequence.bump κ s)
  | ctl c next ih => exact ih s

theorem runBody_bind_of_ok {p : Proc σ κ ε α} {s s' : σ} {a : α} (h : p.runBody s = (s', .ok a))
    (f : α → Proc σ κ ε β) : (p >>= f).runBody s = (f a).runBody s' := by
  rw [runBody_bind, h]

/-- A sequence that succeeds is two parts that succeed. -/
theorem runBody_bind_ok {p : Proc σ κ ε α} {f : α → Proc σ κ ε β} {s s' : σ} {b : β}
    (h : (p >>= f).runBody s = (s', .ok b)) :
    ∃ s₁ a, p.runBody s = (s₁, .ok a) ∧ (f a).runBody s₁ = (s', .ok b) := by
  rw [runBody_bind] at h
  split at h
  · next s₁ a hp => exact ⟨s₁, a, hp, h⟩
  · cases h

@[simp] theorem runBody_pure (a : α) (s : σ) :
    (pure a : Proc σ κ ε α).runBody s = (s, .ok a) := rfl

@[simp] theorem runBody_fail (e : ε) (s : σ) :
    (Proc.fail e : Proc σ κ ε α).runBody s = (s, .error e) := rfl

@[simp] theorem runBody_read (f : σ → α) (s : σ) :
    (read f : Proc σ κ ε α).runBody s = (s, .ok (f s)) := rfl

theorem runBody_stmt (check : σ → Option ε) (write : σ → σ → σ) (s : σ) :
    (stmt check write : Proc σ κ ε Unit).runBody s = match check s with
      | none => (write s s, .ok ())
      | some e => (s, .error e) := by
  rw [stmt, runBody]
  cases check s <;> rfl

/-- A statement that succeeds has passed its check and written. -/
theorem runBody_stmt_ok {check : σ → Option ε} {write : σ → σ → σ} {s s' : σ} {u : Unit}
    (h : (stmt check write : Proc σ κ ε Unit).runBody s = (s', .ok u)) :
    check s = none ∧ s' = write s s := by
  rw [runBody_stmt] at h
  cases hc : check s with
  | none =>
    rw [hc] at h
    exact ⟨rfl, (Prod.mk.inj h).1.symm⟩
  | some e =>
    rw [hc] at h
    cases h

/-- What a statement in front of a program leaves: the state as it was, or what the program makes
of its write. -/
theorem runBody_stmt_bind {check : σ → Option ε} {write : σ → σ → σ} {f : Unit → Proc σ κ ε α} {s : σ}
    {P : σ → Prop} (hfail : P s) (hok : check s = none → P ((f ()).runBody (write s s)).1) :
    P ((stmt check write >>= f).runBody s).1 := by
  rw [runBody_bind, runBody_stmt]
  cases hc : check s with
  | some e => exact hfail
  | none => exact hok hc

theorem ReadOnly.runBody {p : Proc σ κ ε α} (hp : p.ReadOnly) (s : σ) : (p.runBody s).1 = s := by
  induction p with
  | done a => rfl
  | fail e => rfl
  | act put next ih =>
    rw [Proc.runBody, hp.1 s s]
    exact ih s (hp.2 s)
  | draw next _ => exact hp.elim
  | ctl c next _ => exact hp.elim

theorem ReadOnly.runBody_cases {p : Proc σ κ ε α} (hp : p.ReadOnly) (s : σ) :
    (∃ a, p.runBody s = (s, .ok a)) ∨ ∃ e, p.runBody s = (s, .error e) := by
  have hs := hp.runBody s
  rcases hrun : p.runBody s with ⟨s', e | a⟩
  · rw [hrun] at hs
    exact .inr ⟨e, by rw [← hs]⟩
  · rw [hrun] at hs
    exact .inl ⟨a, by rw [← hs]⟩

/-- A property that the first part leaves behind and the rest keeps. -/
theorem runBody_bind_keeps {p : Proc σ κ ε α} {f : α → Proc σ κ ε β} {P : σ → Prop} {s : σ}
    (hp : P (p.runBody s).1) (hf : ∀ a s₁, P s₁ → P ((f a).runBody s₁).1) : P ((p >>= f).runBody s).1 := by
  rw [runBody_bind]
  rcases hrun : p.runBody s with ⟨s₁, e | a⟩
  · rw [hrun] at hp
    exact hp
  · rw [hrun] at hp
    exact hf a s₁ hp

/-- A check that succeeds leaves the state to the rest. -/
theorem ReadOnly.runBody_bind_ok {p : Proc σ κ ε α} (hp : p.ReadOnly) {f : α → Proc σ κ ε β} {s s' : σ}
    {b : β} (h : (p >>= f).runBody s = (s', .ok b)) :
    ∃ a, p.runBody s = (s, .ok a) ∧ (f a).runBody s = (s', .ok b) := by
  obtain ⟨s₁, a, hrun, hrest⟩ := Proc.runBody_bind_ok h
  have hs := hp.runBody s
  rw [hrun] at hs
  have hs₁ : s₁ = s := hs
  subst hs₁
  exact ⟨a, hrun, hrest⟩

/-! ### Outside of transactions -/

/-- The program has no transaction brackets. -/
def Unbracketed : Proc σ κ ε α → Prop
  | .done _ => True
  | .fail _ => True
  | .act _ next => ∀ v, (next v).Unbracketed
  | .draw next => ∀ n, (next n).Unbracketed
  | .ctl .begin _ => False
  | .ctl .commit _ => False
  | .ctl .rollback _ => False
  | .ctl _ next => next.Unbracketed

omit [Sequence σ κ] in
theorem ReadOnly.unbracketed {p : Proc σ κ ε α} (hp : p.ReadOnly) : p.Unbracketed := by
  induction p with
  | done a => exact True.intro
  | fail e => exact True.intro
  | act put next ih => exact fun v => ih v (hp.2 v)
  | draw next _ => exact hp.elim
  | ctl c next _ => exact hp.elim

/-- Outside of transactions the writes appear at once. -/
theorem exec_eq_runBody {p : Proc σ κ ε α} (h : p.Unbracketed) (s : σ) :
    p.exec s none = p.runBody s := by
  induction p generalizing s with
  | done a => rfl
  | fail e => rfl
  | act put next ih => exact ih s (h s) _
  | draw next ih => exact ih _ (h _) _
  | ctl c next ih =>
    cases c with
    | begin => exact h.elim
    | commit => exact h.elim
    | rollback => exact h.elim
    | lock k => exact ih h s
    | claim k => exact ih h s
    | release => exact ih h s

omit [Sequence σ κ] in
theorem Unbracketed.bind {p : Proc σ κ ε α} {f : α → Proc σ κ ε β} (hp : p.Unbracketed)
    (hf : ∀ a, (f a).Unbracketed) : (p >>= f).Unbracketed := by
  induction p with
  | done a => exact hf a
  | fail e => exact True.intro
  | act put next ih => exact fun v => ih v (hp v)
  | draw next ih => exact fun n => ih n (hp n)
  | ctl c next ih =>
    cases c with
    | begin => exact hp.elim
    | commit => exact hp.elim
    | rollback => exact hp.elim
    | _ => exact ih hp

omit [Sequence σ κ] in
theorem Unbracketed.attempt {p : Proc σ κ ε α} {h : ε → Proc σ κ ε α} (hp : p.Unbracketed)
    (hh : ∀ e, (h e).Unbracketed) : (p.attempt h).Unbracketed := by
  induction p with
  | done a => exact True.intro
  | fail e => exact hh e
  | act put next ih => exact fun v => ih v (hp v)
  | draw next ih => exact fun n => ih n (hp n)
  | ctl c next ih =>
    cases c with
    | begin => exact hp.elim
    | commit => exact hp.elim
    | rollback => exact hp.elim
    | _ => exact ih hp

omit [Sequence σ κ] in
theorem Unbracketed.unprotected {p : Proc σ κ ε α} (hp : p.Unbracketed) (k : κ) :
    (unprotected k p).Unbracketed := by
  have hbody : (p.attempt fun e => .ctl .release (.fail e)).Unbracketed :=
    hp.attempt fun _ => True.intro
  exact hbody.bind fun _ => True.intro

omit [Sequence σ κ] in
theorem Unbracketed.stmt (check : σ → Option ε) (write : σ → σ → σ) :
    (Proc.stmt check write : Proc σ κ ε Unit).Unbracketed := by
  intro v
  dsimp only
  cases check v <;> exact True.intro

/-- A direct program has no brackets. -/
theorem Direct.unbracketed {R : σ → σ → Prop} {p : Proc σ κ ε α} (hp : p.Direct R) :
    p.Unbracketed := by
  induction p with
  | done a => exact True.intro
  | fail e => exact True.intro
  | act put next ih => exact fun v => ih v (hp.2 v)
  | draw next ih => exact fun n => ih n (hp.2 n)
  | ctl c next ih =>
    cases c with
    | begin => exact hp.elim
    | commit => exact hp.elim
    | rollback => exact hp.elim
    | _ => exact ih hp

/-- An unprotected section alone is its body alone. -/
theorem runBody_unprotected (k : κ) (p : Proc σ κ ε α) (s : σ) :
    (unprotected k p).runBody s = p.runBody s := by
  rw [unprotected, runBody, runBody_bind, runBody_attempt]
  split
  · next s' a h =>
    split at h
    · next s₁ b hp =>
      rw [hp]
      exact h.symm
    · cases h
  · next s' e h =>
    split at h
    · cases h
    · next s₁ e' hp =>
      rw [hp]
      exact h.symm

theorem exec_bind (p : Proc σ κ ε α) (f : α → Proc σ κ ε β) (hp : p.Unbracketed) (s : σ) :
    (p >>= f).exec s none = match p.runBody s with
      | (s', .ok a) => (f a).exec s' none
      | (s', .error e) => (s', .error e) := by
  induction p generalizing s with
  | done a => rfl
  | fail e => rfl
  | act put next ih => exact ih s (hp s) _
  | draw next ih => exact ih _ (hp _) _
  | ctl c next ih =>
    cases c with
    | begin => exact hp.elim
    | commit => exact hp.elim
    | rollback => exact hp.elim
    | lock k => exact ih hp s
    | claim k => exact ih hp s
    | release => exact ih hp s

/-- What a check that only reads leaves to the rest of the program. -/
theorem ReadOnly.exec_bind {p : Proc σ κ ε α} (hp : p.ReadOnly) {f : α → Proc σ κ ε β} {s : σ}
    {P : σ → Prop} (hfail : P s) (hok : ∀ a, p.runBody s = (s, .ok a) → P ((f a).exec s none).1) :
    P ((p >>= f).exec s none).1 := by
  rw [Proc.exec_bind p f hp.unbracketed]
  rcases hp.runBody_cases s with ⟨a, hrun⟩ | ⟨e, hrun⟩
  · rw [hrun]
    exact hok a hrun
  · rw [hrun]
    exact hfail

/-- A check that succeeds leaves the state to the rest. -/
theorem ReadOnly.exec_bind_ok {p : Proc σ κ ε α} (hp : p.ReadOnly) {f : α → Proc σ κ ε β} {s s' : σ} {b : β}
    (h : (p >>= f).exec s none = (s', .ok b)) :
    ∃ a, p.runBody s = (s, .ok a) ∧ (f a).exec s none = (s', .ok b) := by
  rw [Proc.exec_bind p f hp.unbracketed] at h
  rcases hp.runBody_cases s with ⟨a, hrun⟩ | ⟨e, hrun⟩
  · rw [hrun] at h
    exact ⟨a, hrun, h⟩
  · rw [hrun] at h
    cases h

/-! ### Inside a transaction -/

/-- Every write commutes with the sequence, and nothing ends the transaction. -/
def Steady : Proc σ κ ε α → Prop
  | .done _ => True
  | .fail _ => True
  | .act put next => (∀ v s, Sequence.value κ (put v s) = Sequence.value κ s ∧
      put v (Sequence.bump κ s) = Sequence.bump κ (put v s)) ∧ ∀ v, (next v).Steady
  | .draw next => ∀ n, (next n).Steady
  | .ctl (.lock _) next => next.Steady
  | .ctl _ _ => False

theorem Steady.bind {p : Proc σ κ ε α} {f : α → Proc σ κ ε β} (hp : p.Steady)
    (hf : ∀ a, (f a).Steady) : (p >>= f).Steady := by
  induction p with
  | done a => exact hf a
  | fail e => exact True.intro
  | act put next ih => exact ⟨hp.1, fun v => ih v (hp.2 v)⟩
  | draw next ih => exact fun n => ih n (hp n)
  | ctl c next ih =>
    cases c with
    | lock k => exact ih hp
    | _ => exact hp.elim

theorem Steady.stmt {check : σ → Option ε} {write : σ → σ → σ}
    (h : ∀ v s, Sequence.value κ (write v s) = Sequence.value κ s ∧
      write v (Sequence.bump κ s) = Sequence.bump κ (write v s)) :
    (stmt check write : Proc σ κ ε Unit).Steady := by
  refine ⟨fun v s => ?_, fun v => ?_⟩
  · dsimp only
    cases check v with
    | none => exact h v s
    | some e => exact ⟨rfl, rfl⟩
  · dsimp only
    cases check v <;> exact True.intro

theorem Steady.read (f : σ → α) : (read f : Proc σ κ ε α).Steady :=
  ⟨fun _ _ => ⟨rfl, rfl⟩, fun _ => True.intro⟩

theorem ReadOnly.steady {p : Proc σ κ ε α} (hp : p.ReadOnly) : p.Steady := by
  induction p with
  | done a => exact True.intro
  | fail e => exact True.intro
  | act put next ih =>
    exact ⟨fun v s => ⟨by rw [hp.1], by rw [hp.1, hp.1]⟩, fun v => ih v (hp.2 v)⟩
  | draw next _ => exact hp.elim
  | ctl c next _ => exact hp.elim

/-- A handler behind a transaction starts once the transaction is over. -/
theorem exec_attempt_bracket {p : Proc σ κ ε α} (hp : p.Steady) (h : ε → Proc σ κ ε α) (w : σ → σ)
    (s : σ) :
    (((p.attempt fun e => .ctl .rollback (.fail e)) >>= fun a =>
        .ctl .commit (.done a)).attempt h).exec s (some w) =
      match ((p.attempt fun e => .ctl .rollback (.fail e)) >>= fun a =>
        .ctl .commit (.done a)).exec s (some w) with
      | (s', .ok a) => (s', .ok a)
      | (s', .error e) => (h e).exec s' none := by
  induction p generalizing w s with
  | done a => rfl
  | fail e => rfl
  | act put next ih => exact ih (w s) (hp.2 _) _ s
  | draw next ih => exact ih _ (hp _) w _
  | ctl c next ih =>
    cases c with
    | lock k => exact ih hp w s
    | _ => exact hp.elim

theorem exec_transaction_attempt {p : Proc σ κ ε α} (hp : p.Steady) (h : ε → Proc σ κ ε α) (s : σ) :
    ((transaction p).attempt h).exec s none = match (transaction p).exec s none with
      | (s', .ok a) => (s', .ok a)
      | (s', .error e) => (h e).exec s' none :=
  exec_attempt_bracket hp h id s

/-- What stands behind a transaction starts once the transaction is over. -/
theorem exec_bracket_bind {p : Proc σ κ ε α} (hp : p.Steady) (f : α → Proc σ κ ε β) (w : σ → σ) (s : σ) :
    (((p.attempt fun e => .ctl .rollback (.fail e)) >>= fun a =>
        .ctl .commit (.done a)) >>= f).exec s (some w) =
      match ((p.attempt fun e => .ctl .rollback (.fail e)) >>= fun a =>
        .ctl .commit (.done a)).exec s (some w) with
      | (s', .ok a) => (f a).exec s' none
      | (s', .error e) => (s', .error e) := by
  induction p generalizing w s with
  | done a => rfl
  | fail e => rfl
  | act put next ih => exact ih (w s) (hp.2 _) _ s
  | draw next ih => exact ih _ (hp _) w _
  | ctl c next ih =>
    cases c with
    | lock k => exact ih hp w s
    | _ => exact hp.elim

theorem exec_transaction_bind {p : Proc σ κ ε α} (hp : p.Steady) (f : α → Proc σ κ ε β) (s : σ) :
    (transaction p >>= f).exec s none = match (transaction p).exec s none with
      | (s', .ok a) => (f a).exec s' none
      | (s', .error e) => (s', .error e) :=
  exec_bracket_bind hp f id s

/-- A transaction run alone, from uncommitted writes `w` on top of `s`: it commits what its
body has written, or leaves nothing but its draws. -/
theorem exec_bracket {p : Proc σ κ ε α} (hp : p.Steady) {w : σ → σ} {s : σ}
    (hv : ∀ s, Sequence.value κ (w s) = Sequence.value κ s)
    (hb : ∀ s, w (Sequence.bump κ s) = Sequence.bump κ (w s)) :
    match p.runBody (w s) with
    | (v, .ok a) => ((p.attempt fun e => .ctl .rollback (.fail e)) >>= fun a =>
        .ctl .commit (.done a)).exec s (some w) = (v, .ok a)
    | (_, .error e) => ∃ n, ((p.attempt fun e => .ctl .rollback (.fail e)) >>= fun a =>
        .ctl .commit (.done a)).exec s (some w) = ((Sequence.bump κ)^[n] s, .error e) := by
  induction p generalizing w s with
  | done a => rfl
  | fail e => exact ⟨0, rfl⟩
  | act put next ih =>
    have hput := hp.1 (w s)
    exact ih (w s) (hp.2 _) (w := fun x => put (w s) (w x)) (fun x => ((hput (w x)).1).trans (hv x))
      (fun x => by rw [hb, (hput (w x)).2])
  | draw next ih =>
    have h := ih (Sequence.value κ s) (hp _) (w := w) (s := Sequence.bump κ s) hv hb
    rw [hb] at h
    rw [runBody, hv]
    split at h
    · exact h
    · obtain ⟨n, hn⟩ := h
      exact ⟨n + 1, hn⟩
  | ctl c next ih =>
    cases c with
    | lock k => exact ih hp hv hb
    | _ => exact hp.elim

/-- **A transaction run alone**: the body alone, or nothing but its draws. -/
theorem exec_transaction {p : Proc σ κ ε α} (hp : p.Steady) (s : σ) :
    (∃ s' a, p.runBody s = (s', .ok a) ∧ (transaction p).exec s none = (s', .ok a)) ∨
    ∃ s' e n, p.runBody s = (s', .error e) ∧
      (transaction p).exec s none = ((Sequence.bump κ)^[n] s, .error e) := by
  have hb := exec_bracket hp (w := id) (s := s) (fun _ => rfl) fun _ => rfl
  have hid : id s = s := rfl
  rw [hid] at hb
  split at hb
  · next v a hrun => exact .inl ⟨v, a, hrun, hb⟩
  · next v e hrun =>
    obtain ⟨n, hn⟩ := hb
    exact .inr ⟨v, e, n, hrun, hn⟩

end Valv.Conc.Proc
