import Valv.Lib.Run

/-!
# Concurrent programs of atomic statements

A program (`Proc`) is a sequence of *statements* on a shared state.  One statement is
atomic; between two statements every other program may run.  This is the shape of code
that awaits one database call after another.

* `Proc.act put next`: read the state, write to it, continue with what was read.  The
  write `put v` is chosen from the view `v` the statement sees.
* `Proc.draw`: take the next value of the sequence in the state.  A draw takes effect at
  once, also inside a transaction, and the key of the value belongs to the program from
  then on.
* `Proc.ctl`: transaction brackets and keys.  `lock` waits until the key is free, `claim`
  only records that the program is inside an unprotected section for the key.

A `Thread` is a program with the keys it holds and, inside a transaction, the writes it
has not committed yet: its statements see them on top of the committed state, nobody else
does.  A `Pool` runs any number of threads on one state, in any order (`Pool.step`).
-/

namespace Valv.Conc

/-- Transaction brackets and keys. -/
inductive Ctl (κ : Type) where
  | begin
  | commit
  | rollback
  | lock (k : κ)
  | claim (k : κ)
  | release

/-- A sequence kept in the state: its next value, the state once that value is taken, and
the key that belongs to whoever took it. -/
class Sequence (σ κ : Type) where
  value : σ → ℕ
  bump : σ → σ
  key : ℕ → κ

/-- A program over the state `σ` with keys `κ`, errors `ε` and result `α`. -/
inductive Proc (σ κ ε α : Type) where
  | done (a : α)
  | fail (e : ε)
  | act (put : σ → σ → σ) (next : σ → Proc σ κ ε α)
  | draw (next : ℕ → Proc σ κ ε α)
  | ctl (c : Ctl κ) (next : Proc σ κ ε α)

namespace Proc

variable {σ κ ε α β : Type}

/-- Sequencing; an error skips the continuation. -/
def bind : Proc σ κ ε α → (α → Proc σ κ ε β) → Proc σ κ ε β
  | .done a, f => f a
  | .fail e, _ => .fail e
  | .act put next, f => .act put fun v => (next v).bind f
  | .draw next, f => .draw fun n => (next n).bind f
  | .ctl c next, f => .ctl c (next.bind f)

/-- `try ... catch`: the handler continues from the state the error left. -/
def attempt : Proc σ κ ε α → (ε → Proc σ κ ε α) → Proc σ κ ε α
  | .done a, _ => .done a
  | .fail e, h => h e
  | .act put next, h => .act put fun v => (next v).attempt h
  | .draw next, h => .draw fun n => (next n).attempt h
  | .ctl c next, h => .ctl c (next.attempt h)

instance : Monad (Proc σ κ ε) where
  pure := .done
  bind := bind

/-- A statement that only reads. -/
def read (f : σ → α) : Proc σ κ ε α := .act (fun _ s => s) fun v => .done (f v)

/-- A statement that writes when its check accepts the view it sees, and fails otherwise. -/
def stmt (check : σ → Option ε) (write : σ → σ → σ) : Proc σ κ ε Unit :=
  .act (fun v s => if (check v).isNone then write v s else s)
    fun v => match check v with
      | none => .done ()
      | some e => .fail e

@[simp] theorem done_bind (a : α) (f : α → Proc σ κ ε β) : (Proc.done a >>= f) = f a := rfl

@[simp] theorem pure_bind (a : α) (f : α → Proc σ κ ε β) : ((pure a : Proc σ κ ε α) >>= f) = f a :=
  rfl

@[simp] theorem fail_bind (e : ε) (f : α → Proc σ κ ε β) :
    ((Proc.fail e : Proc σ κ ε α) >>= f) = .fail e := rfl

@[simp] theorem act_bind (put : σ → σ → σ) (next : σ → Proc σ κ ε α) (f : α → Proc σ κ ε β) :
    (Proc.act put next >>= f) = .act put fun v => next v >>= f := rfl

@[simp] theorem draw_bind (next : ℕ → Proc σ κ ε α) (f : α → Proc σ κ ε β) :
    (Proc.draw next >>= f) = .draw fun n => next n >>= f := rfl

@[simp] theorem ctl_bind (c : Ctl κ) (next : Proc σ κ ε α) (f : α → Proc σ κ ε β) :
    (Proc.ctl c next >>= f) = .ctl c (next >>= f) := rfl

/-- The program reads, and does nothing else. -/
def ReadOnly : Proc σ κ ε α → Prop
  | .done _ => True
  | .fail _ => True
  | .act put next => (∀ v s, put v s = s) ∧ ∀ v, (next v).ReadOnly
  | .draw _ => False
  | .ctl _ _ => False

theorem readOnly_read (f : σ → α) : (read f : Proc σ κ ε α).ReadOnly :=
  ⟨fun _ _ => rfl, fun _ => True.intro⟩

theorem ReadOnly.bind {p : Proc σ κ ε α} {f : α → Proc σ κ ε β} (h : p.ReadOnly)
    (hf : ∀ a, (f a).ReadOnly) : (p >>= f).ReadOnly := by
  induction p with
  | done a => exact hf a
  | fail e => exact True.intro
  | act put next ih => exact ⟨h.1, fun v => ih v (h.2 v)⟩
  | draw next _ => exact h.elim
  | ctl c next _ => exact h.elim

/-- The program only reads, and from views in `I` it returns values in `P`. -/
def Yields (I : σ → Prop) (P : α → Prop) : Proc σ κ ε α → Prop
  | .done a => P a
  | .fail _ => True
  | .act put next => (∀ v s, put v s = s) ∧ ∀ v, I v → (next v).Yields I P
  | .draw _ => False
  | .ctl _ _ => False

theorem yields_read {I : σ → Prop} {P : α → Prop} {f : σ → α} (h : ∀ v, I v → P (f v)) :
    (read f : Proc σ κ ε α).Yields I P := ⟨fun _ _ => rfl, h⟩

theorem ReadOnly.yields {I : σ → Prop} {p : Proc σ κ ε α} (hp : p.ReadOnly) : p.Yields I fun _ => True := by
  induction p with
  | done a => exact True.intro
  | fail e => exact True.intro
  | act put next ih => exact ⟨hp.1, fun v _ => ih v (hp.2 v)⟩
  | draw next _ => exact hp.elim
  | ctl c next _ => exact hp.elim

theorem Yields.bind {I : σ → Prop} {P : α → Prop} {Q : β → Prop} {p : Proc σ κ ε α} {f : α → Proc σ κ ε β}
    (hp : p.Yields I P) (hf : ∀ a, P a → (f a).Yields I Q) : (p >>= f).Yields I Q := by
  induction p with
  | done a => exact hf a hp
  | fail e => exact True.intro
  | act put next ih => exact ⟨hp.1, fun v hv => ih v (hp.2 v hv)⟩
  | draw next _ => exact hp.elim
  | ctl c next _ => exact hp.elim

/-- Every statement takes effect at once and satisfies `R`: there are no transactions. -/
def Direct [Sequence σ κ] (R : σ → σ → Prop) : Proc σ κ ε α → Prop
  | .done _ => True
  | .fail _ => True
  | .act put next => (∀ s, R s (put s s)) ∧ ∀ s, (next s).Direct R
  | .draw next => (∀ s, R s (Sequence.bump κ s)) ∧ ∀ n, (next n).Direct R
  | .ctl .begin _ => False
  | .ctl .commit _ => False
  | .ctl .rollback _ => False
  | .ctl _ next => next.Direct R

section Direct

variable [Sequence σ κ] {R : σ → σ → Prop}

theorem Direct.bind {p : Proc σ κ ε α} {f : α → Proc σ κ ε β} (h : p.Direct R)
    (hf : ∀ a, (f a).Direct R) : (p >>= f).Direct R := by
  induction p with
  | done a => exact hf a
  | fail e => exact True.intro
  | act put next ih => exact ⟨h.1, fun s => ih s (h.2 s)⟩
  | draw next ih => exact ⟨h.1, fun n => ih n (h.2 n)⟩
  | ctl c next ih =>
    cases c with
    | begin => exact h.elim
    | commit => exact h.elim
    | rollback => exact h.elim
    | _ => exact ih h

theorem Direct.attempt {p : Proc σ κ ε α} {f : ε → Proc σ κ ε α} (h : p.Direct R)
    (hf : ∀ e, (f e).Direct R) : (p.attempt f).Direct R := by
  induction p with
  | done a => exact True.intro
  | fail e => exact hf e
  | act put next ih => exact ⟨h.1, fun s => ih s (h.2 s)⟩
  | draw next ih => exact ⟨h.1, fun n => ih n (h.2 n)⟩
  | ctl c next ih =>
    cases c with
    | begin => exact h.elim
    | commit => exact h.elim
    | rollback => exact h.elim
    | _ => exact ih h

theorem ReadOnly.direct {p : Proc σ κ ε α} (hp : p.ReadOnly) (hR : ∀ s, R s s) : p.Direct R := by
  induction p with
  | done a => exact True.intro
  | fail e => exact True.intro
  | act put next ih =>
    refine ⟨fun s => ?_, fun s => ih s (hp.2 s)⟩
    rw [hp.1 s s]
    exact hR s
  | draw next _ => exact hp.elim
  | ctl c next _ => exact hp.elim

end Direct

/-- The program run alone on `s`, with the uncommitted writes `w` of an open transaction.
Keys play no part: nobody else holds one. -/
def exec [Sequence σ κ] : Proc σ κ ε α → σ → Option (σ → σ) → σ × Except ε α
  | .done a, s, _ => (s, .ok a)
  | .fail e, s, _ => (s, .error e)
  | .act put next, s, none => (next s).exec (put s s) none
  | .act put next, s, some w => (next (w s)).exec s (some fun x => put (w s) (w x))
  | .draw next, s, w => (next (Sequence.value κ s)).exec (Sequence.bump κ s) w
  | .ctl .begin next, s, _ => next.exec s (some id)
  | .ctl .commit next, s, w => next.exec (w.getD id s) none
  | .ctl .rollback next, s, _ => next.exec s none
  | .ctl (.lock _) next, s, w => next.exec s w
  | .ctl (.claim _) next, s, w => next.exec s w
  | .ctl .release next, s, w => next.exec s w

/-- A body inside a transaction: its writes appear together at the end, or not at all. -/
def transaction (body : Proc σ κ ε α) : Proc σ κ ε α :=
  .ctl .begin ((body.attempt fun e => .ctl .rollback (.fail e)) >>= fun a => .ctl .commit (.done a))

/-- A body that runs statement by statement on the shared state.  The key marks where the
body starts and ends; nothing protects it in between. -/
def unprotected (k : κ) (body : Proc σ κ ε α) : Proc σ κ ε α :=
  .ctl (.claim k) ((body.attempt fun e => .ctl .release (.fail e)) >>= fun a => .ctl .release (.done a))

theorem Direct.unprotected [Sequence σ κ] {R : σ → σ → Prop} {k : κ} {p : Proc σ κ ε α}
    (h : p.Direct R) : (unprotected k p).Direct R := by
  have hbody : (p.attempt fun e => .ctl .release (.fail e)).Direct R :=
    h.attempt fun _ => True.intro
  exact hbody.bind fun _ => True.intro

end Proc

/-! ### Threads and pools -/

/-- A running program: what is left of it, the keys it holds, and the writes of its open
transaction (`none` outside a transaction). -/
structure Thread (σ κ ε α : Type) where
  prog : Proc σ κ ε α
  held : List κ := []
  pending : Option (σ → σ) := none

namespace Thread

variable {σ κ ε α : Type}

/-- One statement of a thread.  `busy` says which keys are held in the pool. -/
def step [Sequence σ κ] (busy : κ → Bool) (s : σ) (t : Thread σ κ ε α) :
    Option (σ × Thread σ κ ε α) :=
  match t.prog with
  | .done _ => none
  | .fail _ => none
  | .act put next =>
    match t.pending with
    | none => some (put s s, { t with prog := next s })
    | some w =>
      some (s, { t with prog := next (w s), pending := some fun x => put (w s) (w x) })
  | .draw next =>
    let n := Sequence.value κ s
    some (Sequence.bump κ s, { t with prog := next n, held := Sequence.key σ n :: t.held })
  | .ctl .begin next => some (s, { t with prog := next, pending := some id })
  | .ctl .commit next => some (t.pending.getD id s, { prog := next })
  | .ctl .rollback next => some (s, { prog := next })
  | .ctl (.lock k) next =>
    if busy k then none else some (s, { t with prog := next, held := k :: t.held })
  | .ctl (.claim k) next => some (s, { t with prog := next, held := k :: t.held })
  | .ctl .release next => some (s, { t with prog := next, held := [] })

/-- The result of a thread that has returned. -/
def result (t : Thread σ κ ε α) : Option (Except ε α) :=
  match t.prog with
  | .done a => some (.ok a)
  | .fail e => some (.error e)
  | _ => none

/-- The key the thread is about to claim without waiting for it. -/
def claims (t : Thread σ κ ε α) : Option κ :=
  match t.prog with
  | .ctl (.claim k) _ => some k
  | _ => none

end Thread

/-- Threads on one shared state. -/
structure Pool (σ κ ε α : Type) where
  state : σ
  threads : List (Thread σ κ ε α)

namespace Pool

variable {σ κ ε α : Type} [DecidableEq κ] [Sequence σ κ]

/-- The key is held by some thread. -/
def busy (p : Pool σ κ ε α) (k : κ) : Bool := p.threads.any fun t => k ∈ t.held

/-- Thread `i` makes its next statement; `none` when it has returned or waits for a key. -/
def step (p : Pool σ κ ε α) (i : ℕ) : Option (Pool σ κ ε α) :=
  match p.threads[i]? with
  | none => none
  | some t =>
    match t.step p.busy p.state with
    | none => none
    | some (s, t') => some { state := s, threads := p.threads.set i t' }

/-- The programs of a list, all at their first statement. -/
def start (s : σ) (progs : List (Proc σ κ ε α)) : Pool σ κ ε α :=
  { state := s, threads := progs.map fun p => { prog := p } }

/-- The pool after the schedule `is`, a list of thread indices; a thread that cannot move
is passed over. -/
abbrev run (p : Pool σ κ ε α) (is : List ℕ) : Pool σ κ ε α := Run.run step p is

/-- No thread claims a key that is already held: the sections that no lock protects do
not overlap at this step. -/
def Exclusive (p : Pool σ κ ε α) (i : ℕ) : Prop :=
  (p.threads[i]?.bind Thread.claims).all fun k => !p.busy k

instance (p : Pool σ κ ε α) (i : ℕ) : Decidable (p.Exclusive i) := decEq _ true

omit [Sequence σ κ] in
theorem Exclusive.free {p : Pool σ κ ε α} {i : ℕ} (h : p.Exclusive i) {t : Thread σ κ ε α} {k : κ}
    (ht : p.threads[i]? = some t) (hk : t.claims = some k) : p.busy k = false := by
  simpa [Exclusive, ht, hk] using h

/-- The schedules all of whose steps satisfy `ok`. -/
abbrev Along (ok : Pool σ κ ε α → ℕ → Prop) (p : Pool σ κ ε α) (is : List ℕ) : Prop :=
  Run.Along step ok p is

end Pool

end Valv.Conc
