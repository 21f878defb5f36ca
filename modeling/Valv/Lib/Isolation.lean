import Valv.Lib.Connection
import Valv.Lib.Schedule

/-!
# Transactions that have the connection to themselves

Two ways to take a program out of a run.

* `Pool.Without`: one pool is another but for thread `i`; a step of another thread is the same in both, and a step
  of thread `i` that leaves the state leaves the relation.
* `Pooled`: a connection behaves like a pool: the committed state is the one that a rollback would go back to.
  `Pooled.step`: so it does, as long as nobody makes a statement in a transaction of another program.
-/

namespace Valv.Conc

variable {σ κ ε α : Type}

/-! ### Pools without one thread -/

namespace Pool

/-- What a thread that has returned is answered with. -/
def answer (p : Pool σ κ ε α) (i : ℕ) : Option (Except ε α) := p.threads[i]?.bind Thread.result

/-- Nobody but thread `i` is in a transaction. -/
def Alone (p : Pool σ κ ε α) (i : ℕ) : Prop :=
  ∀ (j : ℕ) (t : Thread σ κ ε α), j ≠ i → p.threads[j]? = some t → t.pending = none

/-- The pool `q` is `p`, but thread `i` of `q` has not begun a transaction. -/
structure Without (i : ℕ) (p q : Pool σ κ ε α) : Prop where
  state : q.state = p.state
  others : ∀ j, j ≠ i → q.threads[j]? = p.threads[j]?
  idle : ∀ t, q.threads[i]? = some t → t.pending = none

/-- The thread does not wait for a key. -/
def Unlocked (t : Thread σ κ ε α) : Prop := ∀ k next, t.prog ≠ .ctl (.lock k) next

variable {p q : Pool σ κ ε α} {i j : ℕ}

theorem Without.refl (h : ∀ t, p.threads[i]? = some t → t.pending = none) : Without i p p := ⟨rfl, fun _ _ => rfl, h⟩

theorem Without.alone (h : Without i p q) (hp : p.Alone j) : q.Alone j := by
  intro k t hk ht
  by_cases hki : k = i
  · exact h.idle t (hki ▸ ht)
  · rw [h.others k hki] at ht
    exact hp k t hk ht

variable [DecidableEq κ] [Sequence σ κ]

omit [DecidableEq κ] in
/-- Keys matter to a thread only that waits for one. -/
theorem step_unlocked {t : Thread σ κ ε α} (h : Unlocked t) (busy busy' : κ → Bool) (s : σ) :
    t.step busy s = t.step busy' s := by
  obtain ⟨prog, held, pending⟩ := t
  cases prog with
  | done a => rfl
  | fail e => rfl
  | act put next => rfl
  | draw next => rfl
  | ctl c next =>
    cases c with
    | lock k => exact absurd rfl (h k next)
    | begin => rfl
    | commit => rfl
    | rollback => rfl
    | claim k => rfl
    | release => rfl

theorem step_eq (p : Pool σ κ ε α) (i : ℕ) {t : Thread σ κ ε α} (ht : p.threads[i]? = some t) :
    p.step i = (t.step p.busy p.state).map fun r => { state := r.1, threads := p.threads.set i r.2 } := by
  rw [step, ht]
  cases hs : t.step p.busy p.state with
  | none => simp [hs]
  | some r => simp [hs]

theorem step_none (p : Pool σ κ ε α) (i : ℕ) (h : p.threads[i]? = none) : p.step i = none := by
  rw [step, h]

/-- The answer of a thread that has returned stays. -/
theorem answer_step {p' : Pool σ κ ε α} {a : Except ε α} (ha : p.answer i = some a) (hs : p.step j = some p') :
    p'.answer i = some a := by
  obtain ⟨t, t', s', ht, hstep, rfl⟩ := step_cases hs
  obtain ⟨u, hu, hresult⟩ := Option.bind_eq_some_iff.mp ha
  have hij : j ≠ i := by
    rintro rfl
    cases ht.symm.trans hu
    obtain ⟨prog, held, pending⟩ := t
    cases prog with
    | done a => cases hstep
    | fail e => cases hstep
    | act put next => cases hresult
    | draw next => cases hresult
    | ctl c next => cases hresult
  show ((p.threads.set j t')[i]?).bind Thread.result = some a
  rw [List.getElem?_set_ne hij, hu]
  exact hresult

/-- **A step of another thread** is the same with and without thread `i`. -/
theorem Without.step (h : Without i p q) (hij : j ≠ i) (hkeys : ∀ t, p.threads[j]? = some t → Unlocked t) :
    Without i ((p.step j).getD p) ((q.step j).getD q) := by
  cases ht : p.threads[j]? with
  | none =>
    rw [step_none p j ht, step_none q j ((h.others j hij).trans ht)]
    exact h
  | some t =>
    have htq : q.threads[j]? = some t := (h.others j hij).trans ht
    have hsame : t.step q.busy q.state = t.step p.busy p.state := by
      rw [h.state]
      exact step_unlocked (hkeys t ht) _ _ _
    rw [step_eq p j ht, step_eq q j htq, hsame]
    cases t.step p.busy p.state with
    | none => exact h
    | some r =>
      refine ⟨rfl, fun k hk => ?_, fun u hu => h.idle u ?_⟩
      · show (q.threads.set j r.2)[k]? = (p.threads.set j r.2)[k]?
        by_cases hkj : j = k
        · subst hkj
          rw [List.getElem?_set_self', List.getElem?_set_self', htq, ht]
        · rw [List.getElem?_set_ne hkj, List.getElem?_set_ne hkj]
          exact h.others k hk
      · rw [← List.getElem?_set_ne hij]
        exact hu

/-- A step of thread `i` that does nothing to the state. -/
theorem Without.skip {p' : Pool σ κ ε α} (h : Without i p q) (hs : p.step i = some p') (hstate : p'.state = p.state) :
    Without i p' q := by
  obtain ⟨t, t', s', ht, hstep, rfl⟩ := step_cases hs
  refine ⟨h.state.trans hstate.symm, fun j hj => ?_, h.idle⟩
  show q.threads[j]? = (p.threads.set i t')[j]?
  rw [List.getElem?_set_ne (Ne.symm hj)]
  exact h.others j hj

end Pool

/-! ### A connection as a pool -/

namespace Conn

/-- The state that a rollback goes back to. -/
def base (c : Conn σ κ ε α) : σ := (c.opened.map Opened.saved).getD c.state

/-- No program makes a statement in a transaction of another program. -/
def Alone (c : Conn σ κ ε α) (i : ℕ) : Prop := c.opened.all (fun o => o.owner = i) = true

instance (c : Conn σ κ ε α) (i : ℕ) : Decidable (c.Alone i) := inferInstanceAs (Decidable (_ = true))

end Conn

/-- The pool does what the connection does: the writes that a thread has not committed are those of the open
transaction. -/
structure Pooled (c : Conn σ κ ε α) (p : Pool σ κ ε α) : Prop where
  state : p.state = c.base
  progs : ∀ i : ℕ, p.threads[i]?.map Thread.prog = c.progs[i]?
  inside : ∀ o, c.opened = some o → ∃ t w, p.threads[o.owner]? = some t ∧ t.pending = some w ∧ c.state = w o.saved
  outside : ∀ (i : ℕ) (t : Thread σ κ ε α), p.threads[i]? = some t → (∀ o, c.opened = some o → o.owner ≠ i) →
    t.pending = none

/-- The next statement is no draw and waits for no key, and it is a bracket that matches. -/
def Thread.Plain (t : Thread σ κ ε α) : Prop :=
  match t.prog with
  | .draw _ => False
  | .ctl (.lock _) _ => False
  | .ctl .begin _ => t.pending = none
  | .ctl .commit _ => t.pending ≠ none
  | .ctl .rollback _ => t.pending ≠ none
  | _ => True

namespace Pooled

variable {c : Conn σ κ ε α} {p : Pool σ κ ε α} {i : ℕ}

theorem start (s : σ) (progs : List (Proc σ κ ε α)) : Pooled (Conn.start s progs) (Pool.start s progs) where
  state := rfl
  progs i := by simp [Pool.start, Conn.start, Function.comp_def]
  inside o ho := by cases ho
  outside i t ht _ := by
    simp only [Pool.start, List.getElem?_map, Option.map_eq_some_iff] at ht
    obtain ⟨prog, -, rfl⟩ := ht
    rfl

theorem prog (h : Pooled c p) {t : Thread σ κ ε α} (ht : p.threads[i]? = some t) : c.progs[i]? = some t.prog := by
  rw [← h.progs, ht]
  rfl

theorem answer (h : Pooled c p) (i : ℕ) : p.answer i = c.answer i := by
  rw [Pool.answer, Conn.answer, ← h.progs i]
  cases ht : p.threads[i]? with
  | none => rfl
  | some t =>
    obtain ⟨prog, held, pending⟩ := t
    cases prog with
    | done a => rfl
    | fail e => rfl
    | act put next => rfl
    | draw next => rfl
    | ctl c next => rfl

theorem alone_iff (h : Pooled c p) : c.Alone i ↔ p.Alone i := by
  constructor
  · intro halone j t hj ht
    refine h.outside j t ht fun o ho howner => hj ?_
    rw [Conn.Alone, ho, Option.all_some, decide_eq_true_eq] at halone
    exact howner.symm.trans halone
  · intro halone
    rw [Conn.Alone]
    cases ho : c.opened with
    | none => rfl
    | some o =>
      obtain ⟨t, w, ht, hw, -⟩ := h.inside o ho
      rw [Option.all_some, decide_eq_true_eq]
      by_contra hne
      rw [halone o.owner t hne ht] at hw
      cases hw

/-- The programs of both, once one has moved on. -/
theorem progs_set (h : Pooled c p) (t : Thread σ κ ε α) (j : ℕ) :
    ((p.threads.set i t)[j]?).map Thread.prog = (c.progs.set i t.prog)[j]? := by
  by_cases hij : i = j
  · subst hij
    rw [List.getElem?_set_self', List.getElem?_set_self', ← h.progs]
    cases p.threads[i]? <;> rfl
  · rw [List.getElem?_set_ne hij, List.getElem?_set_ne hij]
    exact h.progs j

/-- A program has done something, and no transaction is open behind it. -/
theorem move (h : Pooled c p) (halone : p.Alone i) {u : Thread σ κ ε α} (hpending : u.pending = none)
    {d : Conn σ κ ε α} {s' : σ} (hopened : d.opened = none) (hstate : d.state = s')
    (hprogs : d.progs = c.progs.set i u.prog) : Pooled d { state := s', threads := p.threads.set i u } where
  state := by rw [Conn.base, hopened]; exact hstate.symm
  progs j := by rw [hprogs]; exact h.progs_set u j
  inside o ho := by rw [hopened] at ho; cases ho
  outside j v hv _ := by
    rcases Pool.getElem?_set_cases hv with ⟨-, rfl⟩ | ⟨hij, hv⟩
    · exact hpending
    · exact halone j v (Ne.symm hij) hv

/-- The owner of the open transaction has done something in it. -/
theorem moveInside (h : Pooled c p) {o : Opened σ} (ho : c.opened = some o) (howner : o.owner = i)
    {t u : Thread σ κ ε α} (ht : p.threads[i]? = some t) {w : σ → σ} (hpending : u.pending = some w)
    {d : Conn σ κ ε α} (hopened : d.opened = c.opened) (hstate : d.state = w o.saved)
    (hprogs : d.progs = c.progs.set i u.prog) :
    Pooled d { state := p.state, threads := p.threads.set i u } where
  state := by
    rw [Conn.base, hopened, ho]
    show p.state = o.saved
    rw [h.state, Conn.base, ho]
    rfl
  progs j := by rw [hprogs]; exact h.progs_set u j
  inside o' ho' := by
    rw [hopened, ho] at ho'
    cases ho'
    refine ⟨u, w, ?_, hpending, hstate⟩
    rw [howner]
    exact List.getElem?_set_self (List.getElem?_eq_some_iff.mp ht).1
  outside j v hv hout := by
    rw [hopened] at hout
    rcases Pool.getElem?_set_cases hv with ⟨hij, -⟩ | ⟨-, hv⟩
    · exact absurd (howner.trans hij) (hout o ho)
    · exact h.outside j v hv hout

/-- A program begins a transaction. -/
theorem opens (h : Pooled c p) (halone : p.Alone i) {t : Thread σ κ ε α} (ht : p.threads[i]? = some t)
    (hnone : c.opened = none) {next : Proc σ κ ε α} {held : List κ} :
    Pooled
      { c with
        progs := c.progs.set i next
        opened := some { owner := i, saved := c.state, mark := c.journal.length } }
      { state := p.state, threads := p.threads.set i { prog := next, held, pending := some id } } where
  state := by
    rw [h.state, Conn.base, hnone]
    rfl
  progs := h.progs_set _
  inside o ho := by
    cases ho
    exact ⟨_, id, List.getElem?_set_self (List.getElem?_eq_some_iff.mp ht).1, rfl, rfl⟩
  outside j u hu hout := by
    rcases Pool.getElem?_set_cases hu with ⟨hij, -⟩ | ⟨hij, hu⟩
    · exact absurd hij (hout _ rfl)
    · exact halone j u (Ne.symm hij) hu

variable [DecidableEq κ] [Sequence σ κ] [DecidableEq σ] {error : ε}

/-- **One statement on the connection** is one statement of the pool. -/
theorem step (h : Pooled c p) (halone : c.Alone i) (hplain : ∀ t, p.threads[i]? = some t → t.Plain) :
    Pooled ((c.step error i).getD c) ((p.step i).getD p) := by
  cases ht : p.threads[i]? with
  | none =>
    have hc : c.progs[i]? = none := by rw [← h.progs, ht]; rfl
    rw [Pool.step_none p i ht, Conn.step, hc]
    exact h
  | some t =>
    have hprog := h.prog ht
    have hpl := hplain t ht
    rw [Pool.step_eq p i ht, Conn.step, hprog]
    have hbase : c.opened = none → p.state = c.state := fun hnone => by rw [h.state, Conn.base, hnone]; rfl
    have hout : c.opened = none → t.pending = none := fun hnone =>
      h.outside i t ht fun o ho => by rw [hnone] at ho; cases ho
    have hin : ∀ o, c.opened = some o → o.owner = i ∧ ∃ w, t.pending = some w ∧ c.state = w o.saved := by
      intro o ho
      have howner : o.owner = i := by
        rw [Conn.Alone, ho, Option.all_some, decide_eq_true_eq] at halone
        exact halone
      obtain ⟨t', w, ht', hw, hstate⟩ := h.inside o ho
      rw [howner, ht] at ht'
      cases ht'
      exact ⟨howner, w, hw, hstate⟩
    have hpool := h.alone_iff.mp halone
    obtain ⟨prog, held, pending⟩ := t
    cases ho : c.opened with
    | none =>
      have hnone : pending = none := hout ho
      subst hnone
      have hs := hbase ho
      cases prog with
      | done a => exact h
      | fail e => exact h
      | draw next => exact hpl.elim
      | act put next =>
        refine h.move (d := c.write i (put c.state) (next c.state)) hpool rfl ho ?_ ?_
        · show put c.state c.state = put p.state p.state
          rw [hs]
        · show c.progs.set i (next c.state) = c.progs.set i (next p.state)
          rw [hs]
      | ctl b next =>
        cases b with
        | lock k => exact hpl.elim
        | commit => exact absurd rfl hpl
        | rollback => exact absurd rfl hpl
        | claim k =>
          exact h.move (d := { c with progs := c.progs.set i next, opened := none })
            (u := { prog := next, held := k :: held }) hpool rfl rfl hs.symm rfl
        | release =>
          exact h.move (d := { c with progs := c.progs.set i next, opened := none }) (u := { prog := next }) hpool rfl rfl
            hs.symm rfl
        | begin => exact h.opens hpool ht ho
    | some o =>
      obtain ⟨howner, w, hw, hstate⟩ := hin o ho
      have hsome : pending = some w := hw
      subst hsome
      have hs : p.state = o.saved := by rw [h.state, Conn.base, ho]; rfl
      cases prog with
      | done a => exact h
      | fail e => exact h
      | draw next => exact hpl.elim
      | act put next =>
        refine h.moveInside (d := c.write i (put c.state) (next c.state)) ho howner ht rfl rfl ?_ ?_
        · show put c.state c.state = put (w p.state) (w o.saved)
          rw [hs, hstate]
        · show c.progs.set i (next c.state) = c.progs.set i (next (w p.state))
          rw [hs, hstate]
      | ctl b next =>
        cases b with
        | lock k => exact hpl.elim
        | begin => cases hpl
        | claim k =>
          exact h.moveInside (d := { c with progs := c.progs.set i next, opened := some o })
            (u := { prog := next, held := k :: held, pending := some w }) ho howner ht rfl ho.symm hstate rfl
        | release =>
          exact h.moveInside (d := { c with progs := c.progs.set i next, opened := some o })
            (u := { prog := next, pending := some w }) ho howner ht rfl ho.symm hstate rfl
        | commit =>
          refine h.move (d := { c with progs := c.progs.set i next, opened := none }) hpool rfl rfl ?_ rfl
          show c.state = w p.state
          rw [hs, hstate]
        | rollback => exact h.move hpool rfl rfl hs.symm rfl

end Pooled

end Valv.Conc
