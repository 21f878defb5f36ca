import Valv.Lib.Exec

/-!
# Programs that share one connection

A database behind a single connection.  Every statement takes effect at once and for everybody, and a
transaction is the connection's: between its `BEGIN` and its end the statements of all programs are part of
it, and nobody else can begin one.

* `Conn.step`: the next statement of one program.
* `Conn.journal`, `Conn.made`, `Conn.undone`, `Conn.refused`: ghosts: the statements in effect, all statements, the
  ones that a rollback took back, and the programs that could not begin.
* `Conn.Orderly`: who begins finds no transaction open, and who rolls back has been alone since the `BEGIN`.
* `Proc.Bracketed`: brackets match, and a program that rolls back fails.
* `Conn.durable`: under `Orderly` the statements of whoever succeeds stay in effect.
-/

namespace Valv.Conc

variable {σ κ ε α β : Type}

/-! ### The connection -/

/-- A statement: whose it is, and what it does to the state. -/
structure JournalEntry (σ : Type) where
  author : ℕ
  write : σ → σ

/-- The open transaction: who began it, the state that a rollback goes back to, and the length of the journal. -/
structure Opened (σ : Type) where
  owner : ℕ
  saved : σ
  mark : ℕ

/-- Programs on one connection. -/
structure Conn (σ κ ε α : Type) where
  state : σ
  progs : List (Proc σ κ ε α)
  opened : Option (Opened σ) := none
  journal : List (JournalEntry σ) := []
  made : List (JournalEntry σ) := []
  undone : List (ℕ × JournalEntry σ) := []
  refused : List ℕ := []

/-- The state after the statements. -/
def replay (s₀ : σ) (es : List (JournalEntry σ)) : σ := es.foldl (fun s e => e.write s) s₀

namespace Conn

/-- All programs at their first statement. -/
def start (s₀ : σ) (progs : List (Proc σ κ ε α)) : Conn σ κ ε α := { state := s₀, progs }

/-- The database rejects the statement. -/
def refuse (c : Conn σ κ ε α) (i : ℕ) (error : ε) : Conn σ κ ε α :=
  { c with progs := c.progs.set i (.fail error), refused := c.refused ++ [i] }

/-- A statement takes effect; one that changes nothing leaves no entry. -/
def write [DecidableEq σ] (c : Conn σ κ ε α) (i : ℕ) (f : σ → σ) (next : Proc σ κ ε α) : Conn σ κ ε α :=
  let entries := if f c.state = c.state then [] else [{ author := i, write := f }]
  { c with state := f c.state, progs := c.progs.set i next, journal := c.journal ++ entries, made := c.made ++ entries }

/-- The next statement of program `i`; `error` is what a `BEGIN` in a transaction, and a `COMMIT` or `ROLLBACK`
outside of one, are answered with. -/
def step [DecidableEq σ] [Sequence σ κ] (error : ε) (c : Conn σ κ ε α) (i : ℕ) : Option (Conn σ κ ε α) :=
  match c.progs[i]? with
  | none => none
  | some (.done _) => none
  | some (.fail _) => none
  | some (.act put next) => some (c.write i (put c.state) (next c.state))
  | some (.draw next) => some (c.write i (Sequence.bump κ) (next (Sequence.value κ c.state)))
  | some (.ctl .begin next) =>
    if c.opened.isSome then some (c.refuse i error)
    else some { c with
      progs := c.progs.set i next
      opened := some { owner := i, saved := c.state, mark := c.journal.length } }
  | some (.ctl .commit next) =>
    if c.opened.isSome then some { c with progs := c.progs.set i next, opened := none }
    else some (c.refuse i error)
  | some (.ctl .rollback next) =>
    match c.opened with
    | none => some (c.refuse i error)
    | some o => some { c with
        state := o.saved
        progs := c.progs.set i next
        opened := none
        journal := c.journal.take o.mark
        undone := c.undone ++ (c.journal.drop o.mark).map fun e => (i, e) }
  | some (.ctl (.lock _) next) => some { c with progs := c.progs.set i next }
  | some (.ctl (.claim _) next) => some { c with progs := c.progs.set i next }
  | some (.ctl .release next) => some { c with progs := c.progs.set i next }

/-- Who begins finds no transaction open; who rolls back has been alone since the `BEGIN`. -/
def orderly (c : Conn σ κ ε α) (i : ℕ) : Bool :=
  match c.progs[i]? with
  | some (.ctl .begin _) => c.opened.isNone
  | some (.ctl .rollback _) => c.opened.all fun o => (c.journal.drop o.mark).all fun e => e.author = i
  | _ => true

/-- The order of statements in which every transaction that is rolled back has had the connection to itself. -/
def Orderly (c : Conn σ κ ε α) (i : ℕ) : Prop := c.orderly i = true

instance (c : Conn σ κ ε α) (i : ℕ) : Decidable (c.Orderly i) := inferInstanceAs (Decidable (_ = true))

/-- What a program that has returned is answered with. -/
def answer (c : Conn σ κ ε α) (i : ℕ) : Option (Except ε α) :=
  match c.progs[i]? with
  | some (.done a) => some (.ok a)
  | some (.fail e) => some (.error e)
  | _ => none

/-- **What was acknowledged lasts.**  The state is what the journal says.  A rollback takes back statements of its
own program only, the statements of a program that succeeded are all in the journal, and nobody was turned away. -/
structure Durable (s₀ : σ) (c : Conn σ κ ε α) : Prop where
  inEffect : c.state = replay s₀ c.journal
  own : ∀ u ∈ c.undone, u.2.author = u.1
  acknowledged : ∀ i a, c.answer i = some (.ok a) →
    c.journal.filter (fun e => e.author = i) = c.made.filter fun e => e.author = i
  served : c.refused = []

end Conn

/-! ### Brackets -/

namespace Proc

/-- The brackets match, from inside a transaction or from outside, and behind a rollback the program fails. -/
def Bracketed : Proc σ κ ε α → Bool → Prop
  | .done _, inside => inside = false
  | .fail _, inside => inside = false
  | .act _ next, inside => ∀ v, (next v).Bracketed inside
  | .draw next, inside => ∀ n, (next n).Bracketed inside
  | .ctl .begin next, inside => inside = false ∧ next.Bracketed true
  | .ctl .commit next, inside => inside = true ∧ next.Bracketed false
  | .ctl .rollback next, inside => inside = true ∧ ∃ e, next = .fail e
  | .ctl (.lock _) next, inside => next.Bracketed inside
  | .ctl (.claim _) next, inside => next.Bracketed inside
  | .ctl .release next, inside => next.Bracketed inside

theorem Unbracketed.bracketed {p : Proc σ κ ε α} (h : p.Unbracketed) : p.Bracketed false := by
  induction p with
  | done a => rfl
  | fail e => rfl
  | act put next ih => exact fun v => ih v (h v)
  | draw next ih => exact fun n => ih n (h n)
  | ctl c next ih =>
    cases c with
    | begin => exact h.elim
    | commit => exact h.elim
    | rollback => exact h.elim
    | lock k => exact ih h
    | claim k => exact ih h
    | release => exact ih h

theorem Bracketed.bind {p : Proc σ κ ε α} {f : α → Proc σ κ ε β} {inside : Bool} (h : p.Bracketed inside)
    (hf : ∀ a, (f a).Bracketed false) : (p >>= f).Bracketed inside := by
  induction p generalizing inside with
  | done a =>
    cases h
    exact hf a
  | fail e => exact h
  | act put next ih => exact fun v => ih v (h v)
  | draw next ih => exact fun n => ih n (h n)
  | ctl c next ih =>
    cases c with
    | begin => exact ⟨h.1, ih h.2⟩
    | commit => exact ⟨h.1, ih h.2⟩
    | rollback =>
      obtain ⟨hin, e, rfl⟩ := h
      exact ⟨hin, e, rfl⟩
    | lock k => exact ih h
    | claim k => exact ih h
    | release => exact ih h

theorem Unbracketed.transaction {p : Proc σ κ ε α} (h : p.Unbracketed) : (transaction p).Bracketed false := by
  refine ⟨rfl, ?_⟩
  induction p with
  | done a => exact ⟨rfl, rfl⟩
  | fail e => exact ⟨rfl, e, rfl⟩
  | act put next ih => exact fun v => ih v (h v)
  | draw next ih => exact fun n => ih n (h n)
  | ctl c next ih =>
    cases c with
    | begin => exact h.elim
    | commit => exact h.elim
    | rollback => exact h.elim
    | lock k => exact ih h
    | claim k => exact ih h
    | release => exact ih h

end Proc

/-! ### Runs -/

namespace Conn

variable {s₀ : σ} {error : ε} {c c' : Conn σ κ ε α} {i : ℕ}

theorem replay_append (s₀ : σ) (es fs : List (JournalEntry σ)) : replay s₀ (es ++ fs) = replay (replay s₀ es) fs :=
  List.foldl_append

/-- **The invariant.**  An open transaction knows the state it began in; brackets match, and only the owner of the
open transaction is inside. -/
structure Inv (s₀ : σ) (c : Conn σ κ ε α) : Prop where
  state : c.state = replay s₀ c.journal
  saved : ∀ o ∈ c.opened, o.saved = replay s₀ (c.journal.take o.mark) ∧ o.mark ≤ c.journal.length
  progs : ∀ (i : ℕ) (p : Proc σ κ ε α), c.progs[i]? = some p → p.Bracketed (c.opened.any fun o => o.owner = i)
  own : ∀ u ∈ c.undone, u.2.author = u.1
  failed : ∀ u ∈ c.undone, ∃ e, c.progs[u.1]? = some (.fail e)
  kept : ∀ i, (∀ u ∈ c.undone, u.1 ≠ i) →
    c.journal.filter (fun e => e.author = i) = c.made.filter fun e => e.author = i
  served : c.refused = []

theorem Inv.durable (h : Inv s₀ c) : Durable s₀ c where
  inEffect := h.state
  own := h.own
  acknowledged i a hdone := by
    refine h.kept i fun u hu he => ?_
    obtain ⟨e, hfail⟩ := h.failed u hu
    rw [he] at hfail
    rw [answer, hfail] at hdone
    cases hdone
  served := h.served

theorem Inv.start {progs : List (Proc σ κ ε α)} (h : ∀ p ∈ progs, p.Bracketed false) : Inv s₀ (start s₀ progs) where
  state := rfl
  saved o ho := absurd ho (Option.not_mem_none o)
  progs i p hp := h p (List.mem_of_getElem? hp)
  own u hu := by cases hu
  failed u hu := by cases hu
  kept i _ := rfl
  served := rfl

/-- The program that has moved on, and all others. -/
theorem progs_set (inside : ℕ → Bool) {ps : List (Proc σ κ ε α)} {next : Proc σ κ ε α}
    (h : ∀ (j : ℕ) (p : Proc σ κ ε α), j ≠ i → ps[j]? = some p → p.Bracketed (inside j))
    (hnext : next.Bracketed (inside i)) (j : ℕ) (p : Proc σ κ ε α) (hp : (ps.set i next)[j]? = some p) :
    p.Bracketed (inside j) := by
  by_cases hij : i = j
  · subst hij
    rw [List.getElem?_set_self' ] at hp
    obtain ⟨q, -, rfl⟩ := Option.map_eq_some_iff.mp hp
    exact hnext
  · rw [List.getElem?_set_ne hij] at hp
    exact h j p (Ne.symm hij) hp

/-- Whoever has failed stays where it is. -/
theorem failed_set {ps : List (Proc σ κ ε α)} {prog next : Proc σ κ ε α} {j : ℕ} (hprog : ps[i]? = some prog)
    (hne : ∀ e, prog ≠ .fail e) (h : ∃ e, ps[j]? = some (.fail e)) : ∃ e, (ps.set i next)[j]? = some (.fail e) := by
  obtain ⟨e, he⟩ := h
  have hij : i ≠ j := by
    rintro rfl
    exact hne e (Option.some.inj (hprog.symm.trans he))
  exact ⟨e, by rw [List.getElem?_set_ne hij]; exact he⟩

/-- A statement that does nothing to the connection. -/
theorem Inv.advance (h : Inv s₀ c) {prog next : Proc σ κ ε α} (hprog : c.progs[i]? = some prog)
    (hne : ∀ e, prog ≠ .fail e) (hnext : next.Bracketed (c.opened.any fun o => o.owner = i)) :
    Inv s₀ { c with progs := c.progs.set i next } where
  state := h.state
  saved := h.saved
  progs := progs_set (fun j => c.opened.any fun o => o.owner = j) (fun j p _ => h.progs j p) hnext
  own := h.own
  failed u hu := failed_set hprog hne (h.failed u hu)
  kept := h.kept
  served := h.served

/-- A statement that takes effect. -/
theorem Inv.write [DecidableEq σ] (h : Inv s₀ c) {prog next : Proc σ κ ε α} (f : σ → σ)
    (hprog : c.progs[i]? = some prog) (hne : ∀ e, prog ≠ .fail e)
    (hnext : next.Bracketed (c.opened.any fun o => o.owner = i)) : Inv s₀ (c.write i f next) := by
  have hadvance := h.advance hprog hne hnext
  refine ⟨?_, fun o ho => ?_, hadvance.progs, h.own, hadvance.failed, fun j hj => ?_, h.served⟩
  · show f c.state = replay s₀ (c.journal ++ _)
    rw [replay_append, ← h.state]
    split
    · next hsame => exact hsame
    · rfl
  · obtain ⟨hsaved, hmark⟩ := h.saved o ho
    have htake : (c.write i f next).journal.take o.mark = c.journal.take o.mark := List.take_append_of_le_length hmark
    have hlonger : c.journal.length ≤ (c.write i f next).journal.length := by
      show c.journal.length ≤ (c.journal ++ _).length
      rw [List.length_append]
      omega
    exact ⟨by rw [htake]; exact hsaved, Nat.le_trans hmark hlonger⟩
  · show (c.journal ++ _).filter _ = (c.made ++ _).filter _
    rw [List.filter_append, List.filter_append, h.kept j hj]

/-- Nobody else is inside the transaction. -/
theorem Inv.outside (h : Inv s₀ c) {o : Opened σ} (ho : c.opened = some o) (howner : o.owner = i) {j : ℕ}
    {p : Proc σ κ ε α} (hj : j ≠ i) (hp : c.progs[j]? = some p) : p.Bracketed false := by
  have hbracketed := h.progs j p hp
  rw [ho, Option.any_some, howner, decide_eq_false (Ne.symm hj)] at hbracketed
  exact hbracketed

/-- **One statement** of any program keeps the invariant. -/
theorem Inv.step [DecidableEq σ] [Sequence σ κ] (h : Inv s₀ c) (hok : c.Orderly i)
    (hs : c.step error i = some c') : Inv s₀ c' := by
  rw [Conn.step] at hs
  rw [Orderly, orderly] at hok
  cases hprog : c.progs[i]? with
  | none =>
    rw [hprog] at hs
    cases hs
  | some prog =>
    have hbracketed := h.progs i prog hprog
    rw [hprog] at hs hok
    cases prog with
    | done a => cases hs
    | fail e => cases hs
    | act put next =>
      cases hs
      exact h.write _ hprog (fun e he => by cases he) (hbracketed c.state)
    | draw next =>
      cases hs
      exact h.write _ hprog (fun e he => by cases he) (hbracketed _)
    | ctl ctl next =>
      have hne : ∀ e, Proc.ctl ctl next ≠ .fail e := fun e he => by cases he
      cases ctl with
      | lock k =>
        cases hs
        exact h.advance hprog hne hbracketed
      | claim k =>
        cases hs
        exact h.advance hprog hne hbracketed
      | release =>
        cases hs
        exact h.advance hprog hne hbracketed
      | begin =>
        have hnone : c.opened = none := Option.isNone_iff_eq_none.mp hok
        rw [hnone] at hs
        cases hs
        refine ⟨h.state, fun o ho => ?_, ?_, h.own, fun u hu => failed_set hprog hne (h.failed u hu), h.kept, h.served⟩
        · cases ho
          exact ⟨by rw [List.take_length]; exact h.state, Nat.le_refl _⟩
        · refine progs_set (fun j => decide (i = j)) (fun j p hj hp => ?_) ?_
          · have hold := h.progs j p hp
            rw [hnone] at hold
            show p.Bracketed (decide (i = j))
            rw [decide_eq_false (Ne.symm hj)]
            exact hold
          · show next.Bracketed (decide (i = i))
            rw [decide_eq_true rfl]
            exact hbracketed.2
      | commit =>
        obtain ⟨o, ho, howner⟩ := (Option.any_eq_true _ _).mp hbracketed.1
        rw [ho] at hs
        cases hs
        refine ⟨h.state, fun o ho => absurd ho (Option.not_mem_none o), ?_, h.own,
          fun u hu => failed_set hprog hne (h.failed u hu), h.kept, h.served⟩
        exact progs_set (fun _ => false) (fun j p hj hp => h.outside ho (of_decide_eq_true howner) hj hp)
          hbracketed.2
      | rollback =>
        obtain ⟨hinside, e, rfl⟩ := hbracketed
        obtain ⟨o, ho, howner⟩ := (Option.any_eq_true _ _).mp hinside
        rw [ho] at hs hok
        cases hs
        obtain ⟨hsaved, hmark⟩ := h.saved o ho
        have halone : ∀ entry ∈ c.journal.drop o.mark, entry.author = i := by simpa using hok
        have hfail : (c.progs.set i (.fail e))[i]? = some (.fail e) := by
          rw [List.getElem?_set_self (List.getElem?_eq_some_iff.mp hprog).1]
        refine ⟨hsaved, fun o ho => absurd ho (Option.not_mem_none o), ?_, fun u hu => ?_, fun u hu => ?_,
          fun j hj => ?_, h.served⟩
        · exact progs_set (fun _ => false) (fun j p hj hp => h.outside ho (of_decide_eq_true howner) hj hp) rfl
        · rcases List.mem_append.mp hu with hu | hu
          · exact h.own u hu
          · obtain ⟨entry, hentry, rfl⟩ := List.mem_map.mp hu
            exact halone entry hentry
        · rcases List.mem_append.mp hu with hu | hu
          · exact failed_set hprog hne (h.failed u hu)
          · obtain ⟨entry, hentry, rfl⟩ := List.mem_map.mp hu
            exact ⟨e, hfail⟩
        · -- what is taken back is not the statements of `j`
          have hold : ∀ u ∈ c.undone, u.1 ≠ j := fun u hu => hj u (List.mem_append_left _ hu)
          rw [← h.kept j hold]
          conv_rhs => rw [← List.take_append_drop o.mark c.journal, List.filter_append]
          have hnone : (c.journal.drop o.mark).filter (fun e => e.author = j) = [] := by
            refine List.filter_eq_nil_iff.mpr fun entry hentry he => ?_
            refine hj (i, entry) (List.mem_append_right _ (List.mem_map_of_mem hentry)) ?_
            exact (halone entry hentry).symm.trans (of_decide_eq_true he)
          rw [hnone, List.append_nil]

/-- **Programs with brackets that match**, on one connection, in any order in which every transaction that is rolled
back has had the connection to itself. -/
theorem durable [DecidableEq σ] [Sequence σ κ] {progs : List (Proc σ κ ε α)} (h : ∀ p ∈ progs, p.Bracketed false)
    (schedule : List ℕ) (hok : Run.Along (Conn.step error) Conn.Orderly (start s₀ progs) schedule) :
    Durable s₀ (Run.run (Conn.step error) (start s₀ progs) schedule) :=
  (Run.run_invariant (I := Inv s₀) (fun _ _ _ h hok hs => h.step hok hs) (.start h) hok).durable

end Conn

end Valv.Conc
