import Valv.Lib.Run
import Mathlib.Algebra.Order.Ring.Int

/-!
# Long polls on the cursor of a mount

A call of `fp_watch` waits until the cursor of its mount has passed `since_seq`, at most 25 seconds.  The sections
that pull move the cursor and wake the calls when they end; calls and sections take their steps in any order.

* `pullDelta`: what `pull_delta` does to the cursor.
* `FpWatchState.step`: calls, sections and uploads.
* `FpWatchState.Lost`: a call sleeps though the cursor has passed it, and no section is to wake it.
* `fp_watch_loses_no_wakeup`: the runs in which no call is ever lost.
-/

namespace Valv.Daemon

/-! ### The cursor in a pull -/

/-- An answer of the backend to `pull_delta`, as far as the cursor depends on it: a page, the 410 of a cursor that
was truncated, or a failure. -/
inductive PullAnswer where
  /-- A page; whether it has operations, and whether they can be applied. -/
  | page (upToSeq : ℤ) (hasOps applies : Bool)
  /-- 410, and the tree that is asked for then. -/
  | gone (upToSeq : Option ℤ)
  | failed
  deriving DecidableEq, Repr

/-- `pull_delta`: the cursor that it leaves, and its result. -/
def pullDelta : List PullAnswer → ℤ → ℤ × Option ℤ
  | [], cursor => (cursor, none)
  | .failed :: _, cursor => (cursor, none)
  | .gone none :: _, cursor => (cursor, none)
  | .gone (some upToSeq) :: _, _ => (upToSeq, some upToSeq)
  | .page upToSeq hasOps applies :: answers, cursor =>
    if upToSeq < cursor then (cursor, none)
    else if !applies then (cursor, none)
    else if !hasOps || upToSeq ≤ cursor then (upToSeq, some upToSeq)
    else pullDelta answers upToSeq

/-- The result is the cursor. -/
theorem pullDelta_result {answers : List PullAnswer} {cursor upToSeq : ℤ}
    (h : (pullDelta answers cursor).2 = some upToSeq) : (pullDelta answers cursor).1 = upToSeq := by
  induction answers generalizing cursor with
  | nil => cases h
  | cons answer answers ih =>
    cases answer with
    | failed => cases h
    | gone tree =>
      cases tree with
      | none => cases h
      | some seq => exact Option.some.inj h
    | page seq hasOps applies =>
      rw [pullDelta] at h ⊢
      split at h
      · cases h
      split at h
      · cases h
      rename_i hlow happlies
      rw [if_neg hlow, if_neg happlies]
      split at h
      · next hlast =>
        rw [if_pos hlast]
        exact Option.some.inj h
      · next hmore =>
        rw [if_neg hmore]
        exact ih h

/-! ### Calls and sections -/

/-- Where a call of `fp_watch_inner` stands. -/
inductive FpWatchStage where
  /-- Behind `notified()`. -/
  | registered
  /-- In the `select`. -/
  | waiting
  /-- Before the cursor is read for the answer. -/
  | passed
  | answered (serverSeq : ℤ)
  deriving DecidableEq, Repr

structure FpWatchCall where
  sinceSeq : ℤ
  stage : FpWatchStage := .registered
  /-- `notify_waiters` was called since the call has registered. -/
  notified : Bool := false
  deriving DecidableEq, Repr

/-- The call sleeps, and nothing has woken it. -/
def FpWatchCall.asleep (c : FpWatchCall) : Bool := c.stage = .waiting && !c.notified

/-- A section of `pull_mount_once` or `full_sync_mount`; it holds the lock of the mount. -/
structure PullSection where
  cursorBefore : ℤ
  /-- The result of `pull_delta`, once there is one. -/
  result : Option (Option ℤ) := none
  deriving DecidableEq, Repr

/-- The section wakes the calls if it succeeds. -/
def PullSection.due (p : PullSection) : Bool :=
  match p.result with
  | some (some cursorAfter) => p.cursorBefore < cursorAfter
  | _ => false

/-- A mount as far as `fp_watch` reads it. -/
structure FpWatchState where
  cursor : ℤ
  calls : List FpWatchCall := []
  pulling : Option PullSection := none
  deriving DecidableEq, Repr

inductive FpWatchEvent where
  /-- A call registers. -/
  | call (sinceSeq : ℤ)
  /-- It reads the cursor and looks whether it has to wait. -/
  | check (i : ℕ)
  | wake (i : ℕ)
  | timeout (i : ℕ)
  | answer (i : ℕ)
  | begin
  | pull (answers : List PullAnswer)
  /-- The section ends behind its pull; whether the files were written. -/
  | finish (applied : Bool)
  /-- The section ends before its pull, or its task is cancelled. -/
  | abandon
  /-- An upload ends, and wakes the calls. -/
  | uploaded
  deriving DecidableEq, Repr

namespace FpWatchState

/-- `notify_waiters`. -/
def notifyWaiters (st : FpWatchState) : FpWatchState :=
  { st with calls := st.calls.map fun c => { c with notified := true } }

/-- A call takes a step. -/
def stepCall (st : FpWatchState) (i : ℕ) (f : FpWatchCall → Option FpWatchStage) : Option FpWatchState := do
  let c ← st.calls[i]?
  let stage ← f c
  pure { st with calls := st.calls.set i { c with stage } }

def step (st : FpWatchState) : FpWatchEvent → Option FpWatchState
  | .call sinceSeq => some { st with calls := st.calls ++ [{ sinceSeq }] }
  | .check i => st.stepCall i fun c =>
    if c.stage = .registered then some (if st.cursor ≤ c.sinceSeq then .waiting else .passed) else none
  | .wake i => st.stepCall i fun c => if c.stage = .waiting && c.notified then some .passed else none
  | .timeout i => st.stepCall i fun c => if c.stage = .waiting then some .passed else none
  | .answer i => st.stepCall i fun c => if c.stage = .passed then some (.answered st.cursor) else none
  | .begin =>
    match st.pulling with
    | none => some { st with pulling := some { cursorBefore := st.cursor } }
    | some _ => none
  | .pull answers =>
    match st.pulling with
    | some { cursorBefore, result := none } =>
      let pulled := pullDelta answers st.cursor
      some { st with cursor := pulled.1, pulling := some { cursorBefore, result := some pulled.2 } }
    | _ => none
  | .finish applied =>
    match st.pulling with
    | some p =>
      if p.result.isSome then
        let ended := { st with pulling := none }
        some (if applied && p.due then ended.notifyWaiters else ended)
      else none
    | none => none
  | .abandon => st.pulling.map fun _ => { st with pulling := none }
  | .uploaded => some st.notifyWaiters

/-- The section under way wakes the calls if it succeeds. -/
def due (st : FpWatchState) : Bool := st.pulling.any PullSection.due

/-- A wake is lost for the call: it sleeps though the cursor has passed the `since_seq` it waits at, and no section
is to wake it any more. -/
def Lost (st : FpWatchState) (c : FpWatchCall) : Prop :=
  c ∈ st.calls ∧ c.asleep = true ∧ c.sinceSeq < st.cursor ∧ st.due = false

/-- The cursor has passed no call that sleeps, so each of them is right to sleep on. -/
def Unpassed (st : FpWatchState) (cursor : ℤ) : Prop := ∀ c ∈ st.calls, c.asleep = true → cursor ≤ c.sinceSeq

/-- When a step loses no call: a pull that moves the cursor past a call succeeds, and so does the section. -/
def StepOk (st : FpWatchState) : FpWatchEvent → Prop
  | .pull answers => (∃ p, st.pulling = some p ∧ p.result = none) →
    (pullDelta answers st.cursor).2.isSome = true ∨ st.Unpassed (pullDelta answers st.cursor).1
  | .finish applied => (∃ p, st.pulling = some p ∧ p.result.isSome = true) → applied = true ∨ st.Unpassed st.cursor
  | .abandon => st.pulling.isSome = true → st.Unpassed st.cursor
  | _ => True

/-- A section that has not pulled yet has read the cursor that is there. The per-mount lock is what makes this an
invariant: no other section writes the cursor meanwhile. -/
def Fresh (st : FpWatchState) : Prop := ∀ p, st.pulling = some p → p.result = none → p.cursorBefore = st.cursor

/-- No call is lost. As long as no section is to wake the calls, none sleeps that the cursor has passed; when one
is, it will wake them all. -/
def Attended (st : FpWatchState) : Prop := st.due = false → st.Unpassed st.cursor

end FpWatchState

section Steps

variable {st st' : FpWatchState} {i : ℕ} {f : FpWatchCall → Option FpWatchStage} {cursor : ℤ}

open FpWatchState

theorem attended_iff : st.Attended ↔ ∀ c, ¬ st.Lost c := by
  constructor
  · rintro h c ⟨hc, hasleep, hpassed, hdue⟩
    have hle := h hdue c hc hasleep
    omega
  · intro h hdue c hc hasleep
    by_contra hle
    exact h c ⟨hc, hasleep, by omega, hdue⟩

/-! ### One step -/

/-- A step of a call changes its stage. -/
theorem stepCall_eq (h : st.stepCall i f = some st') : ∃ c stage, st.calls[i]? = some c ∧ f c = some stage ∧
    st' = { st with calls := st.calls.set i { c with stage } } := by
  rw [stepCall] at h
  cases hc : st.calls[i]? with
  | none =>
    rw [hc] at h
    cases h
  | some c =>
    rw [hc] at h
    change (f c).bind (fun stage => some { st with calls := st.calls.set i { c with stage } }) = some st' at h
    cases hf : f c with
    | none =>
      rw [hf] at h
      cases h
    | some stage =>
      rw [hf] at h
      exact ⟨c, stage, rfl, hf, (Option.some.inj h).symm⟩

/-- A call that goes to sleep has not been passed. -/
theorem attended_stepCall (h : st.Attended)
    (hf : ∀ c stage, f c = some stage → stage = .waiting → st.cursor ≤ c.sinceSeq) :
    ((st.stepCall i f).getD st).Attended := by
  cases hstep : st.stepCall i f with
  | none => exact h
  | some st' =>
    obtain ⟨c, stage, -, hstage, rfl⟩ := stepCall_eq hstep
    show st.due = false → ∀ d ∈ st.calls.set i { c with stage }, d.asleep = true → st.cursor ≤ d.sinceSeq
    intro hdue d hd hasleep
    rcases List.mem_or_eq_of_mem_set hd with hd | rfl
    · exact h hdue d hd hasleep
    · apply hf c stage hstage
      simp only [FpWatchCall.asleep, Bool.and_eq_true, decide_eq_true_eq] at hasleep
      exact hasleep.1

/-- Nor does a step that sends no call to sleep lose one. -/
theorem attended_stepCall_awake (h : st.Attended) (hf : ∀ c, f c ≠ some .waiting) :
    ((st.stepCall i f).getD st).Attended := by
  apply attended_stepCall h
  intro c stage hstage hwaiting
  rw [hwaiting] at hstage
  exact absurd hstage (hf c)

/-- Whoever was there is awake. -/
theorem unpassed_notifyWaiters : st.notifyWaiters.Unpassed cursor := by
  intro c hc hasleep
  obtain ⟨d, -, rfl⟩ := List.mem_map.mp hc
  simp [FpWatchCall.asleep] at hasleep

/-- What a pull does, once the section has read the cursor. -/
theorem attended_pull {before : ℤ} (hpulling : st.pulling = some { cursorBefore := before }) (hfresh : st.Fresh)
    (h : st.Attended) (answers : List PullAnswer) :
    ((st.step (.pull answers)).getD st).Attended ↔
      (pullDelta answers st.cursor).2.isSome = true ∨ st.Unpassed (pullDelta answers st.cursor).1 := by
  have hbefore : before = st.cursor := hfresh _ hpulling rfl
  have hunpassed : st.Unpassed st.cursor := h (by rw [due, hpulling]; rfl)
  rw [step, hpulling]
  show ((PullSection.due { cursorBefore := before, result := some (pullDelta answers st.cursor).2 }) = false →
    st.Unpassed (pullDelta answers st.cursor).1) ↔ _
  cases hresult : (pullDelta answers st.cursor).2 with
  | none =>
    constructor
    · exact fun hnext => .inr (hnext rfl)
    · exact fun hok _ => hok.resolve_left (by simp)
  | some cursorAfter =>
    refine iff_of_true (fun hdue => ?_) (.inl rfl)
    -- the cursor has not moved on
    have hback : ¬ before < cursorAfter := of_decide_eq_false hdue
    rw [pullDelta_result hresult]
    intro c hc hasleep
    have hle := hunpassed c hc hasleep
    omega

/-- What the end of a section does. -/
theorem attended_finish {p : PullSection} (hpulling : st.pulling = some p) (hresult : p.result.isSome = true)
    (h : st.Attended) (applied : Bool) :
    ((st.step (.finish applied)).getD st).Attended ↔ applied = true ∨ st.Unpassed st.cursor := by
  have hdue : st.due = p.due := by rw [due, hpulling, Option.any_some]
  rw [step, hpulling]
  simp only [hresult, if_true, Option.getD_some]
  by_cases hwakes : (applied && p.due) = true
  · rw [if_pos hwakes]
    rw [Bool.and_eq_true] at hwakes
    exact iff_of_true (fun _ => unpassed_notifyWaiters) (.inl hwakes.1)
  · rw [if_neg hwakes]
    show (false = false → st.Unpassed st.cursor) ↔ _
    constructor
    · exact fun hnext => .inr (hnext rfl)
    · rintro (happlied | hunpassed) -
      · rw [happlied, Bool.true_and, Bool.not_eq_true, ← hdue] at hwakes
        exact h hwakes
      · exact hunpassed

/-- **A step loses no call** exactly if it meets the condition. -/
theorem attended_step (hfresh : st.Fresh) (h : st.Attended) (ev : FpWatchEvent) :
    ((st.step ev).getD st).Attended ↔ st.StepOk ev := by
  cases ev with
  | call sinceSeq =>
    refine iff_of_true (fun hdue c hc hasleep => ?_) trivial
    rcases List.mem_append.mp hc with hc | hc
    · exact h hdue c hc hasleep
    · rw [List.mem_singleton.mp hc] at hasleep
      cases hasleep
  | check i =>
    refine iff_of_true (attended_stepCall h fun c stage hstage hwaiting => ?_) trivial
    split at hstage
    · rw [← Option.some.inj hstage] at hwaiting
      split at hwaiting
      · assumption
      · cases hwaiting
    · cases hstage
  | wake i =>
    refine iff_of_true (attended_stepCall_awake h fun c => ?_) trivial
    split
    · simp
    · simp
  | timeout i =>
    refine iff_of_true (attended_stepCall_awake h fun c => ?_) trivial
    split
    · simp
    · simp
  | answer i =>
    refine iff_of_true (attended_stepCall_awake h fun c => ?_) trivial
    split
    · simp
    · simp
  | begin =>
    refine iff_of_true ?_ trivial
    rw [step]
    cases hpulling : st.pulling with
    | none =>
      have hdue : st.due = false := by rw [due, hpulling, Option.any_none]
      exact fun _ => h hdue
    | some p => exact h
  | pull answers =>
    rw [StepOk]
    cases hpulling : st.pulling with
    | none =>
      rw [step, hpulling]
      refine iff_of_true h fun hp => ?_
      obtain ⟨p, hp, -⟩ := hp
      cases hp
    | some p =>
      obtain ⟨before, result⟩ := p
      cases result with
      | none =>
        rw [attended_pull hpulling hfresh h]
        exact ⟨fun hok _ => hok, fun hok => hok ⟨_, rfl, rfl⟩⟩
      | some result =>
        rw [step, hpulling]
        refine iff_of_true h fun hp => ?_
        obtain ⟨p, hp, hnone⟩ := hp
        rw [← Option.some.inj hp] at hnone
        cases hnone
  | finish applied =>
    rw [StepOk]
    cases hpulling : st.pulling with
    | none =>
      rw [step, hpulling]
      refine iff_of_true h fun hp => ?_
      obtain ⟨p, hp, -⟩ := hp
      cases hp
    | some p =>
      by_cases hresult : p.result.isSome = true
      · rw [attended_finish hpulling hresult h]
        exact ⟨fun hok _ => hok, fun hok => hok ⟨p, rfl, hresult⟩⟩
      · rw [step, hpulling]
        simp only [hresult]
        refine iff_of_true h fun hp => ?_
        obtain ⟨q, hq, hsome⟩ := hp
        rw [← Option.some.inj hq] at hsome
        exact absurd hsome hresult
  | abandon =>
    rw [StepOk, step]
    cases hpulling : st.pulling with
    | none => exact iff_of_true h fun hsome => by cases hsome
    | some p =>
      show (false = false → st.Unpassed st.cursor) ↔ _
      exact ⟨fun hnext _ => hnext rfl, fun hok _ => hok rfl⟩
  | uploaded => exact iff_of_true (fun _ => unpassed_notifyWaiters) trivial

/-- A section has read the cursor that is there, until it pulls. -/
theorem fresh_step (hfresh : st.Fresh) {ev : FpWatchEvent} (h : st.step ev = some st') : st'.Fresh := by
  have hcalls : ∀ {f : FpWatchCall → Option FpWatchStage} {i : ℕ}, st.stepCall i f = some st' → st'.Fresh := by
    intro f i hstep
    obtain ⟨c, stage, -, -, rfl⟩ := stepCall_eq hstep
    exact hfresh
  cases ev with
  | call sinceSeq =>
    cases h
    exact hfresh
  | check i => exact hcalls h
  | wake i => exact hcalls h
  | timeout i => exact hcalls h
  | answer i => exact hcalls h
  | begin =>
    rw [step] at h
    split at h
    · cases h
      intro p hp _
      rw [← Option.some.inj hp]
    · cases h
  | pull answers =>
    rw [step] at h
    split at h
    · cases h
      intro p hp hnone
      rw [← Option.some.inj hp] at hnone
      cases hnone
    · cases h
  | finish applied =>
    have hnone : st'.pulling = none := by
      rw [step] at h
      split at h
      · split at h
        · rw [← Option.some.inj h]
          split
          · rfl
          · rfl
        · cases h
      · cases h
    intro p hp
    rw [hnone] at hp
    cases hp
  | abandon =>
    rw [step] at h
    obtain ⟨p, -, rfl⟩ := Option.map_eq_some_iff.mp h
    intro q hq
    cases hq
  | uploaded =>
    cases h
    exact hfresh

end Steps

/-! ### Every run -/

/-- **No wake-up is lost in exactly the runs whose steps meet the condition**: in every other run there is a moment
at which a call sleeps though the cursor has passed it and no section is to wake it. -/
theorem fp_watch_loses_no_wakeup (cursor : ℤ) (evs : List FpWatchEvent) :
    Run.Along FpWatchState.step (fun st ev => ∀ c, ¬ ((st.step ev).getD st).Lost c) { cursor } evs ↔
      Run.Along FpWatchState.step FpWatchState.StepOk { cursor } evs := by
  have hstart : FpWatchState.Fresh { cursor } ∧ FpWatchState.Attended { cursor } := by
    refine ⟨fun p hp => ?_, fun _ c hc => ?_⟩
    · cases hp
    · cases hc
  have hnext : ∀ (st : FpWatchState) ev, st.Fresh → ((st.step ev).getD st).Fresh := by
    intro st ev hfresh
    cases hstep : st.step ev with
    | none => exact hfresh
    | some st' => exact fresh_step hfresh hstep
  have hexact : Run.Along FpWatchState.step (fun st ev => ((st.step ev).getD st).Fresh ∧
      ((st.step ev).getD st).Attended) { cursor } evs ↔
        Run.Along FpWatchState.step FpWatchState.StepOk { cursor } evs := by
    refine Run.Along.iff_of_step (I := fun st : FpWatchState => st.Fresh ∧ st.Attended) (fun st ev hst => ?_) hstart
    rw [← attended_step hst.1 hst.2]
    exact and_iff_right (hnext st ev hst.1)
  rw [← hexact]
  constructor
  · intro h
    have hany : Run.Along FpWatchState.step (fun _ _ => True) { cursor } evs :=
      Run.Along.of_forall (fun _ _ => trivial) evs _
    have hfresh : Run.Along FpWatchState.step (fun st ev => ((st.step ev).getD st).Fresh) { cursor } evs :=
      Run.Along.of_invariant (I := FpWatchState.Fresh) (fun st ev st' hst _ hstep => fresh_step hst hstep)
        (fun st ev hst _ => hnext st ev hst) hstart.1 hany
    exact (hfresh.and h).mono fun st ev hboth => ⟨hboth.1, attended_iff.mpr hboth.2⟩
  · exact fun h => h.mono fun st ev hboth => attended_iff.mp hboth.2

/-- A call waits while a section pulls and writes its files. -/
example : (Run.run FpWatchState.step { cursor := 5 } [.call 5, .check 0, .begin,
    .pull [.page 7 true true, .page 7 false true], .finish true, .wake 0, .answer 0]).calls.map
      FpWatchCall.stage = [.answered 7] := by decide

/-- **A wake-up is lost.**  The section moves the cursor and then fails to write its files: the call sleeps on. -/
theorem fp_watch_sleeps_on :
    ¬ Run.Along FpWatchState.step (fun st ev => ∀ c, ¬ ((st.step ev).getD st).Lost c) { cursor := 5 }
      [.call 5, .check 0, .begin, .pull [.page 7 true true, .page 7 false true], .finish false] := by
  intro h
  exact h.2.2.2.2.1 { sinceSeq := 5, stage := .waiting } ⟨by decide, by decide, by decide, by decide⟩

end Valv.Daemon
