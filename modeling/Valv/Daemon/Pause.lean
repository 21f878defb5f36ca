import Valv.Daemon.SyncLoop
import Valv.Daemon.Watcher

/-!
# Pauses

`post_pause` and `post_resume` of `valvd/src/control.rs` with the sync loop and the watcher of a mount.

* `PauseState.step`: the requests, the loop and the watcher, in any order.
* `PauseState.Honoured`: what is asked for.
* `PauseState.PauseOk`: the condition on a step.
* `pauseInv_step`: a step.
* `pause_honoured`, `pause_broken`: every run.
-/

namespace Valv.Daemon

/-! ### State -/

/-- The tasks of a mount and the pauses.  `resumes` counts the `post_resume` requests that have lowered the flag and
not sent their notification yet; `userDropped` tells whether the watcher has dropped events in a pause of the user's
since it last slept one off; `uncovered` whether a wake or an event was discarded for a pause, the mount being neither
dirty nor about to catch up then or since. -/
structure PauseState where
  loop : SyncLoop := {}
  watch : Watch := {}
  materializing : Bool := false
  resumes : ℕ := 0
  userDropped : Bool := false
  uncovered : Bool := false

inductive PauseEvent where
  | loop (ev : LoopEvent)
  | watch (ev : WatchEvent)
  | materializing (materializing : Bool)
  /-- `post_pause`. -/
  | paused
  /-- `post_resume` lowers the flag, and sends the notification of the mount. -/
  | resumed
  | notified (registered : Bool)

/-! ### Steps of the tasks -/

/-- The requests alone write the flag. -/
def LoopEvent.ofRequests : LoopEvent → Bool
  | .userPaused _ => true
  | _ => false

/-- The loop alone takes the mark, and starts a new watcher. -/
def WatchEvent.ofLoop : WatchEvent → Bool
  | .taken => true
  | .marked => true
  | .respawned => true
  | _ => false

/-- Others change the disk and the mirror and halt the mount; the rest is the callback and the loop of the watcher, and
comes only while there is one. -/
def WatchEvent.ofOthers : WatchEvent → Bool
  | .changed _ _ => true
  | .mirrored _ => true
  | .halted => true
  | _ => false

/-- The loop notices that the watcher has ended, or starts a new one: nothing is left of what the old one had in its
channel and of its flags. -/
def LoopEvent.renewsWatcher : LoopEvent → Bool
  | .watcherExited _ _ => true
  | .respawnReached respawn => respawn = .spawned
  | _ => false

/-- The step calls `DirtySignal::mark`. -/
def Watch.marks (f : Flags) (mount : MountState) (w : Watch) : WatchEvent → Bool
  | .notified kind paths _ => !f.raised && mapNotifyEvent kind paths = some .dirty
  | .woken => w.stage = .dozing && w.suppressed
  | .handled a =>
    match w.stage with
    | .handling (e :: _) =>
      match (handleFsEvent mount w.mirror e a).result with
      | .error .failed => true
      | _ => false
    | _ => false
  | _ => false

/-- Nothing is left to begin that the check of the pause has let through. -/
def LoopStage.quiet : LoopStage → Bool
  | .debouncing => false
  | .pushing => false
  | .pulling => false
  | .materializing => false
  | _ => true

def WatchStage.quiet : WatchStage → Bool
  | .locking _ => false
  | .handling (_ :: _) => false
  | _ => true

/-- The step drops events of the channel because a pause of the user's is on. -/
def Watch.drops (f : Flags) (w : Watch) : WatchEvent → Bool
  | .looped => w.stage = .head && !w.updateRequired && f.paused
  | .debounced values =>
    match w.stage with
    | .debouncing first => f.paused && decide (values.Perm (collapsed (first :: w.queue)))
    | _ => false
  | _ => false

namespace PauseState

variable (mount : MountState) (s : PauseState)

def flags : Flags := { paused := s.loop.paused, materializing := s.materializing }

/-- The mount is dirty, or a catch-up notification is in its channel. -/
def covered : Bool := s.loop.dirty || decide (s.loop.CatchUp mount.folderId)

/-- The step discards a wake or an event because of a pause. -/
def discards : PauseEvent → Bool
  | .loop .checked => decide (s.loop.stage = .woken .periodic ∨ s.loop.stage = .woken .dirty) && s.loop.paused
  | .watch (.notified kind paths _) =>
    shouldMarkSuppressedDuringPause s.loop.paused s.materializing (mapNotifyEvent kind paths)
  | .watch .looped => s.watch.drops s.flags .looped && !s.watch.queue.isEmpty
  | .watch (.debounced values) => s.watch.drops s.flags (.debounced values)
  | .watch .woken => decide (s.watch.stage = .dozing) && s.userDropped && !s.watch.queue.isEmpty
  | _ => false

/-- The loop and the watcher share the dirty mark; taking it is the loop's, and so is the start of a new watcher. -/
def afterLoop (ev : LoopEvent) (l : SyncLoop) : PauseState :=
  { s with
    loop := l
    watch :=
      if ev.renewsWatcher then { s.watch.respawn with dirty := l.dirty }
      else if s.watch.dirty && !l.dirty then
        { s.watch with dirty := false, changes := s.watch.changes.map fun c => { c with reconciled := true } }
      else { s.watch with dirty := l.dirty }
    userDropped := s.userDropped && !ev.renewsWatcher }

def afterWatch (ev : WatchEvent) (w : Watch) : PauseState :=
  { s with
    watch := w
    loop := { s.loop with dirty := w.dirty, permit := s.loop.permit || s.watch.marks s.flags mount ev }
    userDropped := match ev with
      | .woken => false
      | _ => s.userDropped || s.watch.drops s.flags ev }

/-- The step, but for `uncovered`. -/
def next : PauseEvent → Option PauseState
  | .loop ev => if ev.ofRequests then none else (s.loop.step mount.folderId ev).map (s.afterLoop ev)
  | .watch ev => if ev.ofLoop || !(ev.ofOthers || s.loop.watcher.handle) then none else (s.watch.step s.flags mount ev).map (s.afterWatch mount ev)
  | .materializing materializing => some { s with materializing }
  | .paused => some { s with loop := { s.loop with paused := true } }
  | .resumed => some { s with loop := { s.loop with paused := false }, resumes := s.resumes + 1 }
  | .notified registered =>
    if s.resumes = 0 then none
    else if registered ∧ s.loop.notifications.length < 32 then
      some
        { s with
          loop := { s.loop with notifications := s.loop.notifications ++ [{ folderId := mount.folderId, serverSeq := 0 }] }
          resumes := s.resumes - 1 }
    else some { s with resumes := s.resumes - 1 }

def step (ev : PauseEvent) : Option PauseState :=
  (s.next mount ev).map fun s' =>
    { s' with uncovered := (s.uncovered || s.discards ev) && !s'.covered mount }

/-! ### What is asked for -/

/-- The step begins a push, a pull, a materialization or a submission. -/
def begins : PauseEvent → Bool
  | .loop (.pushed _) => s.loop.stage = .pushing
  | .loop (.pulled _) => s.loop.stage = .pulling
  | .loop .materialized => s.loop.stage = .materializing
  | .watch (.handled _) =>
    match s.watch.stage with
    | .handling (_ :: _) => true
    | _ => false
  | _ => false

/-- The pause is over: the flag is down, and every `post_resume` that took it down has been answered, so that its
marks are made. -/
def Settled : Prop := s.loop.paused = false ∧ s.resumes = 0

instance : Decidable s.Settled := inferInstanceAs (Decidable (_ ∧ _))

/-- The pause is honoured by this event. No section of work begins while the flag is up, and once the pause is
settled whatever the watcher has thrown away in it is covered by a mark. -/
def Honoured (ev : PauseEvent) : Prop :=
  (s.begins ev = true → s.loop.paused = false) ∧
    (((s.step mount ev).getD s).Settled → ((s.step mount ev).getD s).uncovered = false)

instance (ev : PauseEvent) : Decidable (s.Honoured mount ev) := inferInstanceAs (Decidable (_ ∧ _))

/-- No work is left to begin that a check of the flag has let through before it went up. Until then a section may
still begin in the pause. -/
def Quiet : Prop := s.loop.stage.quiet = true ∧ s.watch.stage.quiet = true

instance : Decidable s.Quiet := inferInstanceAs (Decidable (_ ∧ _))

/-- The condition: a pause is answered while no work is left to begin; the notification of a resume reaches the
channel; and what the watcher drains after the pause is covered. -/
def PauseOk : PauseEvent → Prop
  | .paused => s.Quiet
  | .notified registered =>
    s.uncovered = true → registered = true ∧ s.loop.notifications.length < 32 ∨ s.covered mount = true
  | .watch .woken =>
    s.Settled → s.discards (.watch .woken) = true → s.watch.dirty = true ∨ s.watch.suppressed = true ∨
      s.loop.CatchUp mount.folderId
  | _ => True

/-- Along the run nothing is left to begin in a pause, and what was discarded is covered after it. -/
structure Inv : Prop where
  quiet : s.loop.paused = true → s.Quiet
  covered : s.Settled → s.uncovered = false

end PauseState

/-! ### A step -/

section Steps

open PauseState

variable {mount : MountState} {s s' : PauseState}

theorem respawn_stage (l : SyncLoop) (r : Respawn) : (l.respawn r).stage = l.stage := by
  cases r <;> rfl

theorem respawn_paused (l : SyncLoop) (r : Respawn) : (l.respawn r).paused = l.paused := by
  cases r <;> rfl

theorem handleWatcherExit_stage (l : SyncLoop) (lived : ℕ) (r : Respawn) :
    (l.handleWatcherExit lived r).stage = l.stage := by
  rw [SyncLoop.handleWatcherExit]
  split
  · rw [respawn_stage]
    rfl
  · rfl

theorem handleWatcherExit_paused (l : SyncLoop) (lived : ℕ) (r : Respawn) :
    (l.handleWatcherExit lived r).paused = l.paused := by
  rw [SyncLoop.handleWatcherExit]
  split
  · rw [respawn_paused]
    rfl
  · rfl

theorem receive_stage (folderId : String) (l : SyncLoop) (notification : WsPushNotification)
    (rest : List WsPushNotification) : (l.receive folderId notification rest).stage = l.stage := by
  rw [SyncLoop.receive]
  split
  · rfl
  · split <;> rfl

theorem receive_paused (folderId : String) (l : SyncLoop) (notification : WsPushNotification)
    (rest : List WsPushNotification) : (l.receive folderId notification rest).paused = l.paused := by
  rw [SyncLoop.receive]
  split
  · rfl
  · split <;> rfl

/-- The loop never writes the flag, and in a pause it gets past no check. -/
theorem loop_step {folderId : String} {l l' : SyncLoop} {ev : LoopEvent} (h : l.step folderId ev = some l')
    (hev : ev.ofRequests = false) :
    l'.paused = l.paused ∧ (l.paused = true → l.stage.quiet = true → l'.stage.quiet = true) := by
  -- a step from a stage past a check
  have hpast : ∀ {stage : LoopStage}, l.stage = stage → stage.quiet = false →
      l.stage.quiet = true → l'.stage.quiet = true := by
    intro stage hstage hpast hquiet
    rw [hstage, hpast] at hquiet
    cases hquiet
  cases ev with
  | ticked =>
    simp only [SyncLoop.step, Option.ite_none_right_eq_some, Option.some.injEq] at h
    rw [← h.2]
    exact ⟨rfl, fun _ _ => rfl⟩
  | received =>
    rw [SyncLoop.step] at h
    split at h
    · cases h
      rw [receive_stage, receive_paused]
      exact ⟨rfl, fun _ => id⟩
    · cases h
  | closed =>
    simp only [SyncLoop.step, Option.ite_none_right_eq_some, Option.some.injEq] at h
    rw [← h.2]
    exact ⟨rfl, fun _ _ => rfl⟩
  | deadlineReached =>
    simp only [SyncLoop.step, Option.ite_none_right_eq_some, Option.some.injEq] at h
    rw [← h.2]
    exact ⟨rfl, fun _ _ => rfl⟩
  | dirtyNotified =>
    simp only [SyncLoop.step, Option.ite_none_right_eq_some, Option.some.injEq] at h
    rw [← h.2]
    exact ⟨rfl, fun _ _ => rfl⟩
  | watcherExited lived r =>
    simp only [SyncLoop.step, Option.ite_none_right_eq_some, Option.some.injEq] at h
    rw [← h.2, handleWatcherExit_paused, handleWatcherExit_stage]
    exact ⟨rfl, fun _ => id⟩
  | respawnReached r =>
    simp only [SyncLoop.step, Option.ite_none_right_eq_some, Option.some.injEq] at h
    rw [← h.2, respawn_paused, respawn_stage]
    exact ⟨rfl, fun _ => id⟩
  | checked =>
    rw [SyncLoop.step] at h
    split at h
    · next wake _ =>
      cases h
      rw [SyncLoop.check.eq_def]
      by_cases hpaused : l.paused = true
      · rw [if_pos hpaused]
        exact ⟨rfl, fun _ _ => rfl⟩
      · rw [if_neg hpaused]
        refine ⟨?_, fun hp => absurd hp hpaused⟩
        cases wake with
        | periodic =>
          show (if l.dirty then l.reconcile else l.pullOnly).paused = l.paused
          split <;> rfl
        | dirty => rfl
    · cases h
  | debounced =>
    simp only [SyncLoop.step, Option.ite_none_right_eq_some, Option.some.injEq] at h
    refine ⟨?_, fun _ => hpast h.1 rfl⟩
    rw [← h.2, SyncLoop.wakeDirty]
    split <;> rfl
  | pushed outcome =>
    simp only [SyncLoop.step, Option.ite_none_right_eq_some, Option.some.injEq] at h
    refine ⟨?_, fun _ => hpast h.1 rfl⟩
    rw [← h.2, SyncLoop.push]
    split <;> rfl
  | pulled ok =>
    simp only [SyncLoop.step, Option.ite_none_right_eq_some, Option.some.injEq] at h
    refine ⟨?_, fun _ => hpast h.1 rfl⟩
    rw [← h.2]
  | materialized =>
    simp only [SyncLoop.step, Option.ite_none_right_eq_some, Option.some.injEq] at h
    rw [← h.2]
    exact ⟨rfl, fun _ _ => rfl⟩
  | abandoned =>
    simp only [SyncLoop.step, Option.ite_none_right_eq_some, Option.some.injEq] at h
    rw [← h.2]
    exact ⟨rfl, fun _ _ => rfl⟩
  | userPaused paused => cases hev
  | sent notification =>
    cases h
    exact ⟨rfl, fun _ => id⟩
  | marked =>
    cases h
    exact ⟨rfl, fun _ => id⟩
  | pushedElsewhere outcome =>
    cases h
    exact ⟨rfl, fun _ => id⟩

/-- In a pause the watcher gets past no check. -/
theorem watch_quiet {f : Flags} {w w' : Watch} {ev : WatchEvent} (h : w.step f mount ev = some w')
    (hpaused : f.paused = true) (hquiet : w.stage.quiet = true) : w'.stage.quiet = true := by
  have hraised : f.raised = true := by simp [Flags.raised, hpaused]
  cases ev with
  | changed path entry =>
    cases h
    exact hquiet
  | notified kind paths own =>
    cases h
    rw [Watch.notify]
    cases mapNotifyEvent kind paths with
    | none => exact hquiet
    | some signal =>
      simp only [Watch.signalled, if_pos hraised]
      exact hquiet
  | sent =>
    rw [Watch.step] at h
    split at h
    · cases h
    · cases h
      exact hquiet
  | mirrored m =>
    cases h
    exact hquiet
  | marked =>
    cases h
    exact hquiet
  | taken =>
    simp only [Watch.step, Option.ite_none_right_eq_some, Option.some.injEq] at h
    rw [← h.2]
    exact hquiet
  | halted =>
    cases h
    exact hquiet
  | respawned =>
    cases h
    rfl
  | looped =>
    simp only [Watch.step, Option.ite_none_right_eq_some, Option.some.injEq] at h
    rw [← h.2, Watch.loop, if_pos hraised]
    split <;> exact hquiet
  | woken =>
    simp only [Watch.step, Option.ite_none_right_eq_some, Option.some.injEq] at h
    rw [← h.2]
    rfl
  | received =>
    rw [Watch.step] at h
    split at h
    · cases h
      rfl
    · cases h
  | debounced values =>
    rw [Watch.step] at h
    split at h
    · simp only [Option.ite_none_right_eq_some, Option.some.injEq] at h
      rw [← h.2, Watch.debounce, if_pos hraised]
      rfl
    · cases h
  | locked =>
    rw [Watch.step] at h
    split at h
    · next batch hstage =>
      rw [hstage] at hquiet
      cases hquiet
    · cases h
  | handled a =>
    rw [Watch.step] at h
    split at h
    · next e rest hstage =>
      rw [hstage] at hquiet
      cases hquiet
    · cases h
  | finished =>
    simp only [Watch.step, Option.ite_none_right_eq_some, Option.some.injEq] at h
    rw [← h.2]
    rfl
  | drained =>
    simp only [Watch.step, Option.ite_none_right_eq_some, Option.some.injEq] at h
    rw [← h.2]
    rfl

theorem next_loop {ev : LoopEvent} (h : s.next mount (.loop ev) = some s') :
    ev.ofRequests = false ∧ ∃ l, s.loop.step mount.folderId ev = some l ∧ s' = s.afterLoop ev l := by
  simp only [next, Option.ite_none_left_eq_some, Option.map_eq_some_iff, Bool.not_eq_true] at h
  obtain ⟨hev, l, hl, rfl⟩ := h
  exact ⟨hev, l, hl, rfl⟩

theorem next_watch {ev : WatchEvent} (h : s.next mount (.watch ev) = some s') :
    ∃ w, s.watch.step s.flags mount ev = some w ∧ s' = s.afterWatch mount ev w := by
  simp only [next, Option.ite_none_left_eq_some, Option.map_eq_some_iff] at h
  obtain ⟨-, w, hw, rfl⟩ := h
  exact ⟨w, hw, rfl⟩

theorem next_notified {registered : Bool} (h : s.next mount (.notified registered) = some s') :
    s'.loop.paused = s.loop.paused ∧ s'.loop.stage = s.loop.stage ∧ s'.watch = s.watch ∧
      (s.covered mount = true → s'.covered mount = true) ∧
      (registered = true ∧ s.loop.notifications.length < 32 → s'.covered mount = true) := by
  rw [next] at h
  split at h
  · cases h
  · split at h
    · cases h
      refine ⟨rfl, rfl, rfl, ?_, ?_⟩
      · simp only [covered, SyncLoop.CatchUp, Bool.or_eq_true, decide_eq_true_eq, List.mem_append]
        tauto
      · simp [covered, SyncLoop.CatchUp]
    · next hno =>
      cases h
      exact ⟨rfl, rfl, rfl, id, fun hyes => absurd hyes hno⟩

/-- The watcher never hides a mark from the loop. -/
theorem wake_dirty {w : Watch} (h : s.watch.step s.flags mount .woken = some w) :
    w.dirty = (s.watch.dirty || s.watch.suppressed) := by
  simp only [Watch.step, Option.ite_none_right_eq_some, Option.some.injEq] at h
  rw [← h.2]
  rfl

/-- In a pause no work is left to begin. -/
theorem quiet_next {ev : PauseEvent} (h : s.loop.paused = true → s.Quiet) (hok : s.PauseOk mount ev)
    (hs : s.next mount ev = some s') (hpaused : s'.loop.paused = true) : s'.Quiet := by
  cases ev with
  | loop ev =>
    obtain ⟨hev, l, hl, rfl⟩ := next_loop hs
    have hstep := loop_step hl hev
    have hbefore : s.loop.paused = true := hstep.1.symm.trans hpaused
    have hquiet := h hbefore
    refine ⟨hstep.2 hbefore hquiet.1, ?_⟩
    rw [afterLoop]
    split_ifs
    · rfl
    · exact hquiet.2
    · exact hquiet.2
  | watch ev =>
    obtain ⟨w, hw, rfl⟩ := next_watch hs
    have hquiet := h hpaused
    exact ⟨hquiet.1, watch_quiet hw hpaused hquiet.2⟩
  | materializing materializing =>
    cases hs
    exact h hpaused
  | paused =>
    cases hs
    exact hok
  | resumed =>
    cases hs
    cases hpaused
  | notified registered =>
    obtain ⟨hflag, hstage, hwatch, -⟩ := next_notified hs
    rw [Quiet, hstage, hwatch]
    exact h (hflag.symm.trans hpaused)

/-- With the flag down nothing is discarded but by the watcher that has slept off a pause. -/
theorem discards_settled {ev : PauseEvent} (hpaused : s.loop.paused = false) (hev : ev ≠ .watch .woken) :
    s.discards ev = false := by
  cases ev with
  | loop ev => cases ev <;> simp [discards, hpaused]
  | watch ev =>
    cases ev with
    | notified kind paths own => simp [discards, shouldMarkSuppressedDuringPause, hpaused]
    | looped => simp [discards, Watch.drops, flags, hpaused]
    | debounced values =>
      simp only [discards, Watch.drops, flags, hpaused]
      split <;> rfl
    | woken => exact absurd rfl hev
    | _ => rfl
  | _ => rfl

/-- Once every resume is answered nothing is uncovered. -/
theorem covered_next {ev : PauseEvent} (h : s.Settled → s.uncovered = false) (hok : s.PauseOk mount ev)
    (hs : s.next mount ev = some s') (hsettled : s'.Settled) :
    ((s.uncovered || s.discards ev) && !s'.covered mount) = false := by
  -- the steps that leave the flag and the requests as they are
  have hkeep : s.Settled → ev ≠ .watch .woken → ((s.uncovered || s.discards ev) && !s'.covered mount) = false := by
    intro hbefore hev
    simp [h hbefore, discards_settled hbefore.1 hev]
  cases ev with
  | loop ev =>
    obtain ⟨hev, l, hl, rfl⟩ := next_loop hs
    exact hkeep ⟨(loop_step hl hev).1.symm.trans hsettled.1, hsettled.2⟩ (by simp)
  | watch ev =>
    obtain ⟨w, hw, rfl⟩ := next_watch hs
    by_cases hev : PauseEvent.watch ev = .watch .woken
    · cases hev
      have hbefore : s.Settled := hsettled
      by_cases hdiscards : s.discards (.watch .woken) = true
      · have hcovered : (s.afterWatch mount .woken w).covered mount = true := by
          simp only [covered, afterWatch, wake_dirty hw, Bool.or_eq_true, decide_eq_true_eq]
          rcases hok hbefore hdiscards with hdirty | hsuppressed | hcatchup
          · exact Or.inl (Or.inl hdirty)
          · exact Or.inl (Or.inr hsuppressed)
          · exact Or.inr hcatchup
        simp [hcovered]
      · simp [h hbefore, hdiscards]
    · exact hkeep hsettled hev
  | materializing materializing =>
    cases hs
    exact hkeep hsettled (by simp)
  | paused =>
    cases hs
    cases hsettled.1
  | resumed =>
    cases hs
    cases hsettled.2
  | notified registered =>
    obtain ⟨-, -, -, hkept, hsent⟩ := next_notified hs
    have hdiscards : s.discards (.notified registered) = false := rfl
    by_cases huncovered : s.uncovered = true
    · have hcovered : s'.covered mount = true := (hok huncovered).elim hsent hkept
      simp [hcovered]
    · simp [huncovered, hdiscards]

/-- **A step.** -/
theorem pauseInv_step {ev : PauseEvent} (h : s.Inv) (hok : s.PauseOk mount ev)
    (hs : s.step mount ev = some s') : s'.Inv := by
  obtain ⟨r, hnext, rfl⟩ := Option.map_eq_some_iff.1 hs
  have hquiet : r.loop.paused = true → r.Quiet := quiet_next h.quiet hok hnext
  have hcovered : r.Settled → ((s.uncovered || s.discards ev) && !r.covered mount) = false :=
    covered_next h.covered hok hnext
  exact ⟨hquiet, hcovered⟩

/-- What is asked for holds of the step. -/
theorem honoured_of_inv {ev : PauseEvent} (h : s.Inv) (hok : s.PauseOk mount ev) : s.Honoured mount ev := by
  constructor
  · -- what begins is past a check
    intro hbegins
    by_contra hpaused
    have hquiet := h.quiet (by simpa using hpaused)
    cases ev with
    | loop ev =>
      cases ev with
      | pushed outcome =>
        have hstage : s.loop.stage = .pushing := by simpa [begins] using hbegins
        have hquiet := hquiet.1
        rw [hstage] at hquiet
        cases hquiet
      | pulled ok =>
        have hstage : s.loop.stage = .pulling := by simpa [begins] using hbegins
        have hquiet := hquiet.1
        rw [hstage] at hquiet
        cases hquiet
      | materialized =>
        have hstage : s.loop.stage = .materializing := by simpa [begins] using hbegins
        have hquiet := hquiet.1
        rw [hstage] at hquiet
        cases hquiet
      | _ => cases hbegins
    | watch ev =>
      cases ev with
      | handled a =>
        simp only [begins] at hbegins
        split at hbegins
        · next e rest hstage =>
          have hquiet := hquiet.2
          rw [hstage] at hquiet
          cases hquiet
        · cases hbegins
      | _ => cases hbegins
    | _ => cases hbegins
  · cases hs : s.step mount ev with
    | none => exact h.covered
    | some s' => exact (pauseInv_step h hok hs).covered

end Steps

/-! ### Every run -/

/-- **A pause is honoured** along every run whose steps meet the condition. -/
theorem pause_honoured (mount : MountState) (s : PauseState) (hs : s.Inv) (evs : List PauseEvent)
    (h : Run.Along (PauseState.step mount) (PauseState.PauseOk mount) s evs) :
    Run.Along (PauseState.step mount) (PauseState.Honoured mount) s evs :=
  Run.Along.of_invariant (I := PauseState.Inv) (fun _ _ _ hs hok => pauseInv_step hs hok)
    (fun _ _ hs hok => honoured_of_inv hs hok) hs h

/-- The user pauses, a file is written and a tick is discarded; after the resume the catch-up is reconciled. -/
def pausedDay : List PauseEvent :=
  [.paused, .watch (.notified .modifyData [docsFile] false), .loop .ticked, .loop .checked, .resumed, .notified true,
    .loop .received, .loop .dirtyNotified, .loop .checked, .loop .debounced,
    .loop (.pushed (.summary { createsSubmitted := 1 } 0)), .loop (.pulled true), .loop .materialized]

theorem pause_honoured_day :
    Run.Along (PauseState.step docsMount) (PauseState.Honoured docsMount) {} pausedDay := by
  refine pause_honoured docsMount {} ⟨fun _ => by decide, fun _ => rfl⟩ pausedDay ?_
  refine ⟨?_, trivial, trivial, trivial, trivial, ?_, trivial, trivial, trivial, trivial, trivial, trivial, trivial,
    trivial⟩
  · show PauseState.Quiet _
    decide
  · exact fun _ => Or.inl ⟨rfl, by decide⟩

/-- **A pause is not honoured.**  It is answered in the sleep of a dirty wake, and the push begins in it.  And a tick
takes the mark of the catch-up while the watcher sleeps off the pause: it drains the event of a file that is written
then. -/
theorem pause_broken :
    ¬ Run.Along (PauseState.step docsMount) (PauseState.Honoured docsMount) {}
        [.watch (.notified .remove [docsFile] false), .loop .dirtyNotified, .loop .checked, .paused, .loop .debounced,
          .loop (.pushed (.failed false))] ∧
      ¬ Run.Along (PauseState.step docsMount) (PauseState.Honoured docsMount) {}
        [.paused, .watch .looped, .resumed, .notified true, .loop .received, .watch .looped, .loop .ticked,
          .loop .checked, .watch (.notified .modifyData [docsFile] false), .watch .sent, .watch .woken] := by
  constructor
  · decide
  · decide

end Valv.Daemon
