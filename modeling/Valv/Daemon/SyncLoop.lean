import Mathlib.Data.List.Basic
import Mathlib.Tactic.Common
import Valv.Client.Push
import Valv.Lib.Run

/-!
# The sync loop

`sync_loop` of `valvd/src/tasks.rs` as a state machine: the arms of its select, the check of the pause, and the work of
`full_sync_mount` and `pull_mount_once`.

* `SyncLoop.step`: the loop, step by step, with what others do in between.
* `SyncLoop.Pending`: what is asked for.
* `SyncLoop.StepOk`: the condition on a step.
* `pending_step`: a step.
* `failed_push_pending`, `failed_push_forgotten`: every run.
-/

namespace Valv.Daemon

/-! ### State -/

/-- `WsPushNotification`: the frame of the hub, and what the link sends itself when it has subscribed. A
`server_seq` of 0 is the catch-up. -/
structure WsPushNotification where
  folderId : String
  serverSeq : ℕ
  deriving DecidableEq, Repr

inductive SyncLoopWake where
  | periodic
  | dirty
  deriving DecidableEq, Repr

/-- Where `sync_loop` is. At `pushing`, `pulling` and `materializing` the step is still to begin, so a change of
another task can come before it. -/
inductive LoopStage where
  | selecting
  | woken (wake : SyncLoopWake)
  /-- The sleep of a dirty wake. -/
  | debouncing
  | pushing
  | pulling
  | materializing
  | ended
  deriving DecidableEq, Repr

/-- `WatcherState`, in milliseconds. -/
structure WatcherTask where
  handle : Bool := true
  backoff : ℕ := 0
  respawnAt : Bool := false
  deriving DecidableEq, Repr

/-- How `respawn_watcher` ends: without a credential, without an entry in `state.tasks`, or with a new watcher. -/
inductive Respawn where
  | noCredential
  | gone
  | spawned
  deriving DecidableEq, Repr

/-- What `push_local` comes to in a reconcile: an error, which may be the server's demand for an update, or its
summary. `superseded` counts the skipped entries that are superseded, since only these make the loop pull at once.
-/
inductive PushOutcome where
  | failed (updateRequired : Bool)
  | summary (s : Client.PushSummary) (superseded : ℕ)
  deriving DecidableEq, Repr

/-- A local change is left. -/
def PushOutcome.left : PushOutcome → Bool
  | .failed _ => true
  | .summary s superseded => 0 < s.errors || 0 < superseded

/-- The loop of a mount.  `permit` is what `Notify` stores, `pullsOnly` whether the pull it is at, or was at last, has no
push before it, `unsubmitted` whether the last push left a change. -/
structure SyncLoop where
  paused : Bool := false
  dirty : Bool := false
  permit : Bool := false
  notifications : List WsPushNotification := []
  notifyDeadline : Bool := false
  watcher : WatcherTask := {}
  stage : LoopStage := .selecting
  pullsOnly : Bool := false
  unsubmitted : Bool := false
  deriving DecidableEq, Repr

inductive LoopEvent where
  /-- The arms of the select. -/
  | ticked
  | received
  | closed
  | deadlineReached
  | dirtyNotified
  | watcherExited (lived : ℕ) (respawn : Respawn)
  | respawnReached (respawn : Respawn)
  /-- After the select: the pause, the sleep of a dirty wake, and the work; it is given up where the mount has no
  credential or the task panics. -/
  | checked
  | debounced
  | pushed (outcome : PushOutcome)
  | pulled (ok : Bool)
  | materialized
  | abandoned
  /-- Others pause and resume, send a notification, mark the mount, push it. -/
  | userPaused (paused : Bool)
  | sent (notification : WsPushNotification)
  | marked
  | pushedElsewhere (outcome : PushOutcome)
  deriving DecidableEq, Repr

/-! ### Steps -/

/-- `next_watcher_backoff`. -/
def nextWatcherBackoff (previous lived : ℕ) : ℕ :=
  if 3000 ≤ lived then 0 else if previous = 0 then 1000 else min (previous * 2) 30000

namespace SyncLoop

variable (folderId : String) (l : SyncLoop)

/-- `DirtySignal::mark`. -/
def mark : SyncLoop := { l with dirty := true, permit := true }

/-- `respawn_watcher`. -/
def respawn : Respawn → SyncLoop
  | .noCredential =>
    { l with watcher := { l.watcher with backoff := nextWatcherBackoff l.watcher.backoff 0, respawnAt := true } }
  | .gone => l
  | .spawned => { l with watcher := { l.watcher with handle := true } }.mark

/-- `handle_watcher_exit`. -/
def handleWatcherExit (lived : ℕ) (r : Respawn) : SyncLoop :=
  let backoff := nextWatcherBackoff l.watcher.backoff lived
  let l' := { l.mark with watcher := { l.watcher with handle := false, backoff } }
  if backoff = 0 then l'.respawn r else { l' with watcher := { l'.watcher with respawnAt := true } }

/-- The arm of a notification. -/
def receive (notification : WsPushNotification) (rest : List WsPushNotification) : SyncLoop :=
  let l' := { l with notifications := rest }
  if notification.folderId ≠ folderId then l'
  else if notification.serverSeq = 0 then l'.mark
  else { l' with notifyDeadline := true }

/-- `reconcile_mount` and `pull_mount_once` are to begin. -/
def reconcile : SyncLoop := { l with dirty := false, stage := .pushing }

def pullOnly : SyncLoop := { l with stage := .pulling, pullsOnly := true }

/-- After the select. -/
def check (wake : SyncLoopWake) : SyncLoop :=
  if l.paused then { l with stage := .selecting }
  else
    match wake with
    | .periodic => if l.dirty then l.reconcile else l.pullOnly
    | .dirty => { l with stage := .debouncing }

/-- After the sleep of a dirty wake. -/
def wakeDirty : SyncLoop := if l.dirty then l.reconcile else { l with stage := .selecting }

/-- After the push; where an update is required the reconcile ends there. -/
def push (outcome : PushOutcome) : SyncLoop :=
  if outcome = PushOutcome.failed true then { l with unsubmitted := outcome.left, stage := .selecting }
  else { l with unsubmitted := outcome.left, stage := .pulling, pullsOnly := false }

def step : LoopEvent → Option SyncLoop
  | .ticked => if l.stage = .selecting then some { l with stage := .woken .periodic } else none
  | .received =>
    match l.stage, l.notifications with
    | .selecting, notification :: rest => some (l.receive folderId notification rest)
    | _, _ => none
  | .closed => if l.stage = .selecting ∧ l.notifications = [] then some { l with stage := .ended } else none
  | .deadlineReached =>
    if l.stage = .selecting ∧ l.notifyDeadline then
      some { l with notifyDeadline := false, stage := .woken .periodic }
    else none
  | .dirtyNotified =>
    if l.stage = .selecting ∧ l.permit then some { l with permit := false, stage := .woken .dirty } else none
  | .watcherExited lived r =>
    if l.stage = .selecting ∧ l.watcher.handle then some (l.handleWatcherExit lived r) else none
  | .respawnReached r =>
    if l.stage = .selecting ∧ l.watcher.respawnAt then
      some ({ l with watcher := { l.watcher with respawnAt := false } }.respawn r)
    else none
  | .checked =>
    match l.stage with
    | .woken wake => some (l.check wake)
    | _ => none
  | .debounced => if l.stage = .debouncing then some l.wakeDirty else none
  | .pushed outcome => if l.stage = .pushing then some (l.push outcome) else none
  | .pulled ok =>
    if l.stage = .pulling then some { l with stage := if ok then .materializing else .selecting } else none
  | .materialized => if l.stage = .materializing then some { l with stage := .selecting } else none
  | .abandoned =>
    if l.stage = .pushing ∨ l.stage = .pulling ∨ l.stage = .materializing then some { l with stage := .selecting }
    else none
  | .userPaused paused => some { l with paused }
  | .sent notification => some { l with notifications := l.notifications ++ [notification] }
  | .marked => some l.mark
  | .pushedElsewhere outcome => some { l with unsubmitted := outcome.left }

/-! ### What is asked for -/

/-- A catch-up notification of the mount is in the channel. -/
def CatchUp : Prop := { folderId, serverSeq := 0 } ∈ l.notifications

instance : Decidable (l.CatchUp folderId) := inferInstanceAs (Decidable (_ ∈ _))

/-- The mount will be pushed: its mark is there for the next wake to take, or a catch-up notification in the channel
will set it.  A permit that `Notify` has stored is not enough, as the wake it brings may find no mark to take. -/
def Marked : Prop := l.dirty = true ∨ l.CatchUp folderId

instance : Decidable (l.Marked folderId) := inferInstanceAs (Decidable (_ ∨ _))

/-- A pull-only step is to begin, or goes on. -/
def pullingOnly : Bool := l.pullsOnly && (l.stage = .pulling || l.stage = .materializing)

/-- What the last push has left is pending: the mount will be pushed, or the loop is about to push it, and no pull-only
step, which could overwrite the change, has come before that push. -/
def Pending : Prop := l.unsubmitted = true → (l.Marked folderId ∨ l.stage = .pushing) ∧ l.pullingOnly = false

instance : Decidable (l.Pending folderId) := inferInstanceAs (Decidable (_ → _))

/-- The condition: a push that leaves a change has been overtaken by a mark; and while a change is left, no periodic wake
comes before the mark is set, and a reconcile that is given up before its push has been overtaken by a mark as well. -/
def StepOk : LoopEvent → Prop
  | .pushed outcome => l.stage = .pushing → outcome.left = true → l.Marked folderId
  | .pushedElsewhere outcome =>
    outcome.left = true → (l.Marked folderId ∨ l.stage = .pushing) ∧ l.pullingOnly = false
  | .checked => l.stage = .woken .periodic → l.paused = false → l.dirty = false → l.unsubmitted = false
  | .abandoned => l.stage = .pushing → l.unsubmitted = true → l.Marked folderId
  | _ => True

end SyncLoop

/-! ### A step -/

section Steps

open SyncLoop

variable {folderId : String} {l l' : SyncLoop}

/-- Marks and notifications only come, the loop is not about to push, and no pull-only step begins. -/
theorem SyncLoop.Pending.mono (h : l.Pending folderId) (hleft : l'.unsubmitted = l.unsubmitted)
    (hmarked : l.Marked folderId → l'.Marked folderId) (hstage : l.stage ≠ .pushing)
    (honly : l.pullingOnly = false → l'.pullingOnly = false) : l'.Pending folderId := by
  intro hl'
  rw [hleft] at hl'
  obtain ⟨hm | hpush, hpull⟩ := h hl'
  · exact ⟨Or.inl (hmarked hm), honly hpull⟩
  · exact absurd hpush hstage

/-- The loop is at no pull. -/
theorem pullingOnly_of_stage (hpulling : l.stage ≠ .pulling) (hmaterializing : l.stage ≠ .materializing) :
    l.pullingOnly = false := by
  simp [pullingOnly, hpulling, hmaterializing]

theorem pending_of_marked (h : l.Marked folderId) (honly : l.pullingOnly = false) : l.Pending folderId :=
  fun _ => ⟨Or.inl h, honly⟩

theorem marked_mark : l.mark.Marked folderId := Or.inl rfl

/-- A step of the select: the loop stays at it, or wakes. -/
theorem pending_select (h : l.Pending folderId) (hstage : l.stage = .selecting) (hleft : l'.unsubmitted = l.unsubmitted)
    (hmarked : l.Marked folderId → l'.Marked folderId) (hpulling : l'.stage ≠ .pulling)
    (hmaterializing : l'.stage ≠ .materializing) : l'.Pending folderId := by
  refine h.mono hleft hmarked ?_ fun _ => pullingOnly_of_stage hpulling hmaterializing
  rw [hstage]
  exact fun hpush => by cases hpush

/-- The respawn of a watcher. -/
theorem pending_respawn (h : l.Pending folderId) (hstage : l.stage = .selecting) (r : Respawn) :
    (l.respawn r).Pending folderId := by
  cases r with
  | noCredential => exact pending_select h hstage rfl id (by simp [respawn, hstage]) (by simp [respawn, hstage])
  | gone => exact h
  | spawned =>
    refine pending_of_marked marked_mark (pullingOnly_of_stage ?_ ?_)
    · simp [respawn, mark, hstage]
    · simp [respawn, mark, hstage]

/-- The end of a watcher. -/
theorem pending_handleWatcherExit (hstage : l.stage = .selecting) (lived : ℕ) (r : Respawn) :
    (l.handleWatcherExit lived r).Pending folderId := by
  rw [handleWatcherExit]
  have hmarked : ({ l.mark with watcher := { l.watcher with
      handle := false, backoff := nextWatcherBackoff l.watcher.backoff lived } } : SyncLoop).Pending folderId := by
    refine pending_of_marked (Or.inl rfl) (pullingOnly_of_stage ?_ ?_)
    · simp [mark, hstage]
    · simp [mark, hstage]
  split
  · exact pending_respawn hmarked hstage r
  · exact hmarked

/-- A notification is read. -/
theorem pending_receive (h : l.Pending folderId) {notification : WsPushNotification} {rest : List WsPushNotification}
    (hl : l.notifications = notification :: rest) (hstage : l.stage = .selecting) :
    (l.receive folderId notification rest).Pending folderId := by
  -- what is read is no catch-up of this mount, or it marks the mount
  have hrest : notification ≠ { folderId, serverSeq := 0 } → l.Marked folderId →
      ∀ l' : SyncLoop, l'.dirty = l.dirty → l'.notifications = rest → l'.Marked folderId := by
    intro hne hm l' hdirty hnot
    rcases hm with hm | hm
    · exact Or.inl (hdirty.trans hm)
    · rw [CatchUp, hl] at hm
      refine Or.inr ?_
      rw [CatchUp, hnot]
      exact (List.mem_cons.1 hm).resolve_left fun he => hne he.symm
  rw [receive]
  by_cases hfolder : notification.folderId ≠ folderId
  · rw [if_pos hfolder]
    have hne : notification ≠ { folderId, serverSeq := 0 } := fun he => hfolder (by rw [he])
    exact pending_select h hstage rfl (fun hm => hrest hne hm _ rfl rfl) (by simp [hstage]) (by simp [hstage])
  · rw [if_neg hfolder]
    by_cases hseq : notification.serverSeq = 0
    · rw [if_pos hseq]
      refine pending_of_marked marked_mark (pullingOnly_of_stage ?_ ?_)
      · simp [mark, hstage]
      · simp [mark, hstage]
    · rw [if_neg hseq]
      have hne : notification ≠ { folderId, serverSeq := 0 } := fun he => hseq (by rw [he])
      exact pending_select h hstage rfl (fun hm => hrest hne hm _ rfl rfl) (by simp [hstage]) (by simp [hstage])

/-- After the select: a periodic wake that finds no mark pulls without a push. -/
theorem pending_check (h : l.Pending folderId) {wake : SyncLoopWake} (hstage : l.stage = .woken wake) :
    (l.check wake).Pending folderId ↔ l.StepOk folderId .checked := by
  have hnot : l.stage ≠ .pushing := by simp [hstage]
  rw [check.eq_def, StepOk, hstage]
  by_cases hpaused : l.paused = true
  · rw [if_pos hpaused]
    refine iff_of_true ?_ fun _ hrunning => absurd hpaused (by simp [hrunning])
    exact h.mono rfl id hnot fun _ => pullingOnly_of_stage (by simp) (by simp)
  · rw [if_neg hpaused]
    have hrunning : l.paused = false := by simpa using hpaused
    cases wake with
    | dirty =>
      refine iff_of_true ?_ fun he => by cases he
      exact h.mono rfl id hnot fun _ => pullingOnly_of_stage (by simp) (by simp)
    | periodic =>
      by_cases hdirty : l.dirty = true
      · simp only [hdirty, if_true]
        refine iff_of_true ?_ fun _ _ hclean => by cases hclean
        exact fun _ => ⟨Or.inr rfl, pullingOnly_of_stage (by simp [reconcile]) (by simp [reconcile])⟩
      · have hclean : l.dirty = false := by simpa using hdirty
        simp only [hclean, Bool.false_eq_true, if_false, hrunning, forall_const]
        constructor
        · intro hpending
          by_contra hleft
          have honly := (hpending (by simpa [pullOnly] using hleft)).2
          simp [pullingOnly, pullOnly] at honly
        · intro hleft hl'
          have hsame : l.unsubmitted = true := hl'
          rw [hleft] at hsame
          cases hsame

/-- After the sleep of a dirty wake. -/
theorem pending_wakeDirty (h : l.Pending folderId) (hstage : l.stage = .debouncing) : l.wakeDirty.Pending folderId := by
  rw [wakeDirty]
  split
  · exact fun _ => ⟨Or.inr rfl, pullingOnly_of_stage (by simp [reconcile]) (by simp [reconcile])⟩
  · exact h.mono rfl id (by simp [hstage]) fun _ => pullingOnly_of_stage (by simp) (by simp)

/-- After the push. -/
theorem pending_push (outcome : PushOutcome) :
    (l.push outcome).Pending folderId ↔ (outcome.left = true → l.Marked folderId) := by
  rw [push]
  split
  · constructor
    · exact fun h hleft => (h hleft).1.resolve_right (by simp)
    · exact fun h hleft => ⟨Or.inl (h hleft), pullingOnly_of_stage (by simp) (by simp)⟩
  · constructor
    · exact fun h hleft => (h hleft).1.resolve_right (by simp)
    · exact fun h hleft => ⟨Or.inl (h hleft), rfl⟩

/-- **A step** keeps what is left pending in exactly the steps that meet the condition. -/
theorem pending_step (h : l.Pending folderId) (ev : LoopEvent) :
    ((l.step folderId ev).getD l).Pending folderId ↔ l.StepOk folderId ev := by
  cases ev with
  | ticked =>
    refine iff_of_true ?_ trivial
    rw [step]
    split
    · next hstage => exact pending_select h hstage rfl id (by simp) (by simp)
    · exact h
  | received =>
    refine iff_of_true ?_ trivial
    rw [step]
    split
    · next notification rest hstage hl => exact pending_receive h hl hstage
    · exact h
  | closed =>
    refine iff_of_true ?_ trivial
    rw [step]
    split
    · next hstage => exact pending_select h hstage.1 rfl id (by simp) (by simp)
    · exact h
  | deadlineReached =>
    refine iff_of_true ?_ trivial
    rw [step]
    split
    · next hstage => exact pending_select h hstage.1 rfl id (by simp) (by simp)
    · exact h
  | dirtyNotified =>
    refine iff_of_true ?_ trivial
    rw [step]
    split
    · next hstage => exact pending_select h hstage.1 rfl id (by simp) (by simp)
    · exact h
  | watcherExited lived r =>
    refine iff_of_true ?_ trivial
    rw [step]
    split
    · next hstage => exact pending_handleWatcherExit hstage.1 lived r
    · exact h
  | respawnReached r =>
    refine iff_of_true ?_ trivial
    rw [step]
    split
    · next hstage =>
      have hlast : ({ l with watcher := { l.watcher with respawnAt := false } } : SyncLoop).Pending folderId :=
        pending_select h hstage.1 rfl id (by simp [hstage.1]) (by simp [hstage.1])
      exact pending_respawn hlast hstage.1 r
    · exact h
  | checked =>
    rw [step]
    split
    · next wake hstage => exact pending_check h hstage
    · next hstage => exact iff_of_true h fun hwoken => absurd hwoken (hstage .periodic)
  | debounced =>
    refine iff_of_true ?_ trivial
    rw [step]
    split
    · next hstage => exact pending_wakeDirty h hstage
    · exact h
  | pushed outcome =>
    rw [step]
    by_cases hstage : l.stage = .pushing
    · rw [if_pos hstage]
      exact (pending_push outcome).trans ⟨fun hok _ => hok, fun hok => hok hstage⟩
    · rw [if_neg hstage]
      exact iff_of_true h fun hs => absurd hs hstage
  | pulled ok =>
    refine iff_of_true ?_ trivial
    rw [step]
    split
    · next hstage =>
      refine h.mono rfl id (by simp [hstage]) fun honly => ?_
      have hpush : l.pullsOnly = false := by simpa [pullingOnly, hstage] using honly
      simp [pullingOnly, hpush]
    · exact h
  | materialized =>
    refine iff_of_true ?_ trivial
    rw [step]
    split
    · next hstage => exact h.mono rfl id (by simp [hstage]) fun _ => pullingOnly_of_stage (by simp) (by simp)
    · exact h
  | abandoned =>
    rw [step]
    by_cases hpushing : l.stage = .pushing
    · rw [if_pos (Or.inl hpushing)]
      constructor
      · exact fun hpending _ hleft => (hpending hleft).1.resolve_right (by simp)
      · exact fun hok hleft => ⟨Or.inl (hok hpushing hleft), pullingOnly_of_stage (by simp) (by simp)⟩
    · refine iff_of_true ?_ fun hs => absurd hs hpushing
      split
      · exact h.mono rfl id hpushing fun _ => pullingOnly_of_stage (by simp) (by simp)
      · exact h
  | userPaused paused => exact iff_of_true h trivial
  | sent notification =>
    refine iff_of_true ?_ trivial
    intro hleft
    obtain ⟨(hm | hm) | hpush, honly⟩ := h hleft
    · exact ⟨Or.inl (Or.inl hm), honly⟩
    · exact ⟨Or.inl (Or.inr (List.mem_append_left _ hm)), honly⟩
    · exact ⟨Or.inr hpush, honly⟩
  | marked =>
    refine iff_of_true ?_ trivial
    exact fun hleft => ⟨Or.inl (Or.inl rfl), (h hleft).2⟩
  | pushedElsewhere outcome => exact Iff.rfl

end Steps

/-! ### Every run -/

/-- **A failed push stays pending in exactly the runs whose steps meet the condition.** -/
theorem failed_push_pending (folderId : String) (l : SyncLoop) (h : l.Pending folderId) (evs : List LoopEvent) :
    Run.Along (SyncLoop.step folderId) (fun l ev => ((l.step folderId ev).getD l).Pending folderId) l evs ↔
      Run.Along (SyncLoop.step folderId) (SyncLoop.StepOk folderId) l evs :=
  Run.Along.iff_of_step (I := SyncLoop.Pending folderId) (fun _ ev hl => pending_step hl ev) h

/-- A push fails while the watcher marks the mount once more, and the next one submits everything. -/
def retriedDay : List LoopEvent :=
  [.marked, .dirtyNotified, .checked, .debounced, .marked, .pushed (.failed false), .pulled true, .materialized,
    .dirtyNotified, .checked, .debounced, .pushed (.summary { createsSubmitted := 1 } 0), .pulled true, .materialized]

theorem failed_push_pending_day :
    Run.Along (SyncLoop.step "f") (fun l ev => ((l.step "f" ev).getD l).Pending "f") {} retriedDay := by
  apply (failed_push_pending "f" {} (by decide) retriedDay).2
  have hdirtyWake : ∀ {p : Prop}, LoopStage.woken .dirty = .woken .periodic → p := fun h => by cases h
  exact ⟨trivial, trivial, hdirtyWake, trivial, trivial, fun _ _ => by decide, trivial, trivial,
    trivial, hdirtyWake, trivial, fun _ hleft => absurd hleft (by decide), trivial, trivial, trivial⟩

/-- **A failed push is forgotten.**  The mark was taken before the push, and nothing marks the mount again.  The same
where the watcher marked it while the wake slept off its debounce: the permit is left, the mark is not. -/
theorem failed_push_forgotten :
    ¬ Run.Along (SyncLoop.step "f") (fun l ev => ((l.step "f" ev).getD l).Pending "f") {}
        [.marked, .dirtyNotified, .checked, .debounced, .pushed (.failed false), .pulled true, .materialized, .ticked,
          .checked] ∧
      ¬ Run.Along (SyncLoop.step "f") (fun l ev => ((l.step "f" ev).getD l).Pending "f") {}
        [.marked, .dirtyNotified, .checked, .marked, .debounced, .pushed (.failed false), .pulled true, .materialized,
          .ticked, .checked] := by
  constructor
  · decide
  · decide

end Valv.Daemon
