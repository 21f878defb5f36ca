import Valv.Daemon.FsEvents
import Valv.Lib.Run

/-!
# The watcher

`fs_watch_task` of `crates/valv-sync/src/watch/mod.rs` as a state machine: the callback of the file system, the channel,
and the loop with its pauses, its debounce and its batches.

* `Watch.step`: the callback and the loop, step by step, with what others do in between.
* `Watch.Accounted`: what is asked for.
* `Watch.StepOk`: the condition on a step.
* `accounted_step`: a step.
* `watcher_accounts`, `watcher_drops`: every run.
-/

namespace Valv.Daemon

open Valv.Paths

/-! ### State -/

/-- The flags that all watchers share. While one is up, the events of the file system are thrown away: in a user's
pause, or because it is the daemon itself that writes. -/
structure Flags where
  paused : Bool := false
  materializing : Bool := false
  deriving DecidableEq, Repr

def Flags.raised (f : Flags) : Bool := f.paused || f.materializing

/-- A change of the disk that the file system has told about: what the path has held since, whether it came while
files were materialized, whether the mount's own apply phase made it or ran at the time; and what became of it. -/
structure Change where
  path : PathBuf
  entry : Option Entry
  silenced : Bool
  own : Bool
  settled : Bool := false
  reconciled : Bool := false
  deriving DecidableEq, Repr

/-- Where `fs_watch_task` is. Its `await`s are the places where the flags, the mount and the database can change
under it, so each of them is a stage of its own. -/
inductive WatchStage where
  | head
  /-- The sleep after a pause. -/
  | dozing
  | receiving
  | debouncing (first : FsEvent)
  /-- The batch waits for the mount's sync lock. -/
  | locking (batch : List FsEvent)
  | handling (batch : List FsEvent)
  | draining
  deriving DecidableEq, Repr

/-- The events that the stage holds. -/
def WatchStage.events : WatchStage → List FsEvent
  | .debouncing first => [first]
  | .locking batch => batch
  | .handling batch => batch
  | _ => []

/-- A watcher with the disk and the mirror.  `inFlight` are the events on their way from the callback to the channel,
`changes` what there is to be accounted for. -/
structure Watch where
  mirror : Client.Mirror := {}
  disk : PathBuf → Option Entry := fun _ => none
  dirty : Bool := false
  updateRequired : Bool := false
  suppressed : Bool := false
  inFlight : List FsEvent := []
  queue : List FsEvent := []
  droppedPausedEvents : Bool := false
  stage : WatchStage := .head
  changes : List Change := []

inductive WatchEvent where
  /-- A path holds something else now, or nothing. -/
  | changed (path : PathBuf) (entry : Option Entry)
  /-- The callback of the file system. -/
  | notified (kind : EventKind) (paths : List PathBuf) (own : Bool)
  | sent
  /-- Others write the mirror, mark the mount, take its mark, halt it. -/
  | mirrored (m : Client.Mirror)
  | marked
  | taken
  | halted
  /-- The task has ended; `handle_watcher_exit` marks the mount, and `respawn_watcher` starts a new one. -/
  | respawned
  /-- The loop: its head, the end of the sleep after a pause, the first event, the end of the debounce with the values
  of the map, the lock, one event of the batch, its end, the last drain. -/
  | looped
  | woken
  | received
  | debounced (values : List FsEvent)
  | locked
  | handled (answers : HandlerAnswers)
  | finished
  | drained

/-! ### Steps -/

namespace Watch

variable (f : Flags) (mount : MountState) (w : Watch)

/-- What a path that is written held before is no longer there. -/
def change (path : PathBuf) (entry : Option Entry) : Watch :=
  { w with
    disk := Function.update w.disk path entry
    changes := w.changes.filter fun c => c.path ≠ path || c.entry = entry }

/-- The change a signal tells of; a `Create` or `Modify` of what is gone again tells of none. -/
def noted (paths : List PathBuf) (own : Bool) : WatchSignal → List Change
  | .event e =>
    ((w.disk e.path).map fun entry =>
      { path := e.path, entry := some entry, silenced := f.materializing, own : Change }).toList
  | .dirty =>
    [{ path := paths.head?.getD [], entry := w.disk (paths.head?.getD []), silenced := f.materializing, own }]

/-- The callback once the event is mapped. -/
def signalled (signal : WatchSignal) (changes : List Change) : Watch :=
  if f.raised then
    { w with
      changes := w.changes ++ changes
      suppressed := w.suppressed || shouldMarkSuppressedDuringPause f.paused f.materializing (some signal) }
  else
    match signal with
    | .event e => { w with changes := w.changes ++ changes, inFlight := w.inFlight ++ [e] }
    | .dirty => { w with changes := w.changes ++ changes, dirty := true }

/-- The callback of `watch_mount`. -/
def notify (kind : EventKind) (paths : List PathBuf) (own : Bool) : Watch :=
  match mapNotifyEvent kind paths with
  | none => w
  | some signal => w.signalled f signal (w.noted f paths own signal)

/-- The head of the loop. -/
def loop : Watch :=
  if w.updateRequired then { w with queue := [] }
  else if f.raised then { w with queue := [], droppedPausedEvents := true }
  else if w.droppedPausedEvents then { w with stage := .dozing }
  else { w with stage := .receiving }

/-- After the sleep that follows a pause. -/
def wake : Watch :=
  { w with
    queue := [], droppedPausedEvents := false, dirty := w.dirty || w.suppressed, suppressed := false, stage := .head }

/-- After the debounce. -/
def debounce (values : List FsEvent) : Watch :=
  if f.raised then { w with queue := [], droppedPausedEvents := true, stage := .head }
  else { w with queue := [], stage := .locking (byDepth values) }

def settle (path : PathBuf) (settled : Option Entry) (c : Change) : Change :=
  { c with settled := c.settled || (c.path = path && settled.isSome && c.entry = settled) }

/-- The loop of `handle_fs_events` and what follows its result. -/
def handle (e : FsEvent) (rest : List FsEvent) (a : HandlerAnswers) : Watch :=
  let handled := handleFsEvent mount w.mirror e a
  let w' := { w with mirror := handled.mirror, changes := w.changes.map (settle e.path handled.settled) }
  match handled.result with
  | .ok _ => { w' with stage := .handling rest }
  | .error .updateRequired => { w' with updateRequired := true, stage := .draining }
  | .error .failed => { w' with dirty := true, stage := .draining }

/-- A new watcher in place of one that has ended: its channel is a new one, and so is its suppressed flag, so that the
events and the flag of the old one are gone.  The mount is dirty. -/
def respawn : Watch :=
  { w with
    dirty := true, suppressed := false, inFlight := [], queue := [], droppedPausedEvents := false, stage := .head }

def step : WatchEvent → Option Watch
  | .changed path entry => some (w.change path entry)
  | .notified kind paths own => some (w.notify f kind paths own)
  | .sent =>
    match w.inFlight with
    | [] => none
    | e :: rest => some { w with inFlight := rest, queue := w.queue ++ [e] }
  | .mirrored m => some { w with mirror := m }
  | .marked => some { w with dirty := true }
  | .taken =>
    if w.dirty then
      some { w with dirty := false, changes := w.changes.map fun c => { c with reconciled := true } }
    else none
  | .halted => some { w with updateRequired := true }
  | .respawned => some w.respawn
  | .looped => if w.stage = .head then some (w.loop f) else none
  | .woken => if w.stage = .dozing then some w.wake else none
  | .received =>
    match w.stage, w.queue with
    | .receiving, e :: rest => some { w with stage := .debouncing e, queue := rest }
    | _, _ => none
  | .debounced values =>
    match w.stage with
    | .debouncing first => if values.Perm (collapsed (first :: w.queue)) then some (w.debounce f values) else none
    | _ => none
  | .locked =>
    match w.stage with
    | .locking batch => some { w with stage := if w.updateRequired then .draining else .handling batch }
    | _ => none
  | .handled a =>
    match w.stage with
    | .handling (e :: rest) => some (w.handle mount e rest a)
    | _ => none
  | .finished => if w.stage = .handling [] then some { w with stage := .head } else none
  | .drained => if w.stage = .draining then some { w with queue := [], stage := .head } else none

/-! ### What is asked for -/

/-- All events that are on their way. -/
def pending : List FsEvent := w.inFlight ++ w.queue ++ w.stage.events

/-- No event of the mount is needed any more: the mount is dirty, so that a reconcile will look at the whole tree,
or it will be marked so after a pause, or it is halted until the client is updated. -/
def Covered : Prop := w.dirty = true ∨ w.suppressed = true ∨ w.updateRequired = true

instance : Decidable w.Covered := inferInstanceAs (Decidable (_ ∨ _))

end Watch

def Change.closed (c : Change) : Bool := c.settled || c.reconciled

namespace Watch

-- `watched` tells which changes there are to be accounted for, by `silenced` and `own`.
variable (watched : Bool → Bool → Bool) (f : Flags) (mount : MountState) (w : Watch)

/-- Every change that the user has made is submitted, taken by a reconcile, or still has an event among these.
Changes made under the flags do not count, where `watched` says so. -/
def KeptBy (events : List FsEvent) : Prop :=
  ∀ c ∈ w.changes, watched c.silenced c.own = true → c.closed = false → c.path ∈ events.map FsEvent.path

instance (events : List FsEvent) : Decidable (w.KeptBy watched events) := inferInstanceAs (Decidable (∀ c ∈ _, _))

/-- Every change is submitted or taken by a reconcile, still queued, or the mount is dirty or halted or will be marked
after a pause. -/
def Accounted : Prop := w.Covered ∨ w.KeptBy watched w.pending

instance : Decidable (w.Accounted watched) := inferInstanceAs (Decidable (_ ∨ _))

/-- The events of the channel are not needed: whatever they tell of is accounted for without them, either because
the mount is covered or by the batch in hand. -/
def Spare : Prop := w.Covered ∨ w.KeptBy watched w.inFlight

instance : Decidable (w.Spare watched) := inferInstanceAs (Decidable (_ ∨ _))

/-- The handler does its work for one event: it submits what the paths of the event hold, or fails with an error,
which marks the mount dirty. It may also leave the work to a later event for the same path. -/
def HandledOk (e : FsEvent) (rest : List FsEvent) (a : HandlerAnswers) : Prop :=
  w.Covered ∨ (∃ error, (handleFsEvent mount w.mirror e a).result = .error error) ∨
    ∀ c ∈ w.changes, watched c.silenced c.own = true → c.closed = false → c.path = e.path →
      (∃ entry, c.entry = some entry ∧ Submits mount w.mirror e a entry) ∨
        e.path ∈ (w.inFlight ++ w.queue ++ rest).map FsEvent.path

/-- The condition: what a drain discards is spare, what a batch takes is submitted, and what the callback passes over
while files are materialized is accounted for otherwise. -/
def StepOk : WatchEvent → Prop
  | .notified kind paths own =>
    f.materializing = true → ∀ signal, mapNotifyEvent kind paths = some signal →
      w.Covered ∨ ∀ c ∈ w.noted f paths own signal, watched c.silenced c.own = true →
        c.path ∈ w.pending.map FsEvent.path
  | .looped => w.stage = .head → w.updateRequired = false → f.raised = true → w.Spare watched
  | .woken => w.stage = .dozing → w.Spare watched
  | .debounced values =>
    ∀ first, w.stage = .debouncing first → values.Perm (collapsed (first :: w.queue)) → f.raised = true →
      w.Spare watched
  | .handled a => ∀ e rest, w.stage = .handling (e :: rest) → w.HandledOk watched mount e rest a
  | .drained => w.stage = .draining → w.Spare watched
  | _ => True

end Watch

/-! ### A step -/

section Steps

open Watch

variable {watched : Bool → Bool → Bool} {f : Flags} {mount : MountState} {w w' : Watch}

/-- A step that only moves events. -/
theorem Watch.Accounted.congr (hacc : w.Accounted watched) (hcovered : w.Covered → w'.Covered)
    (hchanges : w'.changes = w.changes)
    (hpending : ∀ path, path ∈ w.pending.map FsEvent.path → path ∈ w'.pending.map FsEvent.path) :
    w'.Accounted watched := by
  rcases hacc with hacc | hkept
  · exact Or.inl (hcovered hacc)
  · refine Or.inr fun c hc hw hopen => ?_
    rw [hchanges] at hc
    exact hpending c.path (hkept c hc hw hopen)

/-- After a drain only the events on their way to the channel are left. -/
theorem accounted_drained (hcovered : w'.Covered ↔ w.Covered) (hchanges : w'.changes = w.changes)
    (hpending : w'.pending = w.inFlight) : w'.Accounted watched ↔ w.Spare watched := by
  rw [Accounted, Spare, hcovered, hpending, KeptBy, hchanges]
  rfl

theorem accounted_covered (h : w.Covered) : w.Accounted watched := Or.inl h

theorem closed_of_noted {paths : List PathBuf} {own : Bool} {signal : WatchSignal} {c : Change}
    (h : c ∈ w.noted f paths own signal) : c.closed = false := by
  cases signal with
  | event e =>
    obtain ⟨entry, -, rfl⟩ := Option.map_eq_some_iff.1 (Option.mem_toList.1 h)
    rfl
  | dirty =>
    rw [List.mem_singleton.1 h]
    rfl

theorem path_of_noted {paths : List PathBuf} {own : Bool} {e : FsEvent} {c : Change}
    (h : c ∈ w.noted f paths own (.event e)) : c.path = e.path := by
  obtain ⟨entry, -, rfl⟩ := Option.map_eq_some_iff.1 (Option.mem_toList.1 h)
  rfl

/-- The callback. -/
theorem accounted_notify (hacc : w.Accounted watched) (kind : EventKind) (paths : List PathBuf) (own : Bool) :
    (w.notify f kind paths own).Accounted watched ↔ w.StepOk watched f mount (.notified kind paths own) := by
  rw [notify, StepOk]
  cases hsignal : mapNotifyEvent kind paths with
  | none => simpa using hacc
  | some signal =>
    simp only [Option.some.injEq, forall_eq']
    rw [signalled.eq_def]
    cases hmat : f.materializing with
    | true =>
      have hraised : f.raised = true := by simp [Flags.raised, hmat]
      have hsuppressed : shouldMarkSuppressedDuringPause f.paused true (some signal) = false := by
        simp [shouldMarkSuppressedDuringPause]
      rw [if_pos hraised]
      simp only [hsuppressed, Bool.or_false, forall_const]
      constructor
      · rintro (hcovered | hkept)
        · exact Or.inl hcovered
        · refine Or.inr fun c hc hw => ?_
          exact hkept c (List.mem_append_right _ hc) hw (closed_of_noted hc)
      · rintro (hcovered | hnew)
        · exact Or.inl hcovered
        · rcases hacc with hcovered | hkept
          · exact Or.inl hcovered
          · refine Or.inr fun c hc hw hopen => ?_
            rcases List.mem_append.1 hc with hc | hc
            · exact hkept c hc hw hopen
            · exact hnew c hc hw
    | false =>
      simp only [Bool.false_eq_true, false_imp_iff, iff_true]
      by_cases hraised : f.raised = true
      · -- a pause of the user's: it will be made up for
        have hpaused : f.paused = true := by simpa [Flags.raised, hmat] using hraised
        rw [if_pos hraised]
        exact Or.inl (Or.inr (Or.inl (by simp [shouldMarkSuppressedDuringPause, hpaused])))
      · rw [if_neg hraised]
        cases signal with
        | dirty => exact Or.inl (Or.inl rfl)
        | event e =>
          rcases hacc with hcovered | hkept
          · exact Or.inl hcovered
          · refine Or.inr fun c hc hw hopen => ?_
            rcases List.mem_append.1 hc with hc | hc
            · obtain ⟨e', he', hpath⟩ := List.mem_map.1 (hkept c hc hw hopen)
              refine List.mem_map.2 ⟨e', ?_, hpath⟩
              simp only [pending, List.mem_append] at he' ⊢
              tauto
            · refine List.mem_map.2 ⟨e, ?_, (path_of_noted hc).symm⟩
              simp [pending]

/-- A path is written. -/
theorem accounted_change (hacc : w.Accounted watched) (path : PathBuf) (entry : Option Entry) :
    (w.change path entry).Accounted watched := by
  rcases hacc with hcovered | hkept
  · exact Or.inl hcovered
  · exact Or.inr fun c hc hw hopen => hkept c (List.mem_of_mem_filter hc) hw hopen

/-- The head of the loop. -/
theorem accounted_loop (hacc : w.Accounted watched) (hstage : w.stage = .head) :
    (w.loop f).Accounted watched ↔ (w.updateRequired = false → f.raised = true → w.Spare watched) := by
  have hkeep : ∀ w' : Watch, (w.Covered → w'.Covered) → w'.changes = w.changes →
      w'.pending = w.inFlight ++ w.queue → w'.Accounted watched := by
    intro w' hcovered hchanges hpending
    refine hacc.congr hcovered hchanges ?_
    rw [hpending, pending, hstage]
    simp [WatchStage.events]
  rw [loop]
  by_cases hhalted : w.updateRequired = true
  · rw [if_pos hhalted]
    simp only [hhalted, Bool.true_eq_false, false_imp_iff, iff_true]
    exact accounted_covered (Or.inr (Or.inr rfl))
  · rw [if_neg hhalted]
    have hhalted : w.updateRequired = false := by simpa using hhalted
    simp only [hhalted, forall_const]
    by_cases hraised : f.raised = true
    · rw [if_pos hraised]
      simp only [hraised, forall_const]
      exact accounted_drained (by simp [Covered, hhalted]) rfl (by simp [pending, hstage, WatchStage.events])
    · rw [if_neg hraised]
      simp only [hraised, Bool.false_eq_true, false_imp_iff, iff_true]
      split
      · refine hkeep _ ?_ rfl ?_
        · simp [Covered, hhalted]
        · simp [pending, WatchStage.events]
      · refine hkeep _ ?_ rfl ?_
        · simp [Covered, hhalted]
        · simp [pending, WatchStage.events]

/-- After the sleep. -/
theorem accounted_wake : w.wake.Accounted watched ↔ w.Spare watched := by
  refine accounted_drained ?_ rfl ?_
  · simp only [Covered, wake, Bool.or_eq_true]
    tauto
  · simp [pending, wake, WatchStage.events]

/-- After the debounce. -/
theorem accounted_debounce {first : FsEvent} {values : List FsEvent} (hacc : w.Accounted watched)
    (hstage : w.stage = .debouncing first) (hvalues : values.Perm (collapsed (first :: w.queue))) :
    (w.debounce f values).Accounted watched ↔ (f.raised = true → w.Spare watched) := by
  rw [debounce]
  by_cases hraised : f.raised = true
  · rw [if_pos hraised]
    simp only [hraised, forall_const]
    exact accounted_drained Iff.rfl rfl (by simp [pending, WatchStage.events])
  · rw [if_neg hraised]
    simp only [hraised, Bool.false_eq_true, false_imp_iff, iff_true]
    refine hacc.congr id rfl fun path => ?_
    have hbatch : path ∈ (byDepth values).map FsEvent.path ↔ path ∈ (first :: w.queue).map FsEvent.path :=
      mem_byDepth.trans (((hvalues.map FsEvent.path).mem_iff).trans mem_collapsed)
    simp only [pending, hstage, WatchStage.events, List.map_append, List.mem_append, hbatch, List.map_cons,
      List.mem_cons, List.map_nil, List.not_mem_nil, or_false]
    tauto

/-- An event of the batch. -/
theorem accounted_handle {e : FsEvent} {rest : List FsEvent} {a : HandlerAnswers} (hacc : w.Accounted watched)
    (hstage : w.stage = .handling (e :: rest)) :
    (w.handle mount e rest a).Accounted watched ↔ w.HandledOk watched mount e rest a := by
  rw [handle, HandledOk]
  cases hresult : (handleFsEvent mount w.mirror e a).result with
  | error error =>
    have hleft : ∃ error', Except.error error = (Except.error error' : Except WatchError Unit) := ⟨error, rfl⟩
    simp only [hleft, true_or, or_true, iff_true]
    cases error with
    | updateRequired => exact Or.inl (Or.inr (Or.inr rfl))
    | failed => exact Or.inl (Or.inl rfl)
  | ok _ =>
    have hnone : ¬ ∃ error, Except.ok () = (Except.error error : Except WatchError Unit) := by simp
    have hsubmits : ∀ c : Change, c.closed = false →
        ((settle e.path (handleFsEvent mount w.mirror e a).settled c).closed = false ↔
          ¬ (c.path = e.path ∧ ∃ entry, c.entry = some entry ∧ Submits mount w.mirror e a entry)) := by
      intro c hopen
      simp only [← handleFsEvent_settled]
      simp only [Change.closed, Bool.or_eq_false_iff] at hopen
      cases hsettled : (handleFsEvent mount w.mirror e a).settled with
      | none => simp [settle, Change.closed, hopen]
      | some entry =>
        constructor
        · rintro hc ⟨hpath, entry', hentry, he⟩
          cases he
          simp [settle, Change.closed, hpath, hentry] at hc
        · intro hno
          by_cases hentry : c.entry = some entry
          · have hpath : c.path ≠ e.path := fun hpath => hno ⟨hpath, entry, hentry, rfl⟩
            simp [settle, Change.closed, hopen, hpath]
          · simp [settle, Change.closed, hopen, hentry]
    simp only [hnone, false_or]
    constructor
    · rintro (hcovered | hkept)
      · exact Or.inl hcovered
      · refine Or.inr fun c hc hw hopen hpath => ?_
        by_cases hsub : ∃ entry, c.entry = some entry ∧ Submits mount w.mirror e a entry
        · exact Or.inl hsub
        · have hleft := hkept _ (List.mem_map_of_mem hc) hw ((hsubmits c hopen).2 fun h => hsub h.2)
          rw [← hpath]
          exact Or.inr hleft
    · rintro (hcovered | hleft)
      · exact Or.inl hcovered
      rcases hacc with hcovered | hkept
      · exact Or.inl hcovered
      refine Or.inr fun c' hc' hw hopen' => ?_
      obtain ⟨c, hc, rfl⟩ := List.mem_map.1 hc'
      have hopen : c.closed = false := by
        simp only [settle, Change.closed, Bool.or_eq_false_iff] at hopen' ⊢
        exact ⟨hopen'.1.1, hopen'.2⟩
      by_cases hpath : c.path = e.path
      · rcases hleft c hc hw hopen hpath with hsub | hlater
        · exact absurd ⟨hpath, hsub⟩ ((hsubmits c hopen).1 hopen')
        · show c.path ∈ (w.inFlight ++ w.queue ++ rest).map FsEvent.path
          rw [hpath]
          exact hlater
      · have hmem := hkept c hc hw hopen
        show c.path ∈ (w.inFlight ++ w.queue ++ rest).map FsEvent.path
        simp only [pending, hstage, WatchStage.events, List.map_append, List.map_cons, List.mem_append,
          List.mem_cons] at hmem ⊢
        tauto

/-- **A step**: everything is accounted for after it in exactly the steps that meet the condition. -/
theorem accounted_step (hacc : w.Accounted watched) (ev : WatchEvent) :
    ((w.step f mount ev).getD w).Accounted watched ↔ w.StepOk watched f mount ev := by
  cases ev with
  | changed path entry => exact iff_of_true (accounted_change hacc path entry) trivial
  | notified kind paths own => exact accounted_notify hacc kind paths own
  | sent =>
    refine iff_of_true ?_ trivial
    rw [step]
    cases hflight : w.inFlight with
    | nil => exact hacc
    | cons e rest =>
      refine hacc.congr id rfl fun path hpath => ?_
      simp only [pending, hflight, List.map_append, List.map_cons, List.mem_append, List.mem_cons] at hpath
      simp only [Option.getD_some, pending, List.map_append, List.map_cons, List.map_nil, List.mem_append,
        List.mem_singleton]
      tauto
  | mirrored m => exact iff_of_true (hacc.congr id rfl fun _ => id) trivial
  | marked => exact iff_of_true (Or.inl (Or.inl rfl)) trivial
  | taken =>
    refine iff_of_true ?_ trivial
    rw [step]
    by_cases hdirty : w.dirty = true
    · rw [if_pos hdirty]
      refine Or.inr fun c hc _ hopen => ?_
      obtain ⟨c, -, rfl⟩ := List.mem_map.1 hc
      simp [Change.closed] at hopen
    · rw [if_neg hdirty]
      exact hacc
  | halted => exact iff_of_true (Or.inl (Or.inr (Or.inr rfl))) trivial
  | respawned => exact iff_of_true (Or.inl (Or.inl rfl)) trivial
  | looped =>
    show _ ↔ (w.stage = .head → w.updateRequired = false → f.raised = true → w.Spare watched)
    rw [step]
    by_cases hstage : w.stage = .head
    · simpa [hstage] using accounted_loop (f := f) hacc hstage
    · simpa [hstage] using hacc
  | woken =>
    show _ ↔ (w.stage = .dozing → w.Spare watched)
    rw [step]
    by_cases hstage : w.stage = .dozing
    · simpa [hstage] using accounted_wake (w := w)
    · simpa [hstage] using hacc
  | received =>
    refine iff_of_true ?_ trivial
    rw [step]
    split
    · next e rest hstage hqueue =>
      refine hacc.congr id rfl fun path hpath => ?_
      simp only [pending, hstage, hqueue, WatchStage.events, List.map_append, List.map_cons, List.map_nil,
        List.mem_append, List.mem_cons, List.not_mem_nil, or_false] at hpath
      simp only [Option.getD_some, pending, WatchStage.events, List.map_append, List.map_cons, List.map_nil,
        List.mem_append, List.mem_singleton]
      tauto
    · exact hacc
  | debounced values =>
    show _ ↔ ∀ first, w.stage = .debouncing first → values.Perm (collapsed (first :: w.queue)) → f.raised = true →
      w.Spare watched
    rw [step]
    split
    · next first hstage =>
      simp only [hstage, WatchStage.debouncing.injEq, forall_eq']
      by_cases hvalues : values.Perm (collapsed (first :: w.queue))
      · rw [if_pos hvalues]
        simpa [hvalues] using accounted_debounce (f := f) hacc hstage hvalues
      · simpa [hvalues] using hacc
    · next hstage => exact iff_of_true hacc fun first h => absurd h (hstage first)
  | locked =>
    refine iff_of_true ?_ trivial
    rw [step]
    split
    · next batch hstage =>
      by_cases hhalted : w.updateRequired = true
      · exact Or.inl (Or.inr (Or.inr hhalted))
      · refine hacc.congr id rfl fun path hpath => ?_
        simpa [pending, hstage, hhalted, WatchStage.events] using hpath
    · exact hacc
  | handled a =>
    show _ ↔ ∀ e rest, w.stage = .handling (e :: rest) → w.HandledOk watched mount e rest a
    rw [step]
    split
    · next e rest hstage =>
      have hhandle : (w.handle mount e rest a).Accounted watched ↔ w.HandledOk watched mount e rest a :=
        accounted_handle hacc hstage
      constructor
      · intro h e' rest' hstage'
        rw [hstage] at hstage'
        cases hstage'
        exact hhandle.1 h
      · exact fun h => hhandle.2 (h e rest hstage)
    · next hstage => exact iff_of_true hacc fun e rest h => absurd h (hstage e rest)
  | finished =>
    refine iff_of_true ?_ trivial
    rw [step]
    by_cases hstage : w.stage = .handling []
    · rw [if_pos hstage]
      refine hacc.congr id rfl fun path hpath => ?_
      simpa [pending, hstage, WatchStage.events] using hpath
    · rw [if_neg hstage]
      exact hacc
  | drained =>
    show _ ↔ (w.stage = .draining → w.Spare watched)
    rw [step]
    by_cases hstage : w.stage = .draining
    · simp only [hstage, if_true, forall_const, Option.getD_some]
      exact accounted_drained Iff.rfl rfl (by simp [pending, WatchStage.events])
    · simpa [hstage] using hacc

end Steps

/-! ### Every run -/

/-- A watcher, with the flags that others raise and lower. -/
structure Watcher where
  flags : Flags := {}
  watch : Watch := {}

inductive WatcherEvent where
  | flagged (f : Flags)
  | watch (ev : WatchEvent)

namespace Watcher

variable (mount : MountState) (s : Watcher)

def step : WatcherEvent → Option Watcher
  | .flagged f => some { s with flags := f }
  | .watch ev => (s.watch.step s.flags mount ev).map fun w => { s with watch := w }

/-- The changes that the callback accepted, or suppressed because of a pause of the user's. -/
def accepted (silenced _own : Bool) : Bool := !silenced

def Accounted : Prop := s.watch.Accounted accepted

instance : Decidable s.Accounted := inferInstanceAs (Decidable (s.watch.Accounted accepted))

def StepOk : WatcherEvent → Prop
  | .flagged _ => True
  | .watch ev => s.watch.StepOk accepted s.flags mount ev

variable {mount s}

theorem accounted_step (hacc : s.Accounted) (ev : WatcherEvent) :
    ((s.step mount ev).getD s).Accounted ↔ s.StepOk mount ev := by
  cases ev with
  | flagged f => exact iff_of_true hacc trivial
  | watch ev =>
    have hnext : ((s.step mount (.watch ev)).getD s).watch = (s.watch.step s.flags mount ev).getD s.watch := by
      rw [step]
      cases s.watch.step s.flags mount ev <;> rfl
    rw [Accounted, hnext]
    exact Valv.Daemon.accounted_step hacc ev

end Watcher

/-- **Nothing is lost by a watcher in exactly the runs whose steps meet the condition.** -/
theorem watcher_accounts (mount : MountState) (s : Watcher) (hacc : s.Accounted) (evs : List WatcherEvent) :
    Run.Along (Watcher.step mount) (fun s ev => ((s.step mount ev).getD s).Accounted) s evs ↔
      Run.Along (Watcher.step mount) (Watcher.StepOk mount) s evs :=
  Run.Along.iff_of_step (I := Watcher.Accounted) (fun _ ev hs => Watcher.accounted_step hs ev) hacc

/-- The path of `a.txt` in the mount `/docs`, and what it holds. -/
def docsFile : PathBuf := components "/docs/a.txt"

/-- `a.txt` is there, and the watcher has got an event for it. -/
def docsCreated : List WatcherEvent :=
  [.watch (.changed docsFile (some (.file "h" 3))), .watch (.notified .create [docsFile] false), .watch .sent]

/-- The server applies the create and has the content already. -/
def docsAnswers (response : Server.SubmitOpResponse) : HandlerAnswers where
  metadata := .ok (some (.file "h" 3))
  submit := .ok response
  upload :=
    { read := .ok { contentHash := "h", sizeBytes := 3 }, chunks := .ok (), versionId := "v",
      submit := .ok (.applied 6 "a") }

/-- The batch of that event. -/
def docsBatch (response : Server.SubmitOpResponse) : List WatcherEvent :=
  [.watch .looped, .watch .received, .watch (.debounced [.create docsFile]), .watch .locked,
    .watch (.handled (docsAnswers response)), .watch .finished]

/-- An empty mirror but for the root. -/
def docsWatcher : Watcher := { watch := { mirror := { nodes := [docsRoot] } } }

/-- The user pauses, writes the file again and goes on. -/
def docsPaused : List WatcherEvent :=
  [.flagged { paused := true }, .watch .looped, .watch (.changed docsFile (some (.file "i" 4))),
    .watch (.notified .modifyData [docsFile] false), .flagged {}, .watch .looped, .watch .woken, .watch .taken]

theorem docs_submits {m : Client.Mirror}
    (hparent : resolveParentForPath docsMount m docsFile = .ok (some docsRoot)) :
    Submits docsMount m (.create docsFile) (docsAnswers (.applied 5 "a")) (.file "h" 3) := by
  have hupload : ∀ m', UploadSubmits m' "a" (docsAnswers (.applied 5 "a")).upload (.file "h" 3) := fun m' =>
    .accepted { contentHash := "h", sizeBytes := 3 } rfl rfl (.applied 6 "a") rfl (by simp)
  exact .createFile docsFile _ "a.txt" "h" 3 docsRoot 5 "a" _ rfl (by decide) (by decide) hparent rfl (hupload _)

theorem watcher_accounts_docs :
    Run.Along (Watcher.step docsMount) (fun s ev => ((s.step docsMount ev).getD s).Accounted) docsWatcher
      (docsCreated ++ docsBatch (.applied 5 "a") ++ docsPaused) := by
  apply (watcher_accounts docsMount docsWatcher (by decide) _).2
  have hlow : ∀ {p : Prop}, false = true → p := fun h => absurd h (by decide)
  refine ⟨trivial, hlow, trivial, fun _ _ => hlow, trivial, fun _ _ _ => hlow, trivial, ?_, trivial, ?_⟩
  · rintro e rest hstage
    cases hstage
    refine Or.inr (Or.inr fun c hc _ _ _ => Or.inl ⟨.file "h" 3, ?_, docs_submits (by decide)⟩)
    rw [List.mem_singleton.1 hc]
  · exact ⟨trivial, fun _ _ _ => by decide, trivial, hlow, trivial, fun _ _ => hlow, fun _ => by decide, trivial, trivial⟩

/-- **Changes are lost.**  The user pauses before an event is read from the channel, and it is drained.  And a `Create`
that the server finds superseded is passed over, together with the content. -/
theorem watcher_drops :
    ¬ Run.Along (Watcher.step docsMount) (fun s ev => ((s.step docsMount ev).getD s).Accounted) docsWatcher
        (docsCreated ++ docsPaused.take 2) ∧
      ¬ Run.Along (Watcher.step docsMount) (fun s ev => ((s.step docsMount ev).getD s).Accounted) docsWatcher
        (docsCreated ++ docsBatch (.superseded 5)) := by
  constructor
  · decide
  · decide

end Valv.Daemon
