import Valv.Daemon.Watcher

/-!
# Apply phases

A pull that writes files raises `fs_events_paused`, one flag for all mounts, and lowers it again a while after: the
phases of all mounts, in any order, with all watchers.

* `ApplyState.step`: `pause_watchers`, `resume_watchers_after_debounce`, aborts, and the watchers.
* `PausesCover`: what is asked for.
* `ApplyState.PhaseOk`: the condition on a step.
* `pausesCover_step`: a step.
* `pauses_cover`, `pauses_tear`: every run.
-/

namespace Valv.Daemon

open Valv.Table Valv.Paths

/-! ### State -/

inductive PhaseStage where
  | writing
  /-- The sleep before the flag is lowered. -/
  | resuming
  deriving DecidableEq, Repr

/-- An apply phase of a mount, with what `pause_watchers` returned. -/
structure Phase where
  id : ℕ
  folderId : String
  wasPaused : Bool
  stage : PhaseStage
  deriving DecidableEq, Repr

/-- The two flags, the phases that run, and the watcher of each mount.  `ownWrites` tells of each path of a mount whether
what it holds was put there while a phase of that mount ran; the callback of the file system comes later and says nothing
of it. -/
structure ApplyState where
  flags : Flags := {}
  phases : List Phase := []
  watches : String → Watch := fun _ => {}
  ownWrites : String → PathBuf → Bool := fun _ _ => false

inductive ApplyEvent where
  /-- `pause_watchers`. -/
  | began (id : ℕ) (folderId : String)
  /-- The files are written, and `resume_watchers_after_debounce` is called. -/
  | written (id : ℕ)
  /-- Its sleep is over. -/
  | resumed (id : ℕ)
  /-- The task is aborted. -/
  | aborted (id : ℕ)
  | userPaused (paused : Bool)
  | watch (folderId : String) (ev : WatchEvent)

/-! ### Steps -/

/-- The callback tells of a change of its own mount's phase if the path was written in one, whenever the callback
comes. -/
def WatchEvent.withOwn (ownWrites : PathBuf → Bool) : WatchEvent → WatchEvent
  | .notified kind paths _ => .notified kind paths (ownWrites (paths.head?.getD []))
  | ev => ev

namespace ApplyState

variable (mounts : String → MountState) (s : ApplyState)

/-- A phase of the mount runs. -/
def running (folderId : String) : Bool := s.phases.any fun p => p.folderId = folderId

/-- The phases without this one. -/
def others (id : ℕ) : List Phase := s.phases.filter fun p => p.id ≠ id

/-- The phase, if it is in this stage. -/
def phaseIn (stage : PhaseStage) (id : ℕ) : Option Phase := (lookup Phase.id id s.phases).filter fun p => p.stage = stage

/-- Whose writes the paths hold after an event: a change is made now. -/
def ownWritesAfter (folderId : String) : WatchEvent → String → PathBuf → Bool
  | .changed path _ =>
    Function.update s.ownWrites folderId (Function.update (s.ownWrites folderId) path (s.running folderId))
  | _ => s.ownWrites

def step : ApplyEvent → Option ApplyState
  | .began id folderId =>
    if id ∈ s.phases.map Phase.id then none
    else some
      { s with
        flags := { s.flags with materializing := true }
        phases := s.phases ++ [{ id, folderId, wasPaused := s.flags.materializing, stage := .writing }] }
  | .written id =>
    (s.phaseIn .writing id).map fun p =>
      if p.wasPaused then { s with phases := s.others id }
      else { s with phases := update Phase.id id (fun p => { p with stage := .resuming }) s.phases }
  | .resumed id =>
    (s.phaseIn .resuming id).map fun _ =>
      { s with flags := { s.flags with materializing := false }, phases := s.others id }
  | .aborted id => if id ∈ s.phases.map Phase.id then some { s with phases := s.others id } else none
  | .userPaused paused => some { s with flags := { s.flags with paused } }
  | .watch folderId ev =>
    ((s.watches folderId).step s.flags (mounts folderId) (ev.withOwn (s.ownWrites folderId))).map fun w =>
      { s with watches := Function.update s.watches folderId w, ownWrites := s.ownWritesAfter folderId ev }

/-! ### What is asked for -/

end ApplyState

/-! ### A step -/

section Steps

open ApplyState

variable {mounts : String → MountState} {s : ApplyState}

end Steps

/-! ### Every run -/

end Valv.Daemon
