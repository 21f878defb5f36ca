import Mathlib.Data.List.Basic
import Mathlib.Logic.Function.Basic
import Mathlib.Tactic.Common
import Valv.Lib.Table

/-!
# The tasks of a mount

`valvd` runs three tasks for a mount: the sync loop, the websocket and the watcher.  `post_mount` starts them,
`delete_mount_route` aborts them, and the sync loop starts a new watcher when the old one has ended.  With them starts
the boot catch-up, which notifies the sync loop once and of which nobody keeps a handle.

* `Registry.step`: the rows of `mounts`, `state.mounts`, `state.tasks` and the requests that are being answered,
  await by await.
* `Registry.Ok`: requests do not overlap, no aborted task respawns its watcher.
* `RegistryInv.step`, `CatchupInv.step`: what every such event keeps.
* `Registry.step_settled`: a mount that no request is about stays.
-/

namespace Valv.Client

open Valv.Table

/-! ### Mounts and tasks -/

/-- An entry of `state.mounts`. `lock` names its `sync_lock`, which is a new one for every `post_mount`, also for a
path that was mounted before. -/
structure MountState where
  path : String
  folderId : String
  lock : ℕ
  deriving DecidableEq, Repr

/-- Two mounts share their path or their folder, so that one of them has to give way. -/
def Conflicts (m m' : MountState) : Prop := m.path = m'.path ∨ m.folderId = m'.folderId

instance (m m' : MountState) : Decidable (Conflicts m m') := inferInstanceAs (Decidable (_ ∨ _))

inductive TaskKind where
  /-- The sync loop has the `JoinHandle` of its watcher. -/
  | syncLoop (watcher : ℕ)
  | webSocket
  | fsWatch
  deriving DecidableEq, Repr

/-- A task that has not ended; an aborted one goes on until it is suspended. -/
structure Task where
  id : ℕ
  mount : MountState
  kind : TaskKind
  aborted : Bool := false
  deriving DecidableEq, Repr

/-- The task of `spawn_boot_catchup`: it sleeps, sends one notification to the sync loop of its mount, and ends.  Its
`JoinHandle` is dropped, so that nothing aborts it, also when its mount goes. -/
structure BootCatchup where
  id : ℕ
  mount : MountState
  deriving DecidableEq, Repr

/-- The abort handles of a mount. -/
structure Handles where
  sync : ℕ
  webSocket : ℕ
  fsWatch : ℕ
  deriving DecidableEq, Repr

def Handles.ids (hs : Handles) : List ℕ := [hs.sync, hs.webSocket, hs.fsWatch]

/-- How far a `post_mount` is. Other requests and the tasks may take steps between any two of these. -/
inductive Stage where
  /-- `tree_resync` and `materialize_mount_files`. -/
  | resync
  | listed
  | cancelled
  /-- The tasks run, their handles are not in `state.tasks` yet. -/
  | spawned (handles : Handles)
  deriving DecidableEq, Repr

/-- The handles that are about to be inserted. -/
def Stage.ids : Stage → List ℕ
  | .spawned hs => hs.ids
  | _ => []

structure PostMount where
  mount : MountState
  stage : Stage
  deriving DecidableEq, Repr

/-- A row of `mounts`: `path` is its key, `folder_id` is unique. -/
structure MountRow where
  path : String
  folderId : String
  deriving DecidableEq, Repr

/-- The daemon's mounts and their tasks, as the requests see them: the rows, the two maps in memory, and the tasks
that run. -/
structure Registry where
  next : ℕ := 0
  rows : List MountRow := []
  mounts : List MountState := []
  /-- `state.tasks`. -/
  handles : String → Option Handles := fun _ => none
  /-- The tasks whose handles are kept. -/
  tasks : List Task := []
  catchups : List BootCatchup := []
  posts : List PostMount := []
  /-- `delete_mount_route`, after `cancel_tasks_for_mount`. -/
  deletes : List MountState := []
  /-- The mounts for which 204 was answered. -/
  deleted : List MountState := []

inductive RegistryEvent where
  | post (path folderId : String)
  | postListed (i : ℕ)
  | postFailed (i : ℕ)
  | postCancel (i : ℕ)
  | postSpawn (i : ℕ)
  | postRegister (i : ℕ)
  | delete (folderId : String)
  | deleteAnswer (i : ℕ)
  /-- A task ends: by itself, or after it was aborted. -/
  | ended (id : ℕ)
  /-- `respawn_watcher` of a sync loop. -/
  | respawn (id : ℕ)

/-- The mount takes the place of the first one with its path. -/
def place (m : MountState) : List MountState → List MountState
  | [] => [m]
  | m' :: ms => if m'.path = m.path then m :: ms else m' :: place m ms

namespace Registry

variable (r : Registry)

/-- The ids of the handles that `state.tasks` has for a path. -/
def handleIds (path : String) : List ℕ := (r.handles path).elim [] Handles.ids

/-- `mount_store::delete_mount`. -/
def deleteMount (path : String) : List MountRow := r.rows.filter fun row => row.path ≠ path

/-- `cancel_tasks_for_mount`. -/
def cancelTasksForMount (path : String) : Registry :=
  { r with
    handles := Function.update r.handles path none
    tasks := r.tasks.map fun t => if t.id ∈ r.handleIds path then { t with aborted := true } else t }

/-- The handles that `spawn_tasks_for_mount` keeps of the four tasks it starts. -/
def spawnedHandles : Handles := { sync := r.next + 1, webSocket := r.next + 2, fsWatch := r.next }

/-- The fourth, whose handle it drops. -/
def spawnBootCatchup (m : MountState) : BootCatchup := { id := r.next + 3, mount := m }

/-- The three tasks whose handles it keeps. -/
def spawnedTasks (m : MountState) : List Task :=
  [{ id := r.next, mount := m, kind := .fsWatch }, { id := r.next + 1, mount := m, kind := .syncLoop r.next },
    { id := r.next + 2, mount := m, kind := .webSocket }]

def step : RegistryEvent → Option Registry
  | .post path folderId =>
    if r.rows.any fun row => row.path ≠ path && row.folderId = folderId then none
    else some { r with
      next := r.next + 1
      rows := upsert MountRow.path { path, folderId } (fun row => { row with folderId }) r.rows
      posts := r.posts ++ [{ mount := { path, folderId, lock := r.next }, stage := .resync }] }
  | .postListed i => (r.posts[i]?.filter fun p => p.stage = .resync).map fun p => { r with
      mounts := place p.mount r.mounts
      posts := r.posts.set i { p with stage := .listed } }
  | .postFailed i => (r.posts[i]?.filter fun p => p.stage = .resync).map fun p => { r with
      rows := r.deleteMount p.mount.path
      posts := r.posts.eraseIdx i }
  | .postCancel i => (r.posts[i]?.filter fun p => p.stage = .listed).map fun p =>
      { r.cancelTasksForMount p.mount.path with posts := r.posts.set i { p with stage := .cancelled } }
  | .postSpawn i => (r.posts[i]?.filter fun p => p.stage = .cancelled).map fun p => { r with
      next := r.next + 4
      tasks := r.tasks ++ r.spawnedTasks p.mount
      catchups := r.catchups ++ [r.spawnBootCatchup p.mount]
      posts := r.posts.set i { p with stage := .spawned r.spawnedHandles } }
  | .postRegister i => r.posts[i]?.bind fun p =>
      match p.stage with
      | .spawned hs => some { r with
          handles := Function.update r.handles p.mount.path (some hs)
          posts := r.posts.eraseIdx i }
      | _ => none
  | .delete folderId => (r.mounts.find? fun m => m.folderId = folderId).map fun m =>
      { r.cancelTasksForMount m.path with deletes := r.deletes ++ [m] }
  | .deleteAnswer i => r.deletes[i]?.map fun m => { r with
      rows := r.deleteMount m.path
      mounts := r.mounts.filter fun m' => m'.path ≠ m.path
      deletes := r.deletes.eraseIdx i
      deleted := r.deleted ++ [m] }
  | .ended id => some { r with
      tasks := r.tasks.filter fun t => t.id ≠ id
      catchups := r.catchups.filter fun c => c.id ≠ id }
  | .respawn id => (lookup Task.id id r.tasks).bind fun t =>
      match t.kind, r.handles t.mount.path with
      | .syncLoop watcher, some hs =>
        if watcher ∈ r.tasks.map Task.id then none
        else some { r with
          next := r.next + 1
          handles := Function.update r.handles t.mount.path (some { hs with fsWatch := r.next })
          tasks := update Task.id id (fun t => { t with kind := .syncLoop r.next }) r.tasks ++
            [{ id := r.next, mount := t.mount, kind := .fsWatch }] }
      | _, _ => none

/-- The mounts that requests are being answered for. -/
def requests : List MountState := r.posts.map PostMount.mount ++ r.deletes

/-- A request is being answered for the path or the folder of the mount. While it is, the two maps may disagree
about the mount. -/
def Busy (m : MountState) : Prop := ∃ m' ∈ r.requests, Conflicts m' m

instance (m : MountState) : Decidable (r.Busy m) := inferInstanceAs (Decidable (∃ _ ∈ _, _))

/-- The `post_mount`s that have not cancelled the old tasks yet, and the deletions. -/
def unsettled : List MountState :=
  (r.posts.filter fun p => p.stage = .resync || p.stage = .listed).map PostMount.mount ++ r.deletes

/-- The mount is being replaced or deleted: its tasks were cancelled or are going to be. -/
def Unsettled (m : MountState) : Prop := ∃ m' ∈ r.unsettled, Conflicts m' m

instance (m : MountState) : Decidable (r.Unsettled m) := inferInstanceAs (Decidable (∃ _ ∈ _, _))

/-- The mount of a request that starts. -/
def starts : RegistryEvent → Option MountState
  | .post path folderId => some { path, folderId, lock := r.next }
  | .delete folderId => r.mounts.find? fun m => m.folderId = folderId
  | _ => none

/-- Requests for one path or folder do not overlap, a folder is not mounted at two paths, and no aborted sync loop
respawns its watcher. -/
def Ok : RegistryEvent → Prop
  | .post path folderId =>
    ¬ r.Busy { path, folderId, lock := r.next } ∧ ∀ m ∈ r.mounts, m.folderId = folderId → m.path = path
  | .delete folderId => ∀ m ∈ r.mounts.find? fun m => m.folderId = folderId, ¬ r.Busy m
  | .respawn id => ∀ t ∈ lookup Task.id id r.tasks, t.aborted = false
  | _ => True

instance : (ev : RegistryEvent) → Decidable (r.Ok ev)
  | .post _ _ => inferInstanceAs (Decidable (_ ∧ ∀ _ ∈ _, _ → _))
  | .delete _ | .respawn _ => inferInstanceAs (Decidable (∀ _ ∈ _, _))
  | .postListed _ | .postFailed _ | .postCancel _ | .postSpawn _ | .postRegister _ | .deleteAnswer _ | .ended _ =>
    isTrue True.intro

end Registry

/-- A task of the path that runs and was not aborted.  A boot catch-up is one until it has sent its notification. -/
def Registry.Live (r : Registry) (path : String) (id : ℕ) : Prop :=
  (∃ t ∈ r.tasks, t.id = id ∧ t.mount.path = path ∧ t.aborted = false) ∨
    ∃ c ∈ r.catchups, c.id = id ∧ c.mount.path = path

instance (r : Registry) (path : String) (id : ℕ) : Decidable (r.Live path id) :=
  inferInstanceAs (Decidable ((∃ _ ∈ _, _) ∨ ∃ _ ∈ _, _))

/-- The handle is kept where a request finds it: `state.tasks` has it for the path, or `spawn_tasks_for_mount` is
about to insert it. -/
def Registry.Held (r : Registry) (path : String) (id : ℕ) : Prop :=
  id ∈ r.handleIds path ∨ ∃ p ∈ r.posts, p.mount.path = path ∧ id ∈ p.stage.ids

instance (r : Registry) (path : String) (id : ℕ) : Decidable (r.Held path id) :=
  inferInstanceAs (Decidable (_ ∨ ∃ _ ∈ _, _))

/-- The task with this id has not ended; the boot catch-up counts as one. -/
def Registry.Running (r : Registry) (id : ℕ) : Prop := id ∈ r.tasks.map Task.id ∨ id ∈ r.catchups.map BootCatchup.id

instance (r : Registry) (id : ℕ) : Decidable (r.Running id) := inferInstanceAs (Decidable (_ ∨ _))

/-- **The handles of a path**, those of ended tasks put aside, are those of its live tasks. With it, cancelling what
`state.tasks` holds for the path ends all work for it. -/
def Registry.Registered (r : Registry) (path : String) : Prop := ∀ id, r.Live path id ↔ r.Held path id ∧ r.Running id

/-! ### What every event keeps -/

/-- The invariant of the registry. -/
structure RegistryInv (r : Registry) : Prop where
  apart : r.requests.Pairwise fun m m' => ¬ Conflicts m m'
  solo : r.mounts.Pairwise fun m m' => ¬ Conflicts m m'
  incoming : ∀ p ∈ r.posts, p.stage = .resync → ∀ m ∈ r.mounts, Conflicts p.mount m → m.path = p.mount.path
  placed : ∀ p ∈ r.posts, p.stage ≠ .resync → p.mount ∈ r.mounts
  deleting : ∀ m ∈ r.deletes, m ∈ r.mounts
  owned : ∀ t ∈ r.tasks, t.aborted = false → t.mount ∈ r.mounts ∨
    ∃ p ∈ r.posts, p.stage = .listed ∧ p.mount.path = t.mount.path
  registered : ∀ t ∈ r.tasks, t.aborted = false → t.id ∈ r.handleIds t.mount.path ∨
    ∃ p ∈ r.posts, ∃ hs, p.stage = .spawned hs ∧ p.mount = t.mount ∧ t.id ∈ hs.ids
  handled : ∀ path, ∀ id ∈ r.handleIds path, ∀ t ∈ r.tasks, t.id = id → t.mount.path = path ∧ t.aborted = false
  spawned : ∀ p ∈ r.posts, ∀ hs, p.stage = .spawned hs → ∀ t ∈ r.tasks, t.id ∈ hs.ids →
    t.mount = p.mount ∧ t.aborted = false
  cleared : ∀ p ∈ r.posts, (p.stage = .cancelled ∨ ∃ hs, p.stage = .spawned hs) → r.handles p.mount.path = none
  clearedToo : ∀ m ∈ r.deletes, r.handles m.path = none
  watching : ∀ t ∈ r.tasks, ∀ watcher, t.kind = .syncLoop watcher → ∀ hs,
    (r.handles t.mount.path = some hs ∨ ∃ p ∈ r.posts, p.stage = .spawned hs) → t.id ∈ hs.ids →
      hs.sync = t.id ∧ hs.fsWatch = watcher
  gone : ∀ m ∈ r.deleted, m ∉ r.mounts ∧ ∀ p ∈ r.posts, p.mount ≠ m
  ids : (r.tasks.map Task.id).Nodup
  fresh : ∀ t ∈ r.tasks, t.id < r.next
  freshHandles : ∀ path, ∀ id ∈ r.handleIds path, id < r.next
  freshSpawned : ∀ p ∈ r.posts, ∀ hs, p.stage = .spawned hs → ∀ id ∈ hs.ids, id < r.next
  freshLocks : (∀ m ∈ r.mounts, m.lock < r.next) ∧ (∀ p ∈ r.posts, p.mount.lock < r.next) ∧
    ∀ m ∈ r.deleted, m.lock < r.next

theorem Conflicts.symm {m m' : MountState} (h : Conflicts m m') : Conflicts m' m :=
  h.imp Eq.symm Eq.symm

theorem Conflicts.of_path {m m' : MountState} (h : m.path = m'.path) : Conflicts m m' := .inl h

theorem mem_handleIds {r : Registry} {path : String} {id : ℕ} :
    id ∈ r.handleIds path ↔ ∃ hs, r.handles path = some hs ∧ id ∈ hs.ids := by
  rw [Registry.handleIds]
  cases r.handles path with
  | none => simp
  | some hs => simp

/-- The list around an index. -/
theorem split_at {α : Type} {l : List α} {i : ℕ} {a : α} (h : l[i]? = some a) :
    ∃ xs ys, l = xs ++ a :: ys ∧ l.eraseIdx i = xs ++ ys ∧ ∀ b, l.set i b = xs ++ b :: ys := by
  induction l generalizing i with
  | nil => simp at h
  | cons x l ih =>
    cases i with
    | zero =>
      rw [List.getElem?_cons_zero] at h
      cases h
      exact ⟨[], l, rfl, rfl, fun b => rfl⟩
    | succ i =>
      rw [List.getElem?_cons_succ] at h
      obtain ⟨xs, ys, hl, herase, hset⟩ := ih h
      refine ⟨x :: xs, ys, ?_, ?_, fun b => ?_⟩
      · rw [hl, List.cons_append]
      · rw [List.eraseIdx_cons_succ, herase, List.cons_append]
      · rw [List.set_cons_succ, hset b, List.cons_append]

theorem mem_around {α : Type} {xs ys : List α} {a b : α} : b ∈ xs ++ a :: ys ↔ b = a ∨ b ∈ xs ++ ys := by
  simp only [List.mem_append, List.mem_cons]
  tauto

theorem mem_of_rest {α : Type} {l xs ys : List α} {a b : α} (hl : l = xs ++ a :: ys) (hb : b ∈ xs ++ ys) : b ∈ l := by
  rw [hl]
  exact mem_around.mpr (.inr hb)

theorem mem_place {m m' : MountState} {ms : List MountState} (hsolo : ms.Pairwise fun a b => ¬ Conflicts a b)
    (h : m' ∈ place m ms) : m' = m ∨ m' ∈ ms ∧ m'.path ≠ m.path := by
  induction ms with
  | nil => exact .inl (List.mem_singleton.mp h)
  | cons a ms ih =>
    rw [place] at h
    split at h
    · next ha =>
      rcases List.mem_cons.mp h with rfl | h
      · exact .inl rfl
      · refine .inr ⟨List.mem_cons_of_mem a h, fun hpath => ?_⟩
        exact List.rel_of_pairwise_cons hsolo h (Conflicts.of_path (ha.trans hpath.symm))
    · next ha =>
      rcases List.mem_cons.mp h with rfl | h
      · exact .inr ⟨by simp, ha⟩
      · exact (ih hsolo.of_cons h).imp id fun h => ⟨List.mem_cons_of_mem a h.1, h.2⟩

theorem mem_place_self (m : MountState) (ms : List MountState) : m ∈ place m ms := by
  induction ms with
  | nil => simp [place]
  | cons a ms ih =>
    rw [place]
    split
    · simp
    · exact List.mem_cons_of_mem a ih

theorem mem_place_of_ne {m m' : MountState} {ms : List MountState} (h : m' ∈ ms) (hne : m'.path ≠ m.path) :
    m' ∈ place m ms := by
  induction ms with
  | nil => cases h
  | cons a ms ih =>
    rw [place]
    rcases List.mem_cons.mp h with rfl | h
    · rw [if_neg hne]
      simp
    · split
      · exact List.mem_cons_of_mem m h
      · exact List.mem_cons_of_mem a (ih h)

theorem pairwise_place {m : MountState} {ms : List MountState} (hsolo : ms.Pairwise fun a b => ¬ Conflicts a b)
    (h : ∀ a ∈ ms, Conflicts m a → a.path = m.path) : (place m ms).Pairwise fun a b => ¬ Conflicts a b := by
  induction ms with
  | nil => exact List.pairwise_singleton _ m
  | cons a ms ih =>
    rw [place]
    split
    · next ha =>
      refine List.pairwise_cons.mpr ⟨fun b hb hconf => ?_, hsolo.of_cons⟩
      have hpath := h b (List.mem_cons_of_mem a hb) hconf
      exact List.rel_of_pairwise_cons hsolo hb (Conflicts.of_path (ha.trans hpath.symm))
    · next ha =>
      refine List.pairwise_cons.mpr ⟨fun b hb hconf => ?_,
        ih hsolo.of_cons fun b hb => h b (List.mem_cons_of_mem a hb)⟩
      rcases mem_place hsolo.of_cons hb with rfl | ⟨hb, -⟩
      · exact ha (h a (by simp) hconf.symm)
      · exact List.rel_of_pairwise_cons hsolo hb hconf

section Registry

variable {r : Registry} {p : PostMount} {xs ys : List PostMount} {m : MountState}

/-- The requests other than a `post_mount` are about other paths and folders. -/
theorem RegistryInv.others (h : RegistryInv r) (hp : r.posts = xs ++ p :: ys) :
    (∀ q ∈ xs ++ ys, ¬ Conflicts p.mount q.mount) ∧ ∀ m ∈ r.deletes, ¬ Conflicts p.mount m := by
  have happart := h.apart
  rw [Registry.requests, hp, List.map_append, List.map_cons] at happart
  obtain ⟨hposts, -, hcross⟩ := List.pairwise_append.mp happart
  obtain ⟨-, htail, hbefore⟩ := List.pairwise_append.mp hposts
  refine ⟨fun q hq hconf => ?_, fun m hm => hcross p.mount (by simp) m hm⟩
  rcases List.mem_append.mp hq with hq | hq
  · exact hbefore q.mount (List.mem_map_of_mem hq) p.mount (by simp) hconf.symm
  · exact List.rel_of_pairwise_cons htail (List.mem_map_of_mem hq) hconf

/-- **A task ends.** -/
theorem RegistryInv.ended (h : RegistryInv r) (id : ℕ) :
    RegistryInv { r with
      tasks := r.tasks.filter fun t => t.id ≠ id
      catchups := r.catchups.filter fun c => c.id ≠ id } := by
  have hsub : ∀ t ∈ r.tasks.filter (fun t => t.id ≠ id), t ∈ r.tasks := fun t ht => (List.mem_filter.mp ht).1
  exact { h with
    owned := fun t ht => h.owned t (hsub t ht)
    registered := fun t ht => h.registered t (hsub t ht)
    handled := fun path id hid t ht => h.handled path id hid t (hsub t ht)
    spawned := fun p hp hs hstage t ht => h.spawned p hp hs hstage t (hsub t ht)
    watching := fun t ht => h.watching t (hsub t ht)
    ids := h.ids.sublist (List.filter_sublist.map _)
    fresh := fun t ht => h.fresh t (hsub t ht) }

/-- `cancel_tasks_for_mount` leaves no live task of the path, if no task of it was spawned and not registered. -/
theorem RegistryInv.cancel (h : RegistryInv r) {path : String}
    (hnone : ∀ p ∈ r.posts, ∀ hs, p.stage = .spawned hs → p.mount.path ≠ path) :
    RegistryInv (r.cancelTasksForMount path) ∧ (r.cancelTasksForMount path).handles path = none := by
  have hself : (r.cancelTasksForMount path).handles path = none := Function.update_self ..
  have hother : ∀ q, q ≠ path → (r.cancelTasksForMount path).handles q = r.handles q :=
    fun q hq => Function.update_of_ne hq ..
  have hids : ∀ q id, id ∈ (r.cancelTasksForMount path).handleIds q → q ≠ path ∧ id ∈ r.handleIds q := by
    intro q id hid
    obtain ⟨hs, hhs, hmem⟩ := mem_handleIds.mp hid
    by_cases hq : q = path
    · rw [hq, hself] at hhs
      cases hhs
    · rw [hother q hq] at hhs
      exact ⟨hq, mem_handleIds.mpr ⟨hs, hhs, hmem⟩⟩
  -- a task as it was, or aborted
  have htask : ∀ t ∈ (r.cancelTasksForMount path).tasks, ∃ t₀ ∈ r.tasks, t.id = t₀.id ∧ t.mount = t₀.mount ∧
      t.kind = t₀.kind ∧ (t.aborted = false → t₀.aborted = false ∧ t₀.id ∉ r.handleIds path) ∧
      (t₀.id ∉ r.handleIds path → t.aborted = t₀.aborted) := by
    intro t ht
    obtain ⟨t₀, ht₀, rfl⟩ := List.mem_map.mp ht
    refine ⟨t₀, ht₀, ?_⟩
    split
    · next hmem => exact ⟨rfl, rfl, rfl, fun h => (by cases h), fun h => absurd hmem h⟩
    · next hmem => exact ⟨rfl, rfl, rfl, fun h => ⟨h, hmem⟩, fun _ => rfl⟩
  refine ⟨?_, hself⟩
  refine { h with
    owned := fun t ht hlive => ?_
    registered := fun t ht hlive => ?_
    handled := fun q id hid t ht htid => ?_
    spawned := fun p hp hs hstage t ht hid => ?_
    cleared := fun p hp hstage => ?_
    clearedToo := fun m hm => ?_
    watching := fun t ht watcher hkind hs hhs hid => ?_
    ids := ?_
    fresh := fun t ht => ?_
    freshHandles := fun q id hid => h.freshHandles q id (hids q id hid).2 }
  · obtain ⟨t₀, ht₀, -, hmount, -, hlive₀, -⟩ := htask t ht
    rw [hmount]
    exact h.owned t₀ ht₀ (hlive₀ hlive).1
  · obtain ⟨t₀, ht₀, hid, hmount, -, hlive₀, -⟩ := htask t ht
    obtain ⟨halive, hnot⟩ := hlive₀ hlive
    rw [hmount, hid]
    rcases h.registered t₀ ht₀ halive with hmem | hspawned
    · left
      by_cases hq : t₀.mount.path = path
      · exact absurd (hq ▸ hmem) hnot
      · obtain ⟨hs, hhs, hin⟩ := mem_handleIds.mp hmem
        exact mem_handleIds.mpr ⟨hs, (hother _ hq).trans hhs, hin⟩
    · exact .inr hspawned
  · obtain ⟨hq, hid⟩ := hids q id hid
    obtain ⟨t₀, ht₀, hid₀, hmount, -, -, hsame⟩ := htask t ht
    obtain ⟨hpath, halive⟩ := h.handled q id hid t₀ ht₀ (hid₀.symm.trans htid)
    rw [hmount]
    refine ⟨hpath, ?_⟩
    rw [hsame fun hmem => ?_]
    · exact halive
    · exact hq (hpath.symm.trans (h.handled path _ hmem t₀ ht₀ rfl).1)
  · obtain ⟨t₀, ht₀, hid₀, hmount, -, -, hsame⟩ := htask t ht
    obtain ⟨hmount₀, halive⟩ := h.spawned p hp hs hstage t₀ ht₀ (hid₀ ▸ hid)
    rw [hmount]
    refine ⟨hmount₀, ?_⟩
    rw [hsame fun hmem => ?_]
    · exact halive
    · exact hnone p hp hs hstage (hmount₀ ▸ (h.handled path _ hmem t₀ ht₀ rfl).1)
  · by_cases hq : p.mount.path = path
    · rw [hq]
      exact hself
    · exact (hother _ hq).trans (h.cleared p hp hstage)
  · by_cases hq : m.path = path
    · rw [hq]
      exact hself
    · exact (hother _ hq).trans (h.clearedToo m hm)
  · obtain ⟨t₀, ht₀, hid₀, hmount, hkind₀, -, -⟩ := htask t ht
    rw [hid₀]
    refine h.watching t₀ ht₀ watcher (hkind₀ ▸ hkind) hs (hhs.imp (fun hhs => ?_) id) (hid₀ ▸ hid)
    rw [hmount] at hhs
    by_cases hq : t₀.mount.path = path
    · rw [hq, hself] at hhs
      cases hhs
    · exact (hother _ hq).symm.trans hhs
  · have hmap : (r.cancelTasksForMount path).tasks.map Task.id = r.tasks.map Task.id := by
      rw [Registry.cancelTasksForMount, List.map_map]
      refine List.map_congr_left fun t _ => ?_
      simp only [Function.comp]
      split <;> rfl
    rw [hmap]
    exact h.ids
  · obtain ⟨t₀, ht₀, hid₀, -⟩ := htask t ht
    rw [hid₀]
    exact h.fresh t₀ ht₀

/-- A `post_mount` begins. -/
theorem RegistryInv.post (h : RegistryInv r) {path folderId : String}
    (hbusy : ¬ r.Busy { path, folderId, lock := r.next })
    (hmounts : ∀ m ∈ r.mounts, Conflicts { path, folderId, lock := r.next } m → m.path = path) :
    RegistryInv { r with
      next := r.next + 1
      posts := r.posts ++ [{ mount := { path, folderId, lock := r.next }, stage := .resync }] } := by
  set m : MountState := { path, folderId, lock := r.next } with hm
  have hposts : ∀ p ∈ r.posts ++ [{ mount := m, stage := .resync }], p.stage ≠ .resync → p ∈ r.posts := by
    intro p hp hstage
    rcases List.mem_append.mp hp with hp | hp
    · exact hp
    · rw [List.mem_singleton.mp hp] at hstage
      exact absurd rfl hstage
  obtain ⟨hmlock, hplock, hdlock⟩ := h.freshLocks
  exact { h with
    apart := by
      show (List.map PostMount.mount (r.posts ++ [{ mount := m, stage := .resync }]) ++ r.deletes).Pairwise _
      have hnew : ∀ m' ∈ r.requests, ¬ Conflicts m' m := fun m' hm' hconf => hbusy ⟨m', hm', hconf⟩
      obtain ⟨hposts', hdeletes, hcross⟩ := List.pairwise_append.mp h.apart
      rw [List.map_append]
      refine List.pairwise_append.mpr ⟨List.pairwise_append.mpr ⟨hposts', List.pairwise_singleton _ _, ?_⟩, hdeletes, ?_⟩
      · intro a ha b hb
        rw [List.mem_singleton.mp hb]
        exact hnew a (List.mem_append_left _ ha)
      · intro a ha b hb hconf
        rcases List.mem_append.mp ha with ha | ha
        · exact hcross a ha b hb hconf
        · rw [List.mem_singleton.mp ha] at hconf
          exact hnew b (List.mem_append_right _ hb) hconf.symm
    incoming := fun p hp hstage m' hm' hconf => by
      rcases List.mem_append.mp hp with hp | hp
      · exact h.incoming p hp hstage m' hm' hconf
      · rw [List.mem_singleton.mp hp] at hconf ⊢
        exact hmounts m' hm' hconf
    placed := fun p hp hstage => h.placed p (hposts p hp hstage) hstage
    owned := fun t ht hlive => (h.owned t ht hlive).imp id fun ⟨p, hp, hrest⟩ => ⟨p, List.mem_append_left _ hp, hrest⟩
    registered := fun t ht hlive => (h.registered t ht hlive).imp id fun ⟨p, hp, hrest⟩ =>
      ⟨p, List.mem_append_left _ hp, hrest⟩
    spawned := fun p hp hs hstage => h.spawned p (hposts p hp (by simp [hstage])) hs hstage
    cleared := fun p hp hstage => h.cleared p (hposts p hp (by rcases hstage with hs | ⟨hs, hs'⟩ <;> simp [*])) hstage
    watching := fun t ht watcher hkind hs hhs => h.watching t ht watcher hkind hs
      (hhs.imp id fun ⟨p, hp, hstage⟩ => ⟨p, hposts p hp (by simp [hstage]), hstage⟩)
    gone := fun m' hm' => by
      refine ⟨(h.gone m' hm').1, fun p hp => ?_⟩
      rcases List.mem_append.mp hp with hp | hp
      · exact (h.gone m' hm').2 p hp
      · rw [List.mem_singleton.mp hp]
        rintro rfl
        exact absurd (hdlock _ hm') (by simp [hm])
    fresh := fun t ht => Nat.lt_succ_of_lt (h.fresh t ht)
    freshHandles := fun q id hid => Nat.lt_succ_of_lt (h.freshHandles q id hid)
    freshSpawned := fun p hp hs hstage id hid =>
      Nat.lt_succ_of_lt (h.freshSpawned p (hposts p hp (by simp [hstage])) hs hstage id hid)
    freshLocks := by
      refine ⟨fun a ha => Nat.lt_succ_of_lt (hmlock a ha), fun p hp => ?_, fun a ha => Nat.lt_succ_of_lt (hdlock a ha)⟩
      rcases List.mem_append.mp hp with hp | hp
      · exact Nat.lt_succ_of_lt (hplock p hp)
      · rw [List.mem_singleton.mp hp]
        exact Nat.lt_succ_self _ }

/-- A `post_mount` goes on: its request is the same. -/
theorem RegistryInv.apart_around (h : RegistryInv r) (hp : r.posts = xs ++ p :: ys) {q : PostMount}
    (hq : q.mount = p.mount) :
    (List.map PostMount.mount (xs ++ q :: ys) ++ r.deletes).Pairwise fun m m' => ¬ Conflicts m m' := by
  have happart := h.apart
  rw [Registry.requests, hp] at happart
  simpa [hq] using happart

/-- A `post_mount` is answered: the others are as they were. -/
theorem RegistryInv.apart_without (h : RegistryInv r) (hp : r.posts = xs ++ p :: ys) :
    (List.map PostMount.mount (xs ++ ys) ++ r.deletes).Pairwise fun m m' => ¬ Conflicts m m' := by
  have happart := h.apart
  rw [Registry.requests, hp] at happart
  refine happart.sublist (List.Sublist.append_right (List.Sublist.map _ ?_) _)
  exact List.Sublist.append_left (List.sublist_cons_self p ys) xs

/-- The files are there: the mount is listed. -/
theorem RegistryInv.listed (h : RegistryInv r) (hp : r.posts = xs ++ p :: ys) (hstage : p.stage = .resync) :
    RegistryInv { r with mounts := place p.mount r.mounts, posts := xs ++ { p with stage := .listed } :: ys } := by
  obtain ⟨hposts, hdeletes⟩ := h.others hp
  have hmem : p ∈ r.posts := by simp [hp]
  have hold : ∀ q ∈ xs ++ ys, q ∈ r.posts := fun q hq => mem_of_rest hp hq
  have hnew : ∀ {q}, q ∈ r.posts → q.stage ≠ .resync → q ∈ xs ++ { p with stage := .listed } :: ys := by
    intro q hq hne
    rw [hp] at hq
    rcases mem_around.mp hq with rfl | hq
    · exact absurd hstage hne
    · exact mem_around.mpr (.inr hq)
  obtain ⟨hmlock, hplock, hdlock⟩ := h.freshLocks
  -- the posts of the other stages are those of before
  have hother : ∀ q ∈ xs ++ { p with stage := .listed } :: ys, q.stage ≠ .listed → q ∈ xs ++ ys := by
    intro q hq hne
    rcases mem_around.mp hq with rfl | hq
    · exact absurd rfl hne
    · exact hq
  exact { h with
    apart := h.apart_around hp rfl
    solo := pairwise_place h.solo fun m hm hconf => h.incoming p hmem hstage m hm hconf
    incoming := fun q hq hqstage m hm hconf => by
      have hq := hother q hq (by simp [hqstage])
      rcases mem_place h.solo hm with rfl | ⟨hm, -⟩
      · exact absurd hconf.symm (hposts q hq)
      · exact h.incoming q (hold q hq) hqstage m hm hconf
    placed := fun q hq hqstage => by
      rcases mem_around.mp hq with rfl | hq
      · exact mem_place_self _ _
      · exact mem_place_of_ne (h.placed q (hold q hq) hqstage) fun hpath => hposts q hq (.inl hpath.symm)
    deleting := fun m hm => mem_place_of_ne (h.deleting m hm) fun hpath => hdeletes m hm (.inl hpath.symm)
    owned := fun t ht hlive => by
      by_cases hpath : p.mount.path = t.mount.path
      · exact .inr ⟨_, mem_around.mpr (.inl rfl), rfl, hpath⟩
      · refine (h.owned t ht hlive).imp (fun hm => mem_place_of_ne hm (Ne.symm hpath)) ?_
        rintro ⟨q, hq, hqstage, hqpath⟩
        exact ⟨q, hnew hq (by simp [hqstage]), hqstage, hqpath⟩
    registered := fun t ht hlive => by
      refine (h.registered t ht hlive).imp id ?_
      rintro ⟨q, hq, hs, hqstage, hrest⟩
      exact ⟨q, hnew hq (by simp [hqstage]), hs, hqstage, hrest⟩
    spawned := fun q hq hs hqstage => h.spawned q (hold q (hother q hq (by simp [hqstage]))) hs hqstage
    cleared := fun q hq hqstage =>
      h.cleared q (hold q (hother q hq (by rcases hqstage with hs | ⟨hs, hs'⟩ <;> simp [*]))) hqstage
    watching := fun t ht watcher hkind hs hhs => h.watching t ht watcher hkind hs (hhs.imp id
      fun ⟨q, hq, hqstage⟩ => ⟨q, hold q (hother q hq (by simp [hqstage])), hqstage⟩)
    gone := fun m hm => by
      obtain ⟨hnot, hne⟩ := h.gone m hm
      refine ⟨fun hin => ?_, fun q hq => ?_⟩
      · rcases mem_place h.solo hin with rfl | ⟨hin, -⟩
        · exact hne p hmem rfl
        · exact hnot hin
      · rcases mem_around.mp hq with rfl | hq
        · exact hne p hmem
        · exact hne q (hold q hq)
    freshSpawned := fun q hq hs hqstage => h.freshSpawned q (hold q (hother q hq (by simp [hqstage]))) hs hqstage
    freshLocks := by
      refine ⟨fun m hm => ?_, fun q hq => ?_, hdlock⟩
      · rcases mem_place h.solo hm with rfl | ⟨hm, -⟩
        · exact hplock p hmem
        · exact hmlock m hm
      · rcases mem_around.mp hq with rfl | hq
        · exact hplock p hmem
        · exact hplock q (hold q hq) }

/-- The folder cannot be had. -/
theorem RegistryInv.failed (h : RegistryInv r) (hp : r.posts = xs ++ p :: ys) (hstage : p.stage = .resync) :
    RegistryInv { r with posts := xs ++ ys } := by
  have hold : ∀ q ∈ xs ++ ys, q ∈ r.posts := fun q hq => mem_of_rest hp hq
  have hnew : ∀ {q}, q ∈ r.posts → q.stage ≠ .resync → q ∈ xs ++ ys := by
    intro q hq hne
    rw [hp] at hq
    exact (mem_around.mp hq).resolve_left fun heq => hne (heq ▸ hstage)
  obtain ⟨hmlock, hplock, hdlock⟩ := h.freshLocks
  exact { h with
    apart := h.apart_without hp
    incoming := fun q hq => h.incoming q (hold q hq)
    placed := fun q hq => h.placed q (hold q hq)
    owned := fun t ht hlive => (h.owned t ht hlive).imp id fun ⟨q, hq, hqstage, hrest⟩ =>
      ⟨q, hnew hq (by simp [hqstage]), hqstage, hrest⟩
    registered := fun t ht hlive => (h.registered t ht hlive).imp id fun ⟨q, hq, hs, hqstage, hrest⟩ =>
      ⟨q, hnew hq (by simp [hqstage]), hs, hqstage, hrest⟩
    spawned := fun q hq => h.spawned q (hold q hq)
    cleared := fun q hq => h.cleared q (hold q hq)
    watching := fun t ht watcher hkind hs hhs => h.watching t ht watcher hkind hs (hhs.imp id
      fun ⟨q, hq, hqstage⟩ => ⟨q, hold q hq, hqstage⟩)
    gone := fun m hm => ⟨(h.gone m hm).1, fun q hq => (h.gone m hm).2 q (hold q hq)⟩
    freshSpawned := fun q hq => h.freshSpawned q (hold q hq)
    freshLocks := ⟨hmlock, fun q hq => hplock q (hold q hq), hdlock⟩ }

/-- Where no handle of the path is left, no task of it is live but those of a `post_mount` for it. -/
theorem RegistryInv.not_live (h : RegistryInv r) {path : String} (hclear : r.handles path = none)
    (hnone : ∀ p ∈ r.posts, ∀ hs, p.stage = .spawned hs → p.mount.path ≠ path) {t : Task} (ht : t ∈ r.tasks)
    (hlive : t.aborted = false) : t.mount.path ≠ path := by
  intro hpath
  rcases h.registered t ht hlive with hmem | ⟨q, hq, hs, hstage, hmount, -⟩
  · obtain ⟨hs, hhs, -⟩ := mem_handleIds.mp hmem
    rw [hpath, hclear] at hhs
    cases hhs
  · exact hnone q hq hs hstage (hmount ▸ hpath)

/-- The old tasks are cancelled. -/
theorem RegistryInv.cancelled (h : RegistryInv r) (hp : r.posts = xs ++ p :: ys) (hstage : p.stage = .listed)
    (hclear : r.handles p.mount.path = none) :
    RegistryInv { r with posts := xs ++ { p with stage := .cancelled } :: ys } := by
  obtain ⟨hposts, hdeletes⟩ := h.others hp
  have hmem : p ∈ r.posts := by simp [hp]
  have hold : ∀ q ∈ xs ++ ys, q ∈ r.posts := fun q hq => mem_of_rest hp hq
  have hnew : ∀ {q}, q ∈ r.posts → q.stage ≠ .listed → q ∈ xs ++ { p with stage := .cancelled } :: ys := by
    intro q hq hne
    rw [hp] at hq
    rcases mem_around.mp hq with rfl | hq
    · exact absurd hstage hne
    · exact mem_around.mpr (.inr hq)
  have hother : ∀ q ∈ xs ++ { p with stage := .cancelled } :: ys, q.stage ≠ .cancelled → q ∈ xs ++ ys := by
    intro q hq hne
    rcases mem_around.mp hq with rfl | hq
    · exact absurd rfl hne
    · exact hq
  -- no task of the path is live any more
  have hnone : ∀ q ∈ r.posts, ∀ hs, q.stage = .spawned hs → q.mount.path ≠ p.mount.path := by
    intro q hq hs hqstage hpath
    rw [hp] at hq
    rcases mem_around.mp hq with rfl | hq
    · rw [hstage] at hqstage
      cases hqstage
    · exact hposts q hq (.inl hpath.symm)
  obtain ⟨hmlock, hplock, hdlock⟩ := h.freshLocks
  exact { h with
    apart := h.apart_around hp rfl
    incoming := fun q hq hqstage => h.incoming q (hold q (hother q hq (by simp [hqstage]))) hqstage
    placed := fun q hq hqstage => by
      rcases mem_around.mp hq with rfl | hq
      · exact h.placed p hmem (by simp [hstage])
      · exact h.placed q (hold q hq) hqstage
    owned := fun t ht hlive => by
      refine (h.owned t ht hlive).imp id ?_
      rintro ⟨q, hq, hqstage, hpath⟩
      have hne := h.not_live hclear hnone ht hlive
      rw [hp] at hq
      rcases mem_around.mp hq with rfl | hq
      · exact absurd hpath.symm hne
      · exact ⟨q, mem_around.mpr (.inr hq), hqstage, hpath⟩
    registered := fun t ht hlive => (h.registered t ht hlive).imp id fun ⟨q, hq, hs, hqstage, hrest⟩ =>
      ⟨q, hnew hq (by simp [hqstage]), hs, hqstage, hrest⟩
    spawned := fun q hq hs hqstage => h.spawned q (hold q (hother q hq (by simp [hqstage]))) hs hqstage
    cleared := fun q hq hqstage => by
      rcases mem_around.mp hq with rfl | hq
      · exact hclear
      · exact h.cleared q (hold q hq) hqstage
    watching := fun t ht watcher hkind hs hhs => h.watching t ht watcher hkind hs (hhs.imp id
      fun ⟨q, hq, hqstage⟩ => ⟨q, hold q (hother q hq (by simp [hqstage])), hqstage⟩)
    gone := fun m hm => by
      refine ⟨(h.gone m hm).1, fun q hq => ?_⟩
      rcases mem_around.mp hq with rfl | hq
      · exact (h.gone m hm).2 p hmem
      · exact (h.gone m hm).2 q (hold q hq)
    freshSpawned := fun q hq hs hqstage => h.freshSpawned q (hold q (hother q hq (by simp [hqstage]))) hs hqstage
    freshLocks := by
      refine ⟨hmlock, fun q hq => ?_, hdlock⟩
      rcases mem_around.mp hq with rfl | hq
      · exact hplock p hmem
      · exact hplock q (hold q hq) }

/-- The tasks of the mount are spawned. -/
theorem RegistryInv.spawn (h : RegistryInv r) (hp : r.posts = xs ++ p :: ys) (hstage : p.stage = .cancelled) :
    RegistryInv { r with
      next := r.next + 4
      tasks := r.tasks ++ r.spawnedTasks p.mount
      catchups := r.catchups ++ [r.spawnBootCatchup p.mount]
      posts := xs ++ { p with stage := .spawned r.spawnedHandles } :: ys } := by
  have hmem : p ∈ r.posts := by simp [hp]
  have hold : ∀ q ∈ xs ++ ys, q ∈ r.posts := fun q hq => mem_of_rest hp hq
  have hnew : ∀ {q}, q ∈ r.posts → q.stage ≠ .cancelled →
      q ∈ xs ++ { p with stage := .spawned r.spawnedHandles } :: ys := by
    intro q hq hne
    rw [hp] at hq
    rcases mem_around.mp hq with rfl | hq
    · exact absurd hstage hne
    · exact mem_around.mpr (.inr hq)
  have hplaced := h.placed p hmem (by simp [hstage])
  have hids : ∀ id ∈ r.spawnedHandles.ids, r.next ≤ id ∧ id < r.next + 4 := by
    intro id hid
    simp only [Handles.ids, Registry.spawnedHandles, List.mem_cons, List.not_mem_nil, or_false] at hid
    omega
  have htasks : ∀ t ∈ r.spawnedTasks p.mount, t.mount = p.mount ∧ t.aborted = false ∧ t.id ∈ r.spawnedHandles.ids ∧
      ∀ watcher, t.kind = .syncLoop watcher → r.spawnedHandles.sync = t.id ∧ r.spawnedHandles.fsWatch = watcher := by
    intro t ht
    simp only [Registry.spawnedTasks, List.mem_cons, List.not_mem_nil, or_false] at ht
    rcases ht with rfl | rfl | rfl
    · exact ⟨rfl, rfl, by simp [Handles.ids, Registry.spawnedHandles], fun w hw => by cases hw⟩
    · exact ⟨rfl, rfl, by simp [Handles.ids, Registry.spawnedHandles], fun w hw => by cases hw; exact ⟨rfl, rfl⟩⟩
    · exact ⟨rfl, rfl, by simp [Handles.ids, Registry.spawnedHandles], fun w hw => by cases hw⟩
  have hfresh : ∀ t ∈ r.spawnedTasks p.mount, r.next ≤ t.id ∧ t.id < r.next + 4 :=
    fun t ht => hids t.id (htasks t ht).2.2.1
  have hstages : ∀ q ∈ xs ++ { p with stage := .spawned r.spawnedHandles } :: ys, q.stage ≠ .spawned r.spawnedHandles →
      q ∈ xs ++ ys := by
    intro q hq hne
    rcases mem_around.mp hq with rfl | hq
    · exact absurd rfl hne
    · exact hq
  obtain ⟨hmlock, hplock, hdlock⟩ := h.freshLocks
  refine { h with
    apart := h.apart_around hp rfl
    incoming := fun q hq hqstage => h.incoming q (hold q (hstages q hq (by simp [hqstage]))) hqstage
    placed := fun q hq hqstage => ?_
    owned := fun t ht hlive => ?_
    registered := fun t ht hlive => ?_
    handled := fun path id hid t ht htid => ?_
    spawned := fun q hq hs hqstage t ht hid => ?_
    cleared := fun q hq hqstage => ?_
    watching := fun t ht watcher hkind hs hhs hid => ?_
    gone := fun m hm => ?_
    ids := ?_
    fresh := fun t ht => ?_
    freshHandles := fun q id hid => Nat.lt_add_right 4 (h.freshHandles q id hid)
    freshSpawned := fun q hq hs hqstage id hid => ?_
    freshLocks := ?_ }
  · rcases mem_around.mp hq with rfl | hq
    · exact hplaced
    · exact h.placed q (hold q hq) hqstage
  · rcases List.mem_append.mp ht with ht | ht
    · refine (h.owned t ht hlive).imp id ?_
      rintro ⟨q, hq, hqstage, hpath⟩
      exact ⟨q, hnew hq (by simp [hqstage]), hqstage, hpath⟩
    · rw [(htasks t ht).1]
      exact .inl hplaced
  · rcases List.mem_append.mp ht with ht | ht
    · refine (h.registered t ht hlive).imp id ?_
      rintro ⟨q, hq, hs, hqstage, hrest⟩
      exact ⟨q, hnew hq (by simp [hqstage]), hs, hqstage, hrest⟩
    · exact .inr ⟨_, mem_around.mpr (.inl rfl), _, rfl, (htasks t ht).1.symm, (htasks t ht).2.2.1⟩
  · rcases List.mem_append.mp ht with ht | ht
    · exact h.handled path id hid t ht htid
    · have hlt := h.freshHandles path id hid
      have hge := (hfresh t ht).1
      omega
  · rcases mem_around.mp hq with rfl | hq
    · cases hqstage
      rcases List.mem_append.mp ht with ht | ht
      · have hlt := h.fresh t ht
        have hge := (hids t.id hid).1
        omega
      · exact ⟨(htasks t ht).1, (htasks t ht).2.1⟩
    · rcases List.mem_append.mp ht with ht | ht
      · exact h.spawned q (hold q hq) hs hqstage t ht hid
      · have hlt := h.freshSpawned q (hold q hq) hs hqstage t.id hid
        have hge := (hfresh t ht).1
        omega
  · rcases mem_around.mp hq with rfl | hq
    · exact h.cleared p hmem (.inl hstage)
    · exact h.cleared q (hold q hq) hqstage
  · rcases List.mem_append.mp ht with ht | ht
    · refine h.watching t ht watcher hkind hs ?_ hid
      refine hhs.imp id ?_
      rintro ⟨q, hq, hqstage⟩
      rcases mem_around.mp hq with rfl | hq
      · cases hqstage
        have hlt := h.fresh t ht
        have hge := (hids t.id hid).1
        omega
      · exact ⟨q, hold q hq, hqstage⟩
    · have hge := (hfresh t ht).1
      rcases hhs with hhs | ⟨q, hq, hqstage⟩
      · have hlt := h.freshHandles t.mount.path t.id (mem_handleIds.mpr ⟨hs, hhs, hid⟩)
        omega
      · rcases mem_around.mp hq with rfl | hq
        · cases hqstage
          exact (htasks t ht).2.2.2 watcher hkind
        · have hlt := h.freshSpawned q (hold q hq) hs hqstage t.id hid
          omega
  · refine ⟨(h.gone m hm).1, fun q hq => ?_⟩
    rcases mem_around.mp hq with rfl | hq
    · exact (h.gone m hm).2 p hmem
    · exact (h.gone m hm).2 q (hold q hq)
  · show ((r.tasks ++ r.spawnedTasks p.mount).map Task.id).Nodup
    rw [List.map_append]
    refine List.nodup_append.mpr ⟨h.ids, by simp [Registry.spawnedTasks], fun a ha b hb hab => ?_⟩
    obtain ⟨t, ht, rfl⟩ := List.mem_map.mp ha
    obtain ⟨t', ht', rfl⟩ := List.mem_map.mp hb
    have hlt := h.fresh t ht
    have hge := (hfresh t' ht').1
    omega
  · rcases List.mem_append.mp ht with ht | ht
    · exact Nat.lt_add_right 4 (h.fresh t ht)
    · exact (hfresh t ht).2
  · rcases mem_around.mp hq with rfl | hq
    · cases hqstage
      exact (hids id hid).2
    · exact Nat.lt_add_right 4 (h.freshSpawned q (hold q hq) hs hqstage id hid)
  · refine ⟨fun m hm => Nat.lt_add_right 4 (hmlock m hm), fun q hq => ?_,
      fun m hm => Nat.lt_add_right 4 (hdlock m hm)⟩
    rcases mem_around.mp hq with rfl | hq
    · exact Nat.lt_add_right 4 (hplock p hmem)
    · exact Nat.lt_add_right 4 (hplock q (hold q hq))

/-- The handles are registered, and the request is answered. -/
theorem RegistryInv.register (h : RegistryInv r) (hp : r.posts = xs ++ p :: ys) {hs : Handles}
    (hstage : p.stage = .spawned hs) :
    RegistryInv { r with handles := Function.update r.handles p.mount.path (some hs), posts := xs ++ ys } := by
  obtain ⟨hposts, hdeletes⟩ := h.others hp
  have hmem : p ∈ r.posts := by simp [hp]
  have hclear := h.cleared p hmem (.inr ⟨hs, hstage⟩)
  have hold : ∀ q ∈ xs ++ ys, q ∈ r.posts := fun q hq => mem_of_rest hp hq
  have hnew : ∀ {q}, q ∈ r.posts → q ≠ p → q ∈ xs ++ ys := by
    intro q hq hne
    rw [hp] at hq
    exact (mem_around.mp hq).resolve_left hne
  set r' : Registry := { r with handles := Function.update r.handles p.mount.path (some hs), posts := xs ++ ys } with hr'
  have hself : r'.handles p.mount.path = some hs := Function.update_self ..
  have hother : ∀ path, path ≠ p.mount.path → r'.handles path = r.handles path :=
    fun path hne => Function.update_of_ne hne ..
  have hids : ∀ path id, id ∈ r'.handleIds path →
      (path = p.mount.path ∧ id ∈ hs.ids) ∨ path ≠ p.mount.path ∧ id ∈ r.handleIds path := by
    intro path id hid
    obtain ⟨hs', hhs', hin⟩ := mem_handleIds.mp hid
    by_cases hpath : path = p.mount.path
    · rw [hpath, hself] at hhs'
      cases hhs'
      exact .inl ⟨hpath, hin⟩
    · exact .inr ⟨hpath, mem_handleIds.mpr ⟨hs', (hother path hpath).symm.trans hhs', hin⟩⟩
  obtain ⟨hmlock, hplock, hdlock⟩ := h.freshLocks
  exact { h with
    apart := h.apart_without hp
    incoming := fun q hq => h.incoming q (hold q hq)
    placed := fun q hq => h.placed q (hold q hq)
    owned := fun t ht hlive => (h.owned t ht hlive).imp id fun ⟨q, hq, hqstage, hrest⟩ =>
      ⟨q, hnew hq (by rintro rfl; simp [hstage] at hqstage), hqstage, hrest⟩
    registered := fun t ht hlive => by
      rcases h.registered t ht hlive with hin | ⟨q, hq, hs', hqstage, hmount, hid⟩
      · obtain ⟨hs', hhs', hid⟩ := mem_handleIds.mp hin
        by_cases hpath : t.mount.path = p.mount.path
        · rw [hpath, hclear] at hhs'
          cases hhs'
        · exact .inl (mem_handleIds.mpr ⟨hs', (hother _ hpath).trans hhs', hid⟩)
      · by_cases hqp : q = p
        · rw [hqp] at hqstage hmount
          rw [hstage] at hqstage
          cases hqstage
          exact .inl (mem_handleIds.mpr ⟨hs, hmount ▸ hself, hid⟩)
        · exact .inr ⟨q, hnew hq hqp, hs', hqstage, hmount, hid⟩
    handled := fun path id hid t ht htid => by
      rcases hids path id hid with ⟨hpath, hin⟩ | ⟨-, hin⟩
      · obtain ⟨hmount, hlive⟩ := h.spawned p hmem hs hstage t ht (htid ▸ hin)
        exact ⟨by rw [hmount, hpath], hlive⟩
      · exact h.handled path id hin t ht htid
    spawned := fun q hq => h.spawned q (hold q hq)
    cleared := fun q hq hqstage => by
      have hne : q.mount.path ≠ p.mount.path := fun hpath => hposts q hq (.inl hpath.symm)
      exact (hother _ hne).trans (h.cleared q (hold q hq) hqstage)
    clearedToo := fun m hm => by
      have hne : m.path ≠ p.mount.path := fun hpath => hdeletes m hm (.inl hpath.symm)
      exact (hother _ hne).trans (h.clearedToo m hm)
    watching := fun t ht watcher hkind hs' hhs' hid => by
      rcases hhs' with hhs' | ⟨q, hq, hqstage⟩
      · by_cases hpath : t.mount.path = p.mount.path
        · rw [hpath, hself] at hhs'
          cases hhs'
          exact h.watching t ht watcher hkind hs (.inr ⟨p, hmem, hstage⟩) hid
        · exact h.watching t ht watcher hkind hs' (.inl ((hother _ hpath).symm.trans hhs')) hid
      · exact h.watching t ht watcher hkind hs' (.inr ⟨q, hold q hq, hqstage⟩) hid
    gone := fun m hm => ⟨(h.gone m hm).1, fun q hq => (h.gone m hm).2 q (hold q hq)⟩
    freshHandles := fun path id hid => by
      rcases hids path id hid with ⟨-, hin⟩ | ⟨-, hin⟩
      · exact h.freshSpawned p hmem hs hstage id hin
      · exact h.freshHandles path id hin
    freshSpawned := fun q hq => h.freshSpawned q (hold q hq)
    freshLocks := ⟨hmlock, fun q hq => hplock q (hold q hq), hdlock⟩ }

/-- `delete_mount_route` has cancelled the tasks. -/
theorem RegistryInv.delete (h : RegistryInv r) (hm : m ∈ r.mounts) (hbusy : ¬ r.Busy m)
    (hclear : r.handles m.path = none) : RegistryInv { r with deletes := r.deletes ++ [m] } := by
  exact { h with
    apart := by
      show (List.map PostMount.mount r.posts ++ (r.deletes ++ [m])).Pairwise _
      rw [← List.append_assoc]
      refine List.pairwise_append.mpr ⟨h.apart, List.pairwise_singleton _ _, fun a ha b hb hconf => ?_⟩
      rw [List.mem_singleton.mp hb] at hconf
      exact hbusy ⟨a, ha, hconf⟩
    deleting := fun a ha => by
      rcases List.mem_append.mp ha with ha | ha
      · exact h.deleting a ha
      · rwa [List.mem_singleton.mp ha]
    clearedToo := fun a ha => by
      rcases List.mem_append.mp ha with ha | ha
      · exact h.clearedToo a ha
      · rwa [List.mem_singleton.mp ha] }

/-- 204 is answered. -/
theorem RegistryInv.deleteAnswer (h : RegistryInv r) {ds es : List MountState} (hd : r.deletes = ds ++ m :: es) :
    RegistryInv { r with
      mounts := r.mounts.filter fun m' => m'.path ≠ m.path
      deletes := ds ++ es
      deleted := r.deleted ++ [m] } := by
  have hmem : m ∈ r.deletes := by simp [hd]
  have hold : ∀ a ∈ ds ++ es, a ∈ r.deletes := fun a ha => mem_of_rest hd ha
  have happart := h.apart
  rw [Registry.requests, hd] at happart
  obtain ⟨-, hdeletes, hcross⟩ := List.pairwise_append.mp happart
  have hposts : ∀ q ∈ r.posts, ¬ Conflicts q.mount m :=
    fun q hq => hcross q.mount (List.mem_map_of_mem hq) m (by simp)
  have hothers : ∀ a ∈ ds ++ es, a.path ≠ m.path := by
    obtain ⟨-, htail, hbefore⟩ := List.pairwise_append.mp hdeletes
    intro a ha hpath
    rcases List.mem_append.mp ha with ha | ha
    · exact hbefore a ha m (by simp) (.inl hpath)
    · exact List.rel_of_pairwise_cons htail ha (.inl hpath.symm)
  have hkept : ∀ a ∈ r.mounts, a.path ≠ m.path → a ∈ r.mounts.filter fun m' => m'.path ≠ m.path :=
    fun a ha hne => List.mem_filter.mpr ⟨ha, by simpa using hne⟩
  have hsub : ∀ a ∈ r.mounts.filter (fun m' => m'.path ≠ m.path), a ∈ r.mounts := fun a ha => (List.mem_filter.mp ha).1
  obtain ⟨hmlock, hplock, hdlock⟩ := h.freshLocks
  exact { h with
    apart := by
      refine happart.sublist (List.Sublist.append_left ?_ _)
      exact List.Sublist.append_left (List.sublist_cons_self m es) ds
    solo := h.solo.filter _
    incoming := fun q hq hqstage a ha => h.incoming q hq hqstage a (hsub a ha)
    placed := fun q hq hqstage => hkept _ (h.placed q hq hqstage) fun hpath => hposts q hq (.inl hpath)
    deleting := fun a ha => hkept a (h.deleting a (hold a ha)) (hothers a ha)
    owned := fun t ht hlive => by
      refine (h.owned t ht hlive).imp (fun hin => hkept _ hin ?_) id
      refine h.not_live (h.clearedToo m hmem) (fun q hq hs hqstage hpath => ?_) ht hlive
      exact hposts q hq (.inl hpath)
    clearedToo := fun a ha => h.clearedToo a (hold a ha)
    gone := fun a ha => by
      rcases List.mem_append.mp ha with ha | ha
      · exact ⟨fun hin => (h.gone a ha).1 (hsub a hin), (h.gone a ha).2⟩
      · rw [List.mem_singleton.mp ha]
        refine ⟨fun hin => ?_, fun q hq heq => hposts q hq (.inl (by rw [heq]))⟩
        simpa using (List.mem_filter.mp hin).2
    freshLocks := by
      refine ⟨fun a ha => hmlock a (hsub a ha), hplock, fun a ha => ?_⟩
      rcases List.mem_append.mp ha with ha | ha
      · exact hdlock a ha
      · rw [List.mem_singleton.mp ha]
        exact hmlock m (h.deleting m hmem) }

theorem Handles.mem_ids {hs : Handles} {id : ℕ} : id ∈ hs.ids ↔ id = hs.sync ∨ id = hs.webSocket ∨ id = hs.fsWatch := by
  simp [Handles.ids]

/-- **A watcher is respawned** by the live sync loop of its mount: its handle takes the place of the one of the
watcher that has ended. -/
theorem RegistryInv.respawn (h : RegistryInv r) {t : Task} (ht : t ∈ r.tasks) (hlive : t.aborted = false)
    {watcher : ℕ} (hkind : t.kind = .syncLoop watcher) {hs : Handles} (hhs : r.handles t.mount.path = some hs)
    (hended : watcher ∉ r.tasks.map Task.id) :
    RegistryInv { r with
      next := r.next + 1
      handles := Function.update r.handles t.mount.path (some { hs with fsWatch := r.next })
      tasks := update Task.id t.id (fun t => { t with kind := .syncLoop r.next }) r.tasks ++
        [{ id := r.next, mount := t.mount, kind := .fsWatch }] } := by
  set path := t.mount.path with hpath
  set r' : Registry := { r with
    next := r.next + 1
    handles := Function.update r.handles path (some { hs with fsWatch := r.next })
    tasks := update Task.id t.id (fun t => { t with kind := .syncLoop r.next }) r.tasks ++
      [{ id := r.next, mount := t.mount, kind := .fsWatch }] } with hr'
  have hself : r'.handles path = some { hs with fsWatch := r.next } := Function.update_self ..
  have hother : ∀ q, q ≠ path → r'.handles q = r.handles q := fun q hne => Function.update_of_ne hne ..
  -- the handle of the loop is registered, so its watcher's was the one that goes
  have hregistered : t.id ∈ hs.ids := by
    rcases h.registered t ht hlive with hin | ⟨q, hq, hs', hstage, hmount, -⟩
    · obtain ⟨hs', hhs', hin⟩ := mem_handleIds.mp hin
      rw [hhs] at hhs'
      cases hhs'
      exact hin
    · have hclear := h.cleared q hq (.inr ⟨hs', hstage⟩)
      rw [hmount, ← hpath, hhs] at hclear
      cases hclear
  obtain ⟨hsync, hwatch⟩ := h.watching t ht watcher hkind hs (.inl hhs) hregistered
  have htask : ∀ t' ∈ r'.tasks, (t'.id = r.next ∧ t'.mount = t.mount ∧ t'.aborted = false ∧ t'.kind = .fsWatch) ∨
      ∃ t₀ ∈ r.tasks, t'.id = t₀.id ∧ t'.mount = t₀.mount ∧ t'.aborted = t₀.aborted ∧
        ((t₀.id ≠ t.id ∧ t'.kind = t₀.kind) ∨ t₀.id = t.id ∧ t'.kind = .syncLoop r.next) := by
    intro t' ht'
    rcases List.mem_append.mp ht' with ht' | ht'
    · obtain ⟨t₀, ht₀, rfl⟩ := mem_update.mp ht'
      refine .inr ⟨t₀, ht₀, ?_⟩
      split
      · next heq => exact ⟨rfl, rfl, rfl, .inr ⟨heq, rfl⟩⟩
      · next hne => exact ⟨rfl, rfl, rfl, .inl ⟨hne, rfl⟩⟩
    · rw [List.mem_singleton.mp ht']
      exact .inl ⟨rfl, rfl, rfl, rfl⟩
  have hids : ∀ q id, id ∈ r'.handleIds q → (q = path ∧ id = r.next) ∨ id ∈ r.handleIds q := by
    intro q id hid
    obtain ⟨hs', hhs', hin⟩ := mem_handleIds.mp hid
    by_cases hq : q = path
    · rw [hq, hself] at hhs'
      cases hhs'
      rcases Handles.mem_ids.mp hin with hid | hid | hid
      · exact .inr (mem_handleIds.mpr ⟨hs, hq ▸ hhs, Handles.mem_ids.mpr (.inl hid)⟩)
      · exact .inr (mem_handleIds.mpr ⟨hs, hq ▸ hhs, Handles.mem_ids.mpr (.inr (.inl hid))⟩)
      · exact .inl ⟨hq, hid⟩
    · exact .inr (mem_handleIds.mpr ⟨hs', (hother q hq).symm.trans hhs', hin⟩)
  have hcleared : ∀ q, r.handles q = none → r'.handles q = none := by
    intro q hq
    by_cases heq : q = path
    · rw [heq, hhs] at hq
      cases hq
    · exact (hother q heq).trans hq
  obtain ⟨hmlock, hplock, hdlock⟩ := h.freshLocks
  refine { h with
    owned := fun t' ht' halive => ?_
    registered := fun t' ht' halive => ?_
    handled := fun q id hid t' ht' htid => ?_
    spawned := fun q hq hs' hstage t' ht' hid => ?_
    cleared := fun q hq hstage => hcleared _ (h.cleared q hq hstage)
    clearedToo := fun m hm => hcleared _ (h.clearedToo m hm)
    watching := fun t' ht' watcher' hkind' hs' hhs' hid => ?_
    ids := ?_
    fresh := fun t' ht' => ?_
    freshHandles := fun q id hid => ?_
    freshSpawned := fun q hq hs' hstage id hid => Nat.lt_add_right 1 (h.freshSpawned q hq hs' hstage id hid)
    freshLocks := ⟨fun m hm => Nat.lt_add_right 1 (hmlock m hm), fun q hq => Nat.lt_add_right 1 (hplock q hq),
      fun m hm => Nat.lt_add_right 1 (hdlock m hm)⟩ }
  · rcases htask t' ht' with ⟨-, hmount, -⟩ | ⟨t₀, ht₀, -, hmount, haborted, -⟩
    · rw [hmount]
      exact h.owned t ht hlive
    · rw [hmount]
      exact h.owned t₀ ht₀ (haborted ▸ halive)
  · rcases htask t' ht' with ⟨hid, hmount, -⟩ | ⟨t₀, ht₀, hid, hmount, haborted, -⟩
    · left
      rw [hid, hmount]
      exact mem_handleIds.mpr ⟨_, hself, by simp [Handles.ids]⟩
    · rw [hid, hmount]
      refine (h.registered t₀ ht₀ (haborted ▸ halive)).imp (fun hin => ?_) id
      obtain ⟨hs', hhs', hin⟩ := mem_handleIds.mp hin
      by_cases hq : t₀.mount.path = path
      · rw [hq, hhs] at hhs'
        cases hhs'
        refine mem_handleIds.mpr ⟨_, hq ▸ hself, Handles.mem_ids.mpr ?_⟩
        rcases Handles.mem_ids.mp hin with hin | hin | hin
        · exact .inl hin
        · exact .inr (.inl hin)
        · have hgone : watcher ∈ r.tasks.map Task.id := by
            rw [← hwatch, ← hin]
            exact List.mem_map_of_mem ht₀
          exact absurd hgone hended
      · exact mem_handleIds.mpr ⟨hs', (hother _ hq).trans hhs', hin⟩
  · rcases htask t' ht' with ⟨hid', hmount, halive, -⟩ | ⟨t₀, ht₀, hid', hmount, haborted, -⟩
    · rcases hids q id hid with ⟨hq, -⟩ | hin
      · exact ⟨by rw [hmount, hq], halive⟩
      · have hlt := h.freshHandles q id hin
        omega
    · rcases hids q id hid with ⟨-, hnew⟩ | hin
      · have hlt := h.fresh t₀ ht₀
        omega
      · rw [hmount, haborted]
        exact h.handled q id hin t₀ ht₀ (hid'.symm.trans htid)
  · rcases htask t' ht' with ⟨hid', -⟩ | ⟨t₀, ht₀, hid', hmount, haborted, -⟩
    · have hlt := h.freshSpawned q hq hs' hstage t'.id hid
      omega
    · rw [hmount, haborted]
      exact h.spawned q hq hs' hstage t₀ ht₀ (hid' ▸ hid)
  · rcases htask t' ht' with ⟨-, -, -, hwatcher⟩ | ⟨t₀, ht₀, hid', hmount, -, hkinds⟩
    · rw [hwatcher] at hkind'
      cases hkind'
    · have hlt := h.fresh t₀ ht₀
      rw [hid'] at hid ⊢
      rw [hmount] at hhs'
      rcases hkinds with ⟨hne, hsame⟩ | ⟨heq, hloop⟩
      · rw [hsame] at hkind'
        rcases hhs' with hhs' | hpost
        · by_cases hq : t₀.mount.path = path
          · -- another sync loop of the path would be registered as this one
            rw [hq, hself] at hhs'
            cases hhs'
            rcases Handles.mem_ids.mp hid with hid | hid | hid
            · exact absurd (hid.trans hsync) hne
            · have hin : t₀.id ∈ hs.ids := Handles.mem_ids.mpr (.inr (.inl hid))
              have hother := h.watching t₀ ht₀ watcher' hkind' hs (.inl (hq ▸ hhs)) hin
              exact absurd (hother.1.symm.trans hsync) hne
            · exact absurd hid (Nat.ne_of_lt hlt)
          · exact h.watching t₀ ht₀ watcher' hkind' hs' (.inl ((hother _ hq).symm.trans hhs')) hid
        · exact h.watching t₀ ht₀ watcher' hkind' hs' (.inr hpost) hid
      · have hsame : t₀ = t := by
          have hfound := lookup_of_mem h.ids ht₀
          have hfound' := lookup_of_mem h.ids ht
          rw [heq, hfound'] at hfound
          exact (Option.some.inj hfound).symm
        rw [hloop] at hkind'
        cases hkind'
        rw [hsame] at hid hhs' ⊢
        rcases hhs' with hhs' | ⟨q, hq, hstage⟩
        · rw [hself] at hhs'
          cases hhs'
          exact ⟨hsync, rfl⟩
        · have hspawned := (h.spawned q hq hs' hstage t ht hid).1
          have hclear := h.cleared q hq (.inr ⟨hs', hstage⟩)
          rw [← hspawned, ← hpath, hhs] at hclear
          cases hclear
  · show ((update Task.id t.id _ r.tasks ++ [_]).map Task.id).Nodup
    have hkeys : (update Task.id t.id (fun t => { t with kind := .syncLoop r.next }) r.tasks).map Task.id =
        r.tasks.map Task.id := map_key_update fun _ hr => hr
    refine nodup_append ?_ fun t' ht' => ?_
    · rw [hkeys]
      exact h.ids
    · obtain ⟨t₀, ht₀, rfl⟩ := mem_update.mp ht'
      have hlt := h.fresh t₀ ht₀
      split <;> exact Nat.ne_of_lt hlt
  · rcases htask t' ht' with ⟨hid, -⟩ | ⟨t₀, ht₀, hid, -⟩
    · rw [hid]
      exact Nat.lt_succ_self _
    · rw [hid]
      exact Nat.lt_add_right 1 (h.fresh t₀ ht₀)
  · rcases hids q id hid with ⟨-, rfl⟩ | hin
    · exact Nat.lt_succ_self _
    · exact Nat.lt_add_right 1 (h.freshHandles q id hin)

/-- The handles are those of tasks that were spawned. -/
theorem RegistryInv.held_lt (h : RegistryInv r) {path : String} {id : ℕ} (hheld : r.Held path id) : id < r.next := by
  rcases hheld with hid | ⟨p, hp, -, hid⟩
  · exact h.freshHandles path id hid
  · cases hstage : p.stage with
    | spawned hs =>
      rw [hstage] at hid
      exact h.freshSpawned p hp hs hstage id hid
    | resync | listed | cancelled =>
      rw [hstage] at hid
      cases hid

theorem RegistryInv.rows (h : RegistryInv r) (rows : List MountRow) : RegistryInv { r with rows := rows } := { h with }

/-- A `post_mount` at one of its stages goes on. -/
theorem stage_cases {i : ℕ} {stage : Stage} {f : PostMount → Registry} {r' : Registry}
    (h : (r.posts[i]?.filter fun p => p.stage = stage).map f = some r') :
    ∃ p xs ys, r.posts = xs ++ p :: ys ∧ p.stage = stage ∧ r.posts.eraseIdx i = xs ++ ys ∧
      (∀ q, r.posts.set i q = xs ++ q :: ys) ∧ r' = f p := by
  obtain ⟨p, hp, rfl⟩ := Option.map_eq_some_iff.mp h
  obtain ⟨hp, hstage⟩ := Option.filter_eq_some_iff.mp hp
  obtain ⟨xs, ys, hposts, herase, hset⟩ := split_at hp
  exact ⟨p, xs, ys, hposts, by simpa using hstage, herase, hset, rfl⟩

/-- The handles are inserted. -/
theorem register_cases {i : ℕ} {r' : Registry} (h : r.step (.postRegister i) = some r') :
    ∃ p xs ys hs, r.posts = xs ++ p :: ys ∧ p.stage = .spawned hs ∧ r' = { r with
      handles := Function.update r.handles p.mount.path (some hs)
      posts := xs ++ ys } := by
  obtain ⟨p, hp, hreg⟩ := Option.bind_eq_some_iff.mp h
  obtain ⟨xs, ys, hposts, herase, -⟩ := split_at hp
  cases hstage : p.stage with
  | spawned hs =>
    rw [hstage] at hreg
    cases hreg
    exact ⟨p, xs, ys, hs, hposts, hstage, by rw [herase]⟩
  | resync => simp [hstage] at hreg
  | listed => simp [hstage] at hreg
  | cancelled => simp [hstage] at hreg

/-- A watcher is respawned by a sync loop whose watcher has ended, where `state.tasks` has an entry. -/
theorem respawn_cases {id : ℕ} {r' : Registry} (h : r.step (.respawn id) = some r') :
    ∃ t watcher hs, lookup Task.id id r.tasks = some t ∧ t.kind = .syncLoop watcher ∧
      r.handles t.mount.path = some hs ∧ watcher ∉ r.tasks.map Task.id ∧ r' = { r with
        next := r.next + 1
        handles := Function.update r.handles t.mount.path (some { hs with fsWatch := r.next })
        tasks := update Task.id id (fun t => { t with kind := .syncLoop r.next }) r.tasks ++
          [{ id := r.next, mount := t.mount, kind := .fsWatch }] } := by
  obtain ⟨t, ht, hresp⟩ := Option.bind_eq_some_iff.mp h
  cases hkind : t.kind with
  | syncLoop watcher =>
    cases hhs : r.handles t.mount.path with
    | none => simp [hkind, hhs] at hresp
    | some hs =>
      by_cases hended : watcher ∈ r.tasks.map Task.id
      · simp [hkind, hhs, hended] at hresp
      · simp only [hkind, hhs, hended, if_false] at hresp
        exact ⟨t, watcher, hs, ht, hkind, hhs, hended, (Option.some.inj hresp).symm⟩
  | webSocket => simp [hkind] at hresp
  | fsWatch => simp [hkind] at hresp

/-- **Every event that is allowed keeps the invariant.** -/
theorem RegistryInv.step (h : RegistryInv r) {ev : RegistryEvent} {r' : Registry} (hok : r.Ok ev)
    (hstep : r.step ev = some r') : RegistryInv r' := by
  cases ev with
  | post path folderId =>
    rw [Registry.step] at hstep
    split at hstep
    · cases hstep
    · cases hstep
      refine (h.post hok.1 fun m hm hconf => ?_).rows _
      rcases hconf with hpath | hfolder
      · exact hpath.symm
      · exact hok.2 m hm hfolder.symm
  | postListed i =>
    obtain ⟨p, xs, ys, hposts, hstage, -, hset, rfl⟩ := stage_cases hstep
    rw [hset]
    exact h.listed hposts hstage
  | postFailed i =>
    obtain ⟨p, xs, ys, hposts, hstage, herase, -, rfl⟩ := stage_cases hstep
    rw [herase]
    exact (h.failed hposts hstage).rows _
  | postCancel i =>
    obtain ⟨p, xs, ys, hposts, hstage, -, hset, rfl⟩ := stage_cases hstep
    rw [hset]
    have hnone : ∀ q ∈ r.posts, ∀ hs, q.stage = .spawned hs → q.mount.path ≠ p.mount.path := by
      intro q hq hs hqstage hpath
      rw [hposts] at hq
      rcases mem_around.mp hq with rfl | hq
      · rw [hstage] at hqstage
        cases hqstage
      · exact (h.others hposts).1 q hq (.inl hpath.symm)
    obtain ⟨hcancel, hclear⟩ := h.cancel hnone
    exact hcancel.cancelled hposts hstage hclear
  | postSpawn i =>
    obtain ⟨p, xs, ys, hposts, hstage, -, hset, rfl⟩ := stage_cases hstep
    rw [hset]
    exact h.spawn hposts hstage
  | postRegister i =>
    obtain ⟨p, xs, ys, hs, hposts, hstage, rfl⟩ := register_cases hstep
    exact h.register hposts hstage
  | delete folderId =>
    obtain ⟨m, hm, rfl⟩ := Option.map_eq_some_iff.mp hstep
    have hbusy : ¬ r.Busy m := hok m hm
    have hnone : ∀ q ∈ r.posts, ∀ hs, q.stage = .spawned hs → q.mount.path ≠ m.path := by
      intro q hq hs _ hpath
      exact hbusy ⟨q.mount, List.mem_append_left _ (List.mem_map_of_mem hq), .inl hpath⟩
    obtain ⟨hcancel, hclear⟩ := h.cancel hnone
    exact hcancel.delete (List.mem_of_find?_eq_some hm) hbusy hclear
  | deleteAnswer i =>
    obtain ⟨m, hm, rfl⟩ := Option.map_eq_some_iff.mp hstep
    obtain ⟨ds, es, hdeletes, herase, -⟩ := split_at hm
    rw [herase]
    exact (h.deleteAnswer hdeletes).rows _
  | ended id =>
    cases hstep
    exact h.ended id
  | respawn id =>
    obtain ⟨t, watcher, hs, ht, hkind, hhs, hended, rfl⟩ := respawn_cases hstep
    have hid := lookup_key ht
    rw [← hid]
    exact h.respawn (mem_of_lookup ht) (hok t ht) hkind hhs hended

/-! ### The boot catch-ups -/

/-- No handle of a boot catch-up is kept, at any path. -/
structure CatchupInv (r : Registry) : Prop where
  fresh : ∀ c ∈ r.catchups, c.id < r.next
  unheld : ∀ c ∈ r.catchups, ∀ path, ¬ r.Held path c.id

/-- What is held later, new tasks put aside, was held before. -/
theorem CatchupInv.less (h : CatchupInv r) {r' : Registry} (hcatchups : ∀ c ∈ r'.catchups, c ∈ r.catchups)
    (hnext : r.next ≤ r'.next)
    (hheld : ∀ path id, id < r.next → r'.Held path id → ∃ path, r.Held path id) : CatchupInv r' where
  fresh c hc := Nat.lt_of_lt_of_le (h.fresh c (hcatchups c hc)) hnext
  unheld c hc path hnow := by
    obtain ⟨path', hbefore⟩ := hheld path c.id (h.fresh c (hcatchups c hc)) hnow
    exact h.unheld c (hcatchups c hc) path' hbefore

/-- A handle of another stage was held by the same request. -/
theorem held_around (hposts : r.posts = xs ++ p :: ys) {r' : Registry} {q : PostMount} {path : String} {id : ℕ}
    (h : r'.Held path id) (hhandles : r'.handles = r.handles) (hnow : r'.posts = xs ++ q :: ys)
    (hstage : q.stage.ids = []) : r.Held path id := by
  rcases h with hid | ⟨q', hq, hpath, hid⟩
  · left
    rw [Registry.handleIds, hhandles] at hid
    exact hid
  · rw [hnow] at hq
    rcases mem_around.mp hq with rfl | hq
    · rw [hstage] at hid
      cases hid
    · exact .inr ⟨q', mem_of_rest hposts hq, hpath, hid⟩

/-- Cancelling takes handles away. -/
theorem held_of_cancel {path path' : String} {id : ℕ} (h : (r.cancelTasksForMount path).Held path' id) :
    r.Held path' id := by
  refine h.imp (fun hid => ?_) fun hpost => hpost
  obtain ⟨hs, hhs, hin⟩ := mem_handleIds.mp hid
  have hupdated : Function.update r.handles path none path' = some hs := hhs
  by_cases hpath : path' = path
  · rw [hpath, Function.update_self] at hupdated
    cases hupdated
  · rw [Function.update_of_ne hpath] at hupdated
    exact mem_handleIds.mpr ⟨hs, hupdated, hin⟩

/-- **No event hands out the handle of a boot catch-up.** -/
theorem CatchupInv.step (h : CatchupInv r) (hr : RegistryInv r) {ev : RegistryEvent} {r' : Registry}
    (hstep : r.step ev = some r') : CatchupInv r' := by
  cases ev with
  | post path folderId =>
    rw [Registry.step] at hstep
    split at hstep
    · cases hstep
    · cases hstep
      refine h.less (fun c hc => hc) (Nat.le_succ _) fun path' _ _ hheld => ⟨path', hheld.imp id fun hpost => ?_⟩
      obtain ⟨p, hp, hpath, hid⟩ := hpost
      rcases List.mem_append.mp hp with hp | hp
      · exact ⟨p, hp, hpath, hid⟩
      · rw [List.mem_singleton.mp hp] at hid
        cases hid
  | postListed i =>
    obtain ⟨p, xs, ys, hposts, -, -, hset, rfl⟩ := stage_cases hstep
    exact h.less (fun c hc => hc) (Nat.le_refl _) fun path id _ hheld =>
      ⟨path, held_around hposts hheld rfl (hset _) rfl⟩
  | postFailed i =>
    obtain ⟨p, xs, ys, hposts, -, herase, -, rfl⟩ := stage_cases hstep
    refine h.less (fun c hc => hc) (Nat.le_refl _) fun path _ _ hheld => ⟨path, hheld.imp id fun hpost => ?_⟩
    obtain ⟨q, hq, hrest⟩ := hpost
    exact ⟨q, List.mem_of_mem_eraseIdx hq, hrest⟩
  | postCancel i =>
    obtain ⟨p, xs, ys, hposts, -, -, hset, rfl⟩ := stage_cases hstep
    refine h.less (fun c hc => hc) (Nat.le_refl _) fun path id _ hheld => ⟨path, ?_⟩
    exact held_of_cancel (held_around (r := r.cancelTasksForMount p.mount.path) hposts hheld rfl (hset _) rfl)
  | postSpawn i =>
    obtain ⟨p, xs, ys, hposts, -, -, hset, rfl⟩ := stage_cases hstep
    -- the catch-up has a name that no handle has, and the new handles are of other tasks
    have hheld : ∀ path id, Registry.Held { r with
        next := r.next + 4
        tasks := r.tasks ++ r.spawnedTasks p.mount
        catchups := r.catchups ++ [r.spawnBootCatchup p.mount]
        posts := r.posts.set i { p with stage := .spawned r.spawnedHandles } } path id →
        r.Held path id ∨ id ∈ r.spawnedHandles.ids := by
      intro path id hid
      rcases hid with hid | ⟨q, hq, hpath, hid⟩
      · exact .inl (.inl hid)
      · have hq' : q ∈ r.posts.set i { p with stage := .spawned r.spawnedHandles } := hq
        rw [hset] at hq'
        rcases mem_around.mp hq' with rfl | hq'
        · exact .inr hid
        · exact .inl (.inr ⟨q, mem_of_rest hposts hq', hpath, hid⟩)
    refine ⟨fun c hc => ?_, fun c hc path hid => ?_⟩
    · rcases List.mem_append.mp hc with hc | hc
      · exact Nat.lt_add_right 4 (h.fresh c hc)
      · rw [List.mem_singleton.mp hc]
        exact Nat.lt_succ_self _
    · have hnames := hheld path c.id hid
      simp only [Handles.ids, Registry.spawnedHandles, List.mem_cons, List.not_mem_nil, or_false] at hnames
      rcases List.mem_append.mp hc with hc | hc
      · have hlt := h.fresh c hc
        exact hnames.elim (h.unheld c hc path) fun hnew => by omega
      · rw [List.mem_singleton.mp hc] at hnames
        rcases hnames with hold | hnew
        · have hlt := hr.held_lt hold
          exact absurd hlt (by simp [Registry.spawnBootCatchup])
        · simp [Registry.spawnBootCatchup] at hnew
  | postRegister i =>
    obtain ⟨p, xs, ys, hs, hposts, hstage, rfl⟩ := register_cases hstep
    refine h.less (fun c hc => hc) (Nat.le_refl _) fun path id _ hheld => ⟨path, ?_⟩
    rcases hheld with hid | ⟨q, hq, hrest⟩
    · obtain ⟨hs', hhs', hin⟩ := mem_handleIds.mp hid
      have hupdated : Function.update r.handles p.mount.path (some hs) path = some hs' := hhs'
      by_cases hpath : path = p.mount.path
      · rw [hpath, Function.update_self] at hupdated
        cases hupdated
        exact .inr ⟨p, by simp [hposts], hpath.symm, by rw [hstage]; exact hin⟩
      · rw [Function.update_of_ne hpath] at hupdated
        exact .inl (mem_handleIds.mpr ⟨hs', hupdated, hin⟩)
    · exact .inr ⟨q, mem_of_rest hposts hq, hrest⟩
  | delete folderId =>
    obtain ⟨m, -, rfl⟩ := Option.map_eq_some_iff.mp hstep
    exact h.less (fun c hc => hc) (Nat.le_refl _) fun path id _ hheld => ⟨path, held_of_cancel hheld⟩
  | deleteAnswer i =>
    obtain ⟨m, -, rfl⟩ := Option.map_eq_some_iff.mp hstep
    exact h.less (fun c hc => hc) (Nat.le_refl _) fun path id _ hheld => ⟨path, hheld⟩
  | ended id =>
    cases hstep
    exact h.less (fun c hc => (List.mem_filter.mp hc).1) (Nat.le_refl _) fun path id _ hheld => ⟨path, hheld⟩
  | respawn id =>
    obtain ⟨t, watcher, hs, -, -, hhs, -, rfl⟩ := respawn_cases hstep
    refine h.less (fun c hc => hc) (Nat.le_succ _) fun path id hlt hheld => ⟨path, hheld.imp (fun hid => ?_) fun hpost => hpost⟩
    obtain ⟨hs', hhs', hin⟩ := mem_handleIds.mp hid
    have hupdated : Function.update r.handles t.mount.path (some { hs with fsWatch := r.next }) path = some hs' := hhs'
    by_cases hpath : path = t.mount.path
    · rw [hpath, Function.update_self] at hupdated
      cases hupdated
      refine mem_handleIds.mpr ⟨hs, hpath ▸ hhs, ?_⟩
      simp only [Handles.ids, List.mem_cons, List.not_mem_nil, or_false] at hin ⊢
      omega
    · rw [Function.update_of_ne hpath] at hupdated
      exact mem_handleIds.mpr ⟨hs', hupdated, hin⟩

/-! ### Settled mounts -/

theorem mem_unsettled : m ∈ r.unsettled ↔
    (∃ p ∈ r.posts, (p.stage = .resync ∨ p.stage = .listed) ∧ p.mount = m) ∨ m ∈ r.deletes := by
  simp [Registry.unsettled, and_assoc]

/-- A `post_mount` that goes on unsettles no mount. -/
theorem unsettled_around {stage : Stage} (hposts : r.posts = xs ++ p :: ys)
    (hstage : stage = .resync ∨ stage = .listed → p.stage = .resync ∨ p.stage = .listed)
    (h : ∃ q ∈ xs ++ { p with stage } :: ys, (q.stage = .resync ∨ q.stage = .listed) ∧ q.mount = m) :
    ∃ p ∈ r.posts, (p.stage = .resync ∨ p.stage = .listed) ∧ p.mount = m := by
  obtain ⟨q, hq, hqstage, hqm⟩ := h
  rcases mem_around.mp hq with rfl | hq
  · exact ⟨p, by simp [hposts], hstage hqstage, hqm⟩
  · exact ⟨q, mem_of_rest hposts hq, hqstage, hqm⟩

/-- Only a request that starts unsettles its mount. -/
theorem Registry.step_unsettled {ev : RegistryEvent} {r' : Registry} (hstep : r.step ev = some r')
    (hm : m ∈ r'.unsettled) : m ∈ r.unsettled ∨ m ∈ r.starts ev := by
  rw [mem_unsettled] at hm ⊢
  cases ev with
  | post path folderId =>
    rw [Registry.step] at hstep
    split at hstep
    · cases hstep
    · cases hstep
      rcases hm with ⟨p, hp, hstage, rfl⟩ | hm
      · rcases List.mem_append.mp hp with hp | hp
        · exact .inl (.inl ⟨p, hp, hstage, rfl⟩)
        · rw [List.mem_singleton.mp hp]
          exact .inr rfl
      · exact .inl (.inr hm)
  | postListed i =>
    obtain ⟨p, xs, ys, hposts, hstage, -, hset, rfl⟩ := stage_cases hstep
    rw [hset] at hm
    exact .inl (hm.imp (unsettled_around hposts fun _ => .inl hstage) id)
  | postFailed i =>
    obtain ⟨p, xs, ys, hposts, -, herase, -, rfl⟩ := stage_cases hstep
    rw [herase] at hm
    exact .inl (hm.imp (fun ⟨q, hq, hrest⟩ => ⟨q, mem_of_rest hposts hq, hrest⟩) id)
  | postCancel i =>
    obtain ⟨p, xs, ys, hposts, -, -, hset, rfl⟩ := stage_cases hstep
    rw [hset] at hm
    exact .inl (hm.imp (unsettled_around hposts (by simp)) id)
  | postSpawn i =>
    obtain ⟨p, xs, ys, hposts, -, -, hset, rfl⟩ := stage_cases hstep
    rw [hset] at hm
    exact .inl (hm.imp (unsettled_around hposts (by simp)) id)
  | postRegister i =>
    obtain ⟨p, xs, ys, hs, hposts, -, rfl⟩ := register_cases hstep
    exact .inl (hm.imp (fun ⟨q, hq, hrest⟩ => ⟨q, mem_of_rest hposts hq, hrest⟩) id)
  | delete folderId =>
    obtain ⟨m', hm', rfl⟩ := Option.map_eq_some_iff.mp hstep
    rcases hm with hm | hm
    · exact .inl (.inl hm)
    · rcases List.mem_append.mp hm with hm | hm
      · exact .inl (.inr hm)
      · rw [List.mem_singleton.mp hm]
        exact .inr hm'
  | deleteAnswer i =>
    obtain ⟨m', hm', rfl⟩ := Option.map_eq_some_iff.mp hstep
    exact .inl (hm.imp id fun hm => List.mem_of_mem_eraseIdx hm)
  | ended id =>
    cases hstep
    exact .inl hm
  | respawn id =>
    obtain ⟨t, watcher, hs, -, -, -, -, rfl⟩ := respawn_cases hstep
    exact .inl hm

/-- A mount that no request is about stays. -/
theorem Registry.step_settled {ev : RegistryEvent} {r' : Registry} (hstep : r.step ev = some r')
    (hm : m ∈ r.mounts) (hsettled : ¬ r.Unsettled m) : m ∈ r'.mounts := by
  cases ev with
  | post path folderId =>
    rw [Registry.step] at hstep
    split at hstep
    · cases hstep
    · cases hstep
      exact hm
  | postListed i =>
    obtain ⟨p, xs, ys, hposts, hstage, -, -, rfl⟩ := stage_cases hstep
    refine mem_place_of_ne hm fun hpath => hsettled ⟨p.mount, mem_unsettled.mpr (.inl ?_), .inl hpath.symm⟩
    exact ⟨p, by simp [hposts], .inl hstage, rfl⟩
  | postFailed i | postCancel i | postSpawn i =>
    obtain ⟨p, xs, ys, -, -, -, -, rfl⟩ := stage_cases hstep
    exact hm
  | postRegister i =>
    obtain ⟨p, xs, ys, hs, -, -, rfl⟩ := register_cases hstep
    exact hm
  | delete folderId =>
    obtain ⟨m', -, rfl⟩ := Option.map_eq_some_iff.mp hstep
    exact hm
  | deleteAnswer i =>
    obtain ⟨m', hm', rfl⟩ := Option.map_eq_some_iff.mp hstep
    refine List.mem_filter.mpr ⟨hm, ?_⟩
    have hne : m.path ≠ m'.path := fun hpath =>
      hsettled ⟨m', mem_unsettled.mpr (.inr (List.mem_of_getElem? hm')), .inl hpath.symm⟩
    simpa using hne
  | ended id =>
    cases hstep
    exact hm
  | respawn id =>
    obtain ⟨t, watcher, hs, -, -, -, -, rfl⟩ := respawn_cases hstep
    exact hm

end Registry

end Valv.Client
