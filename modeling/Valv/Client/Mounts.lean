import Mathlib.Data.List.Pairwise
import Mathlib.Tactic.Common
import Valv.Client.Registry
import Valv.Lib.Run

/-!
# One syncer for each mount

The sections of work that hold the `sync_lock` of a mount, over the registry.

* `DaemonState.step`: sections begin, get the lock and finish, while the registry goes on.
* `OneSyncer`: what is asked for.
* `MountOk`: the condition on an event.
* `DaemonInv.step`: what every event keeps.
* `one_syncer`, `two_syncers`.
-/

namespace Valv.Client

open Valv.Table

/-! ### Work -/

/-- Who works: a task itself (`pull_mount_once`, a batch of the watcher), or a blocking thread (`full_sync_mount`)
for a sync loop or for a `post_sync`. -/
inductive Worker where
  | task (id : ℕ)
  | blocking (id : ℕ)
  | call (id : ℕ)
  deriving DecidableEq, Repr

/-- A section that has the `sync_lock` of its mount, or waits for it: a reconcile, a handler of the watcher, or the
part of a request that works on the mount's tree. -/
structure Work where
  worker : Worker
  mount : MountState
  locked : Bool := false
  deriving DecidableEq, Repr

/-- A `post_sync`: the mounts it has still to go through. It has copied them from `state.mounts` when it began, so a
mount may be gone when its turn comes. -/
structure SyncCall where
  id : ℕ
  targets : List MountState
  deriving DecidableEq, Repr

structure DaemonState where
  registry : Registry := {}
  works : List Work := []
  calls : List SyncCall := []
  nextCall : ℕ := 0

inductive DaemonEvent where
  | registry (ev : RegistryEvent)
  /-- A sync loop begins `pull_mount_once`, a watcher a batch. -/
  | section (id : ℕ)
  /-- A sync loop begins `run_full_sync_mount`. -/
  | reconcile (id : ℕ)
  | acquire (i : ℕ)
  | finish (i : ℕ)
  | sync (folderId : Option String)
  | syncNext (i : ℕ)

namespace DaemonState

variable (st : DaemonState)

/-- A task that waits for a section of its own begins no other. -/
def idle (id : ℕ) : Bool := st.works.all fun w => w.worker ≠ .task id && w.worker ≠ .blocking id

/-- A task begins a section. -/
def begin (worker : Worker) (t : Task) : DaemonState :=
  { st with works := st.works ++ [{ worker, mount := t.mount }] }

/-- The mounts that a `post_sync` goes through. -/
def targets (folderId : Option String) : List MountState :=
  st.registry.mounts.filter fun m => folderId.all fun f => f = m.folderId

def step : DaemonEvent → Option DaemonState
  | .registry ev => (st.registry.step ev).map fun registry => { st with
      registry
      -- a task that ends takes its section with it, a blocking thread goes on
      works := match ev with
        | .ended id => st.works.filter fun w => w.worker ≠ .task id
        | _ => st.works }
  | .section id => ((lookup Task.id id st.registry.tasks).filter fun t => t.kind ≠ .webSocket && st.idle id).map
      (st.begin (.task id))
  | .reconcile id => ((lookup Task.id id st.registry.tasks).filter fun t =>
      t.kind ≠ .webSocket && t.kind ≠ .fsWatch && st.idle id).map (st.begin (.blocking id))
  | .acquire i => st.works[i]?.bind fun w =>
      if st.works.any fun w' => w'.locked && w'.mount.lock = w.mount.lock then none
      else some { st with works := st.works.set i { w with locked := true } }
  | .finish i => (st.works[i]?.filter Work.locked).map fun _ => { st with works := st.works.eraseIdx i }
  | .sync folderId => some { st with
      calls := st.calls ++ [{ id := st.nextCall, targets := st.targets folderId }]
      nextCall := st.nextCall + 1 }
  | .syncNext i => st.calls[i]?.bind fun call =>
      match call.targets with
      | [] => none
      | m :: rest =>
        if st.works.any fun w => w.worker = .call call.id then none
        else some { st with
          works := st.works ++ [{ worker := .call call.id, mount := m }]
          calls := st.calls.set i { call with targets := rest } }

/-- The mounts whose folder is worked on: with the `sync_lock`, or by a `post_mount` itself. -/
def working : List MountState :=
  (st.works.filter Work.locked).map Work.mount ++
    (st.registry.posts.filter fun p => p.stage = .resync).map PostMount.mount

/-- The mounts of all sections that have begun, and of those a `post_sync` will begin. -/
def inFlight : List MountState := st.works.map Work.mount ++ st.calls.flatMap SyncCall.targets

/-- A section for the path or the folder of the mount has begun, or will begin because a task or a request holds the
mount. -/
def InFlight (m : MountState) : Prop := ∃ m' ∈ st.inFlight, Conflicts m' m

instance (m : MountState) : Decidable (st.InFlight m) := inferInstanceAs (Decidable (∃ _ ∈ _, _))

end DaemonState

/-! ### What is asked for -/
/-- No folder is worked on twice at a time. -/
def Exclusive (st : DaemonState) : Prop := st.working.Pairwise fun m m' => m.folderId ≠ m'.folderId

instance (st : DaemonState) : Decidable (Exclusive st) := inferInstanceAs (Decidable (List.Pairwise _ _))

/-- Nothing works any more for a mount for which the delete was answered. -/
def Unmounted (st : DaemonState) : Prop := ∀ m ∈ st.registry.deleted, ∀ w ∈ st.works, w.locked = true → w.mount ≠ m

/-- **One syncer for each mount.**  No folder is worked on twice at a time; the handles of a path, without those of
ended tasks, are those of its live tasks; and nothing works for a mount that was deleted. -/
structure OneSyncer (st : DaemonState) : Prop where
  exclusive : Exclusive st
  registered : ∀ path, st.registry.Registered path
  quiet : Unmounted st

/-! ### The condition -/

section Conditions

variable (st : DaemonState)

/-- The task may begin a section: it was not aborted, and its mount is not being replaced or deleted meanwhile. -/
def TaskOk (id : ℕ) : Prop :=
  ∀ t ∈ lookup Task.id id st.registry.tasks, t.aborted = false ∧ ¬ st.registry.Unsettled t.mount

instance (id : ℕ) : Decidable (TaskOk st id) := inferInstanceAs (Decidable (∀ _ ∈ _, _))

/-- A request starts when no section for its mount has begun or will, and no section begins by an aborted task or for
a mount that is being replaced or deleted. -/
def MountOk : DaemonEvent → Prop
  | .registry ev => st.registry.Ok ev ∧ ∀ m ∈ st.registry.starts ev, ¬ st.InFlight m
  | .section id | .reconcile id => TaskOk st id
  | .sync folderId => ∀ m ∈ st.targets folderId, ¬ st.registry.Unsettled m
  | _ => True

instance : (ev : DaemonEvent) → Decidable (MountOk st ev)
  | .registry _ => inferInstanceAs (Decidable (_ ∧ ∀ _ ∈ _, _))
  | .section id | .reconcile id => inferInstanceAs (Decidable (TaskOk st id))
  | .sync _ => inferInstanceAs (Decidable (∀ _ ∈ _, _))
  | .acquire _ | .finish _ | .syncNext _ => isTrue True.intro

end Conditions

/-! ### Sections -/

/-- The invariant: the mounts of all sections are listed and not being replaced or deleted, and no two sections have
one lock. -/
structure DaemonInv (st : DaemonState) : Prop where
  registry : RegistryInv st.registry
  catchups : CatchupInv st.registry
  locks : st.works.Pairwise fun w w' => w.locked = true → w'.locked = true → w.mount.lock ≠ w'.mount.lock
  listed : ∀ m ∈ st.inFlight, m ∈ st.registry.mounts
  settled : ∀ m ∈ st.inFlight, ¬ st.registry.Unsettled m

section Daemon

variable {st st' : DaemonState} {m m' : MountState}

/-- Of the sections that are left, each is one of before. -/
theorem DaemonInv.registryStep (h : DaemonInv st) {ev : RegistryEvent} {r : Registry}
    (hok : MountOk st (.registry ev)) (hstep : st.registry.step ev = some r) {works : List Work}
    (hworks : works.Sublist st.works) : DaemonInv { st with registry := r, works := works } := by
  have hsub : ∀ m ∈ DaemonState.inFlight { st with registry := r, works := works }, m ∈ st.inFlight := by
    intro m hm
    rcases List.mem_append.mp hm with hm | hm
    · exact List.mem_append_left _ ((hworks.map _).subset hm)
    · exact List.mem_append_right _ hm
  refine ⟨h.registry.step hok.1 hstep, h.catchups.step h.registry hstep, h.locks.sublist hworks, fun m hm => ?_, fun m hm => ?_⟩
  · exact Registry.step_settled hstep (h.listed m (hsub m hm)) (h.settled m (hsub m hm))
  · rintro ⟨m', hm', hconf⟩
    rcases Registry.step_unsettled hstep hm' with hold | hnew
    · exact h.settled m (hsub m hm) ⟨m', hold, hconf⟩
    · exact hok.2 m' hnew ⟨m, hsub m hm, hconf.symm⟩

/-- The mount of a task that works is listed and settled. -/
theorem DaemonInv.taskOk (h : DaemonInv st) {id : ℕ} (hok : TaskOk st id) {t : Task}
    (ht : lookup Task.id id st.registry.tasks = some t) :
    t.mount ∈ st.registry.mounts ∧ ¬ st.registry.Unsettled t.mount := by
  obtain ⟨hlive, hsettled⟩ := hok t ht
  refine ⟨(h.registry.owned t (mem_of_lookup ht) hlive).resolve_right ?_, hsettled⟩
  rintro ⟨p, hp, hstage, hpath⟩
  exact hsettled ⟨p.mount, mem_unsettled.mpr (.inl ⟨p, hp, .inr hstage, rfl⟩), .inl hpath⟩

/-- A section begins, without the lock. -/
theorem DaemonInv.begin (h : DaemonInv st) (worker : Worker) (hm : m ∈ st.registry.mounts)
    (hsettled : ¬ st.registry.Unsettled m) :
    DaemonInv { st with works := st.works ++ [{ worker, mount := m }] } := by
  have hsub : ∀ m' ∈ DaemonState.inFlight { st with works := st.works ++ [{ worker, mount := m }] },
      m' = m ∨ m' ∈ st.inFlight := by
    intro m' hm'
    simp only [DaemonState.inFlight, List.map_append, List.mem_append, List.map_cons, List.map_nil,
      List.mem_singleton] at hm' ⊢
    tauto
  refine ⟨h.registry, h.catchups, ?_, fun m' hm' => ?_, fun m' hm' => ?_⟩
  · refine List.pairwise_append.mpr ⟨h.locks, List.pairwise_singleton _ _, fun w _ w' hw' _ hlocked => ?_⟩
    rw [List.mem_singleton.mp hw'] at hlocked
    cases hlocked
  · rcases hsub m' hm' with rfl | hm'
    · exact hm
    · exact h.listed m' hm'
  · rcases hsub m' hm' with rfl | hm'
    · exact hsettled
    · exact h.settled m' hm'

/-- A section gets the lock that no other has. -/
theorem DaemonInv.acquire (h : DaemonInv st) {w : Work} {xs ys : List Work} (hw : st.works = xs ++ w :: ys)
    (hfree : ∀ w' ∈ st.works, w'.locked = true → w'.mount.lock ≠ w.mount.lock) :
    DaemonInv { st with works := xs ++ { w with locked := true } :: ys } := by
  have hmounts : (xs ++ { w with locked := true } :: ys).map Work.mount = st.works.map Work.mount := by
    simp [hw]
  have hflight : DaemonState.inFlight { st with works := xs ++ { w with locked := true } :: ys } = st.inFlight := by
    show _ ++ _ = _
    rw [hmounts]
    rfl
  have hrest : ∀ w' ∈ xs ++ ys, w'.locked = true → w'.mount.lock ≠ w.mount.lock := fun w' hw' =>
    hfree w' (by rw [hw]; exact mem_around.mpr (.inr hw'))
  refine ⟨h.registry, h.catchups, ?_, fun m hm => h.listed m (hflight ▸ hm), fun m hm => h.settled m (hflight ▸ hm)⟩
  have hlocks := h.locks
  rw [hw] at hlocks
  obtain ⟨hxs, hys, hcross⟩ := List.pairwise_append.mp hlocks
  refine List.pairwise_append.mpr ⟨hxs, List.pairwise_cons.mpr ⟨fun w' hw' _ hlocked => ?_, hys.of_cons⟩, ?_⟩
  · exact (hrest w' (List.mem_append_right _ hw') hlocked).symm
  · intro w' hw' w'' hw'' hlocked hlocked'
    rcases List.mem_cons.mp hw'' with rfl | hin
    · exact hrest w' (List.mem_append_left _ hw') hlocked
    · exact hcross w' hw' w'' (List.mem_cons_of_mem w hin) hlocked hlocked'

/-- What is in flight is a part of what was. -/
theorem DaemonInv.less (h : DaemonInv st) {works : List Work} {calls : List SyncCall}
    (hworks : works.Sublist st.works) (hflight : ∀ m ∈ works.map Work.mount ++ calls.flatMap SyncCall.targets, m ∈ st.inFlight) :
    DaemonInv { st with works, calls } :=
  ⟨h.registry, h.catchups, h.locks.sublist hworks, fun m hm => h.listed m (hflight m hm),
    fun m hm => h.settled m (hflight m hm)⟩

/-- **Every event that the condition allows keeps the invariant.** -/
theorem DaemonInv.step (h : DaemonInv st) {ev : DaemonEvent} (hok : MountOk st ev) (hstep : st.step ev = some st') :
    DaemonInv st' := by
  cases ev with
  | registry ev =>
    obtain ⟨r, hr, rfl⟩ := Option.map_eq_some_iff.mp hstep
    refine h.registryStep hok hr ?_
    cases ev with
    | ended id => exact List.filter_sublist
    | _ => exact List.Sublist.refl _
  | «section» id =>
    obtain ⟨t, ht, rfl⟩ := Option.map_eq_some_iff.mp hstep
    obtain ⟨ht, -⟩ := Option.filter_eq_some_iff.mp ht
    obtain ⟨hlisted, hsettled⟩ := h.taskOk hok ht
    exact h.begin _ hlisted hsettled
  | reconcile id =>
    obtain ⟨t, ht, rfl⟩ := Option.map_eq_some_iff.mp hstep
    obtain ⟨ht, -⟩ := Option.filter_eq_some_iff.mp ht
    obtain ⟨hlisted, hsettled⟩ := h.taskOk hok ht
    exact h.begin _ hlisted hsettled
  | acquire i =>
    obtain ⟨w, hw, hacquire⟩ := Option.bind_eq_some_iff.mp hstep
    obtain ⟨xs, ys, hworks, -, hset⟩ := split_at hw
    split at hacquire
    · cases hacquire
    · next hfree =>
      cases hacquire
      rw [hset]
      refine h.acquire hworks fun w' hw' hlocked hlock => hfree (List.any_eq_true.mpr ⟨w', hw', ?_⟩)
      simp [hlocked, hlock]
  | finish i =>
    obtain ⟨w, -, rfl⟩ := Option.map_eq_some_iff.mp hstep
    refine h.less (List.eraseIdx_sublist st.works i) fun m hm => ?_
    rcases List.mem_append.mp hm with hm | hm
    · exact List.mem_append_left _ (((List.eraseIdx_sublist st.works i).map _).subset hm)
    · exact List.mem_append_right _ hm
  | sync folderId =>
    cases hstep
    have hsub : ∀ m ∈ st.inFlight ++ st.targets folderId, m ∈ st.registry.mounts ∧ ¬ st.registry.Unsettled m := by
      intro m hm
      rcases List.mem_append.mp hm with hm | hm
      · exact ⟨h.listed m hm, h.settled m hm⟩
      · exact ⟨(List.mem_filter.mp hm).1, hok m hm⟩
    have hflight : DaemonState.inFlight { st with
        calls := st.calls ++ [{ id := st.nextCall, targets := st.targets folderId }]
        nextCall := st.nextCall + 1 } = st.inFlight ++ st.targets folderId := by
      simp [DaemonState.inFlight]
    exact ⟨h.registry, h.catchups, h.locks, fun m hm => (hsub m (hflight ▸ hm)).1, fun m hm => (hsub m (hflight ▸ hm)).2⟩
  | syncNext i =>
    obtain ⟨call, hcall, hnext⟩ := Option.bind_eq_some_iff.mp hstep
    obtain ⟨xs, ys, hcalls, -, hset⟩ := split_at hcall
    cases htargets : call.targets with
    | nil => simp [htargets] at hnext
    | cons m rest =>
      by_cases hbusy : (st.works.any fun w => w.worker = .call call.id) = true
      · simp [htargets, hbusy] at hnext
      · simp only [htargets, hbusy, Bool.false_eq_true, if_false] at hnext
        cases hnext
        -- the first target becomes a section
        have htarget : ∀ m' ∈ m :: rest, m' ∈ st.inFlight := by
          intro m' hm'
          refine List.mem_append_right _ (List.mem_flatMap.mpr ⟨call, by simp [hcalls], ?_⟩)
          rwa [htargets]
        have hless : DaemonInv { st with calls := xs ++ { call with targets := rest } :: ys } := by
          refine h.less (List.Sublist.refl _) fun m' hm' => ?_
          rcases List.mem_append.mp hm' with hm' | hm'
          · exact List.mem_append_left _ hm'
          · obtain ⟨call', hin, hm'⟩ := List.mem_flatMap.mp hm'
            rcases mem_around.mp hin with rfl | hin
            · exact htarget m' (List.mem_cons_of_mem m hm')
            · refine List.mem_append_right _ (List.mem_flatMap.mpr ⟨call', ?_, hm'⟩)
              rw [hcalls]
              exact mem_around.mpr (.inr hin)
        rw [hset]
        exact hless.begin _ (h.listed m (htarget m (by simp))) (h.settled m (htarget m (by simp)))

/-- Listed mounts of one folder are one mount. -/
theorem RegistryInv.eq_of_folder {r : Registry} (h : RegistryInv r) (hm : m ∈ r.mounts) (hm' : m' ∈ r.mounts)
    (hfolder : m.folderId = m'.folderId) : m = m' := by
  by_contra hne
  have hsymm : Std.Symm fun m m' => ¬ Conflicts m m' := ⟨fun _ _ hab hba => hab hba.symm⟩
  exact h.solo.forall hm hm' hne (.inr hfolder)

theorem DaemonInv.exclusive (h : DaemonInv st) : Exclusive st := by
  have hwork : ∀ w ∈ st.works, w.mount ∈ st.registry.mounts ∧ ¬ st.registry.Unsettled w.mount := fun w hw =>
    ⟨h.listed _ (List.mem_append_left _ (List.mem_map_of_mem hw)),
      h.settled _ (List.mem_append_left _ (List.mem_map_of_mem hw))⟩
  refine List.pairwise_append.mpr ⟨?_, ?_, ?_⟩
  · -- sections of one folder are sections of one mount, and have its lock
    refine List.pairwise_map.mpr ((h.locks.filter _).imp_of_mem fun {w w'} hw hw' hlocks hfolder => ?_)
    obtain ⟨hw, hlocked⟩ := List.mem_filter.mp hw
    obtain ⟨hw', hlocked'⟩ := List.mem_filter.mp hw'
    have hsame := h.registry.eq_of_folder (hwork w hw).1 (hwork w' hw').1 hfolder
    exact hlocks hlocked hlocked' (by rw [hsame])
  · have hposts := (List.pairwise_append.mp h.registry.apart).1
    refine (hposts.sublist (List.filter_sublist.map _)).imp fun happart hfolder => happart (.inr hfolder)
  · intro m hm m' hm' hfolder
    obtain ⟨w, hw, rfl⟩ := List.mem_map.mp hm
    obtain ⟨p, hp, rfl⟩ := List.mem_map.mp hm'
    obtain ⟨hp, hstage⟩ := List.mem_filter.mp hp
    have hunsettled : p.mount ∈ st.registry.unsettled :=
      mem_unsettled.mpr (.inl ⟨p, hp, .inl (by simpa using hstage), rfl⟩)
    exact (hwork w (List.mem_filter.mp hw).1).2 ⟨p.mount, hunsettled, .inr hfolder.symm⟩

theorem mem_stage_ids {stage : Stage} {id : ℕ} : id ∈ stage.ids ↔ ∃ hs, stage = .spawned hs ∧ id ∈ hs.ids := by
  cases stage with
  | spawned hs => simp [Stage.ids]
  | _ => simp [Stage.ids]

/-- Of the tasks whose handles are kept, those that live are those that are held. -/
theorem RegistryInv.live_iff {r : Registry} (h : RegistryInv r) (path : String) (id : ℕ) :
    (∃ t ∈ r.tasks, t.id = id ∧ t.mount.path = path ∧ t.aborted = false) ↔
      r.Held path id ∧ id ∈ r.tasks.map Task.id := by
  constructor
  · intro hlive
    obtain ⟨t, ht, rfl, rfl, hlive⟩ := hlive
    refine ⟨(h.registered t ht hlive).imp id ?_, List.mem_map_of_mem ht⟩
    rintro ⟨p, hp, hs, hstage, hmount, hid⟩
    exact ⟨p, hp, by rw [hmount], mem_stage_ids.mpr ⟨hs, hstage, hid⟩⟩
  · intro hheld
    obtain ⟨hheld, hin⟩ := hheld
    obtain ⟨t, ht, rfl⟩ := List.mem_map.mp hin
    rcases hheld with hid | ⟨p, hp, hpath, hid⟩
    · obtain ⟨htpath, hlive⟩ := h.handled path t.id hid t ht rfl
      exact ⟨t, ht, rfl, htpath, hlive⟩
    · obtain ⟨hs, hstage, hid⟩ := mem_stage_ids.mp hid
      obtain ⟨hmount, hlive⟩ := h.spawned p hp hs hstage t ht hid
      exact ⟨t, ht, rfl, by rw [hmount, hpath], hlive⟩

/-- **The handles of a path** are those of its live tasks, but for a boot catch-up that has not ended. -/
theorem DaemonInv.registered_iff (h : DaemonInv st) (path : String) :
    st.registry.Registered path ↔ ∀ c ∈ st.registry.catchups, c.mount.path ≠ path := by
  constructor
  · intro hregistered c hc hpath
    have hlive : st.registry.Live path c.id := .inr ⟨c, hc, rfl, hpath⟩
    exact h.catchups.unheld c hc path ((hregistered c.id).mp hlive).1
  · intro hnone id
    constructor
    · intro hlive
      rcases hlive with htask | ⟨c, hc, -, hpath⟩
      · obtain ⟨hheld, hrunning⟩ := (h.registry.live_iff path id).mp htask
        exact ⟨hheld, .inl hrunning⟩
      · exact absurd hpath (hnone c hc)
    · intro hheld
      obtain ⟨hheld, hrunning | hrunning⟩ := hheld
      · exact .inl ((h.registry.live_iff path id).mpr ⟨hheld, hrunning⟩)
      · obtain ⟨c, hc, rfl⟩ := List.mem_map.mp hrunning
        exact absurd hheld (h.catchups.unheld c hc path)

theorem DaemonInv.unmounted (h : DaemonInv st) : Unmounted st := by
  intro m hm w hw _ hmount
  have hlisted := h.listed w.mount (List.mem_append_left _ (List.mem_map_of_mem hw))
  rw [hmount] at hlisted
  exact (h.registry.gone m hm).1 hlisted

theorem DaemonInv.oneSyncer_iff (h : DaemonInv st) : OneSyncer st ↔ st.registry.catchups = [] := by
  rw [List.eq_nil_iff_forall_not_mem]
  constructor
  · intro hone c hc
    exact (h.registered_iff c.mount.path).mp (hone.registered _) c hc rfl
  · intro hnone
    exact ⟨h.exclusive, fun path => (h.registered_iff path).mpr fun c hc => absurd hc (hnone c), h.unmounted⟩

theorem DaemonInv.start : DaemonInv {} where
  registry := by
    constructor <;> simp [Registry.requests, Registry.handleIds]
  catchups := ⟨fun c hc => (by cases hc), fun c hc => (by cases hc)⟩
  locks := List.Pairwise.nil
  listed m hm := by cases hm
  settled m hm := by cases hm

end Daemon

/-! ### Runs -/

/-- **One syncer for each mount.**  Along every run in which the requests for one path or folder do not overlap, start
when no section for it has begun or will, and no section begins by an aborted task or for a mount that is being replaced
or deleted: no folder is worked on twice and nothing works for a deleted mount, and the handles of a path are those of
its live tasks just when no boot catch-up of the path is left. -/
theorem one_syncer (evs : List DaemonEvent) (hok : Run.Along DaemonState.step MountOk {} evs) :
    let st := Run.run DaemonState.step {} evs
    (OneSyncer st ↔ st.registry.catchups = []) ∧ Exclusive st ∧ Unmounted st ∧
      ∀ path, st.registry.Registered path ↔ ∀ c ∈ st.registry.catchups, c.mount.path ≠ path := by
  intro st
  have hinv : DaemonInv (Run.run DaemonState.step {} evs) :=
    Run.run_invariant (fun _ _ _ h hok hstep => h.step hok hstep) DaemonInv.start hok
  exact ⟨hinv.oneSyncer_iff, hinv.exclusive, hinv.unmounted, hinv.registered_iff⟩

/-- A `post_mount`, alone. -/
def mountDocs : List DaemonEvent :=
  [.registry (.post "/docs" "docs"), .registry (.postListed 0), .registry (.postCancel 0), .registry (.postSpawn 0),
    .registry (.postRegister 0)]

/-- The boot catch-up ends, the sync loop pulls and reconciles, the watcher ends and is respawned, a `post_sync` comes,
and the folder is mounted again and unmounted. -/
def docsDay : List DaemonEvent :=
  mountDocs ++ [.registry (.ended 4), .section 2, .acquire 0, .finish 0, .registry (.ended 1), .registry (.respawn 2),
    .section 5, .reconcile 2, .acquire 0, .finish 0, .acquire 0, .finish 0, .sync none, .syncNext 0, .acquire 0,
    .finish 0] ++
    mountDocs ++ [.registry (.delete "docs"), .registry (.ended 2), .registry (.deleteAnswer 0), .registry (.ended 10)]

theorem one_syncer_docsDay :
    Run.Along DaemonState.step MountOk {} docsDay ∧ OneSyncer (Run.run DaemonState.step {} docsDay) :=
  ⟨by decide +kernel, (one_syncer docsDay (by decide +kernel)).1.mpr (by decide +kernel)⟩

/-- **Two syncers of a mount.**  A folder is mounted again while the sync loop pulls, so the resync goes on beside the
pull; of two `post_mount`s at a time, the tasks of one are left without a handle; the folder is unmounted while
a reconcile is in its blocking thread, which goes on after the answer; and a single `post_mount` leaves its boot catch-up
without a handle. -/
theorem two_syncers :
    ¬ OneSyncer (Run.run DaemonState.step {} (mountDocs ++ [.section 2, .acquire 0, .registry (.post "/docs" "docs")])) ∧
    ¬ OneSyncer (Run.run DaemonState.step {} [.registry (.post "/docs" "docs"), .registry (.post "/docs" "docs"),
      .registry (.postListed 0), .registry (.postListed 1), .registry (.postCancel 0), .registry (.postCancel 1),
      .registry (.postSpawn 0), .registry (.postSpawn 1), .registry (.postRegister 0), .registry (.postRegister 0)]) ∧
    ¬ OneSyncer (Run.run DaemonState.step {} (mountDocs ++ [.reconcile 2, .acquire 0, .registry (.delete "docs"),
      .registry (.deleteAnswer 0)])) ∧
    ¬ OneSyncer (Run.run DaemonState.step {} mountDocs) := by
  refine ⟨fun h => ?_, fun h => ?_, fun h => ?_, fun h => ?_⟩
  · have hboth : ¬ Exclusive (Run.run DaemonState.step {} (mountDocs ++ [.section 2, .acquire 0,
        .registry (.post "/docs" "docs")])) := by
      decide +kernel
    exact hboth h.exclusive
  · have hlost := h.registered "/docs" 3
    revert hlost
    decide +kernel
  · have hleft := h.quiet { path := "/docs", folderId := "docs", lock := 0 } (by decide +kernel)
      { worker := .blocking 2, mount := { path := "/docs", folderId := "docs", lock := 0 }, locked := true }
      (by decide +kernel) rfl
    exact hleft rfl
  · have hlost := h.registered "/docs" 4
    revert hlost
    decide +kernel

end Valv.Client
