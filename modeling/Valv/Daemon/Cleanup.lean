import Mathlib.Data.List.Sort
import Valv.Daemon.MountRequests
import Valv.Lib.Paths
import Valv.Lib.Traverse

/-!
# Files of deleted nodes

`cleanup_deleted_mount_paths` of `valvd`: the tombstones of a folder, deepest first, each taken off the disk.
Tombstones stay in the mirror, so all of them are gone through again at every pull.

* `cleanupDeletedMountPaths`: the pass, with the answers of the file system.
* `LiveAt`: where a live node is.
* `RemovesDeadPaths`: what is asked for.
* `TombstonesApart`: the condition on the mirror.
* `removesDeadPaths_iff`: a pass.
* `cleanup_removes_dead_paths`, `cleanup_removes_live_path`: passes over the states of a mirror.
-/

namespace Valv.Daemon

open Valv.Server Valv.Paths Valv.Traverse

/-! ### The pass -/

section Pass

variable (m : Client.Mirror) (mount : MountState)

def folderNodes : List Client.LocalNode := m.nodes.filter fun node => node.folderId = mount.folderId

def liveNodes : List Client.LocalNode := (folderNodes m mount).filter fun node => node.deletedAt.isNone

/-- The first node without a parent. -/
def rootOf (nodes : List Client.LocalNode) : Option Client.LocalNode := nodes.find? fun node => node.parentId.isNone

/-- Where `node` is in a folder at `path`. -/
def under (path : PathBuf) (node : Client.LocalNode) : PathBuf := join path node.name

/-- The nodes below `root`, with their paths. -/
def placedNodes (nodes : List Client.LocalNode) (root : Client.LocalNode) : List (Client.LocalNode × PathBuf) :=
  bfs Client.LocalNode.nodeId Client.LocalNode.parentId nodes under nodes.length
    [(root.nodeId, components mount.path)]

def deletedPaths : List (PathBuf × NodeType) :=
  match rootOf (folderNodes m mount) with
  | none => []
  | some root =>
    ((placedNodes mount (folderNodes m mount) root).filter fun e => e.1.deletedAt.isSome).map
      fun e => (e.2, e.1.nodeType)

/-- What `remove_file` and `remove_dir_all` answer. -/
inductive Removal where
  | removed
  | notFound
  | failed
  deriving DecidableEq, Repr

/-- One path after the other, up to the first error; the paths that are gone, and whether the end was reached.  Answers
that are missing were never waited for. -/
def removeAll : List Removal → List (PathBuf × NodeType) → List PathBuf × Bool
  | _, [] => ([], true)
  | .removed :: answers, e :: paths => (e.1 :: (removeAll answers paths).1, (removeAll answers paths).2)
  | .notFound :: answers, _ :: paths => removeAll answers paths
  | .failed :: _, _ :: _ => ([], false)
  | [], _ :: _ => ([], false)

def deepestFirst (paths : List (PathBuf × NodeType)) : List (PathBuf × NodeType) :=
  (paths.insertionSort fun a b => a.1.length ≤ b.1.length).reverse

/-- `cleanup_deleted_mount_paths`. -/
def cleanupDeletedMountPaths (answers : List Removal) : List PathBuf × Bool :=
  removeAll answers (deepestFirst (deletedPaths m mount))

end Pass

/-! ### What is asked for -/

section Spec

variable (m : Client.Mirror) (mount : MountState)

/-- A live node that is reached from the live root through live nodes, and its path below the mount. -/
def LiveAt (nodeId : String) (path : PathBuf) : Prop :=
  ∃ root, rootOf (liveNodes m mount) = some root ∧
    Placed Client.LocalNode.nodeId Client.LocalNode.parentId (liveNodes m mount) under
      root.nodeId (components mount.path) nodeId path

/-- A tombstone whose parent is reached from the root, and the path that it has below the mount. These are the paths
that the cleanup takes off the disk. -/
def DeadAt (path : PathBuf) : Prop :=
  ∃ root, rootOf (folderNodes m mount) = some root ∧ ∃ parentId parentPath,
    Placed Client.LocalNode.nodeId Client.LocalNode.parentId (folderNodes m mount) under
      root.nodeId (components mount.path) parentId parentPath ∧
    ∃ node ∈ folderNodes m mount, node.parentId = some parentId ∧ node.deletedAt.isSome ∧
      path = under parentPath node

/-- `path` is `other` or above it, so that removing the one removes the other. -/
def Covers (path other : PathBuf) : Prop := normalize path <+: normalize other

/-- The cleanup is safe: no path that it removes is the path of a live node or above it, whatever the file system
answers to its calls. -/
def RemovesDeadPaths : Prop :=
  ∀ answers, ∀ path ∈ (cleanupDeletedMountPaths m mount answers).1,
    ∀ nodeId live, LiveAt m mount nodeId live → ¬ Covers path live

/-- No tombstone is at the mount or above it, and none is where a live node starts: at that node's path or above it,
but not above the folder it is in. -/
structure TombstonesApart : Prop where
  mountKept : ∀ path, DeadAt m mount path → ∀ nodeId, LiveAt m mount nodeId (components mount.path) →
    ¬ Covers path (components mount.path)
  apart : ∀ path, DeadAt m mount path → ∀ parentId parentPath, LiveAt m mount parentId parentPath →
    ∀ node ∈ liveNodes m mount, node.parentId = some parentId →
      Covers path (under parentPath node) → Covers path parentPath

end Spec

/-! ### One pass -/

section OnePass

variable {m : Client.Mirror} {mount : MountState} {path : PathBuf}

theorem mem_of_removeAll {answers : List Removal} {paths : List (PathBuf × NodeType)}
    (h : path ∈ (removeAll answers paths).1) : ∃ e ∈ paths, e.1 = path := by
  induction paths generalizing answers with
  | nil => simp [removeAll] at h
  | cons e paths ih =>
    have htail : ∀ {rest}, path ∈ (removeAll rest paths).1 → ∃ e' ∈ e :: paths, e'.1 = path := by
      intro rest hrest
      obtain ⟨e', he', hpath⟩ := ih hrest
      exact ⟨e', List.mem_cons_of_mem _ he', hpath⟩
    cases answers with
    | nil => simp [removeAll] at h
    | cons answer answers =>
      cases answer with
      | removed =>
        rw [removeAll] at h
        rcases List.mem_cons.1 h with rfl | h
        · exact ⟨e, List.mem_cons_self, rfl⟩
        · exact htail h
      | notFound => exact htail h
      | failed => simp [removeAll] at h

/-- Where everything is there, everything goes. -/
theorem removeAll_replicate {paths : List (PathBuf × NodeType)} :
    (removeAll (List.replicate paths.length .removed) paths).1 = paths.map Prod.fst := by
  induction paths with
  | nil => rfl
  | cons e paths ih =>
    show e.1 :: (removeAll (List.replicate paths.length .removed) paths).1 = e.1 :: paths.map Prod.fst
    rw [ih]

/-- The paths of the tombstones, by the links alone. -/
theorem mem_deletedPaths (hkeys : (m.nodes.map Client.LocalNode.nodeId).Nodup) :
    (∃ e ∈ deletedPaths m mount, e.1 = path) ↔ DeadAt m mount path := by
  have hnodes : ((folderNodes m mount).map Client.LocalNode.nodeId).Nodup :=
    hkeys.sublist (List.filter_sublist.map _)
  rw [deletedPaths, DeadAt]
  cases hroot : rootOf (folderNodes m mount) with
  | none => simp
  | some root =>
    have hmem : root ∈ folderNodes m mount := List.mem_of_find?_eq_some hroot
    have htop : root.parentId = none := by simpa using List.find?_some hroot
    constructor
    · rintro ⟨e, he, rfl⟩
      obtain ⟨⟨node, nodePath⟩, hplaced, rfl⟩ := List.mem_map.1 he
      obtain ⟨hplaced, hdead⟩ := List.mem_filter.1 hplaced
      obtain ⟨parentId, parentPath, hp, hnode, hlink, hpath⟩ := (mem_bfs hnodes hmem htop).1 hplaced
      exact ⟨root, rfl, parentId, parentPath, hp, node, hnode, hlink, hdead, hpath⟩
    · rintro ⟨root', hroot', parentId, parentPath, hp, node, hnode, hlink, hdead, rfl⟩
      cases hroot'
      have hplaced := (mem_bfs hnodes hmem htop).2 ⟨parentId, parentPath, hp, hnode, hlink, rfl⟩
      exact ⟨(under parentPath node, node.nodeType),
        List.mem_map.2 ⟨(node, under parentPath node), List.mem_filter.2 ⟨hplaced, hdead⟩, rfl⟩, rfl⟩

/-- What a pass can remove: the paths of the tombstones. -/
theorem exists_removed_iff (hkeys : (m.nodes.map Client.LocalNode.nodeId).Nodup) :
    (∃ answers, path ∈ (cleanupDeletedMountPaths m mount answers).1) ↔ DeadAt m mount path := by
  have hperm := List.perm_insertionSort (fun a b : PathBuf × NodeType => a.1.length ≤ b.1.length)
    (deletedPaths m mount)
  rw [← mem_deletedPaths hkeys]
  constructor
  · rintro ⟨answers, h⟩
    obtain ⟨e, he, hpath⟩ := mem_of_removeAll h
    exact ⟨e, hperm.mem_iff.1 (List.mem_reverse.1 he), hpath⟩
  · rintro ⟨e, he, rfl⟩
    have hmem : e ∈ (deepestFirst (deletedPaths m mount)) := List.mem_reverse.2 (hperm.mem_iff.2 he)
    refine ⟨List.replicate (deepestFirst (deletedPaths m mount)).length .removed, ?_⟩
    rw [cleanupDeletedMountPaths, removeAll_replicate]
    exact List.mem_map_of_mem hmem

/-- **A pass** removes dead paths only in exactly the mirrors whose tombstones are apart. -/
theorem removesDeadPaths_iff (hkeys : (m.nodes.map Client.LocalNode.nodeId).Nodup) :
    RemovesDeadPaths m mount ↔ TombstonesApart m mount := by
  constructor
  · intro h
    have hdead : ∀ path, DeadAt m mount path → ∀ nodeId live, LiveAt m mount nodeId live → ¬ Covers path live := by
      intro path hpath
      obtain ⟨answers, hans⟩ := (exists_removed_iff hkeys).2 hpath
      exact h answers path hans
    refine ⟨fun path hpath nodeId hlive => hdead path hpath nodeId _ hlive, ?_⟩
    intro path hpath parentId parentPath hparent node hnode hlink hcovers
    obtain ⟨root, hroot, hp⟩ := hparent
    exact absurd hcovers (hdead path hpath node.nodeId _ ⟨root, hroot, hp.child hnode hlink⟩)
  · intro hapart answers path hpath nodeId live hlive
    have hdead : DeadAt m mount path := (exists_removed_iff hkeys).1 ⟨answers, hpath⟩
    obtain ⟨root, hroot, hp⟩ := hlive
    -- down from the root: the first node that is covered would be one the condition rules out
    induction hp with
    | start => exact hapart.mountKept path hdead root.nodeId ⟨root, hroot, .start⟩
    | @child parentId parentPath node hp hnode hlink ih =>
      intro hcovers
      exact ih (hapart.apart path hdead parentId parentPath ⟨root, hroot, hp⟩ node hnode hlink hcovers)

/-! ### Trying the condition out -/

/-- The live nodes and their paths. -/
def livePaths (m : Client.Mirror) (mount : MountState) : List (String × PathBuf) :=
  match rootOf (liveNodes m mount) with
  | none => []
  | some root =>
    (root.nodeId, components mount.path) :: (placedNodes mount (liveNodes m mount) root).map
      fun e => (e.1.nodeId, e.2)

theorem mem_livePaths (hkeys : (m.nodes.map Client.LocalNode.nodeId).Nodup) {nodeId : String} :
    (nodeId, path) ∈ livePaths m mount ↔ LiveAt m mount nodeId path := by
  have hnodes : ((liveNodes m mount).map Client.LocalNode.nodeId).Nodup :=
    hkeys.sublist ((List.filter_sublist.trans List.filter_sublist).map _)
  rw [livePaths, LiveAt]
  cases hroot : rootOf (liveNodes m mount) with
  | none => simp
  | some root =>
    have hmem : root ∈ liveNodes m mount := List.mem_of_find?_eq_some hroot
    have htop : root.parentId = none := by simpa using List.find?_some hroot
    constructor
    · intro h
      refine ⟨root, rfl, ?_⟩
      rcases List.mem_cons.1 h with he | h
      · cases he
        exact .start
      · obtain ⟨⟨node, nodePath⟩, hplaced, he⟩ := List.mem_map.1 h
        cases he
        obtain ⟨parentId, parentPath, hp, hnode, hlink, rfl⟩ := (mem_bfs hnodes hmem htop).1 hplaced
        exact hp.child hnode hlink
    · rintro ⟨root', hroot', hp⟩
      cases hroot'
      cases hp with
      | start => exact List.mem_cons_self
      | @child parentId parentPath node hp hnode hlink =>
        have hplaced := (mem_bfs hnodes hmem htop).2 ⟨parentId, parentPath, hp, hnode, hlink, rfl⟩
        exact List.mem_cons_of_mem _ (List.mem_map.2 ⟨(node, under parentPath node), hplaced, rfl⟩)

/-- The condition, over the lists of tombstones and live nodes. -/
theorem tombstonesApart_iff (hkeys : (m.nodes.map Client.LocalNode.nodeId).Nodup) :
    TombstonesApart m mount ↔ ∀ dead ∈ deletedPaths m mount, ∀ live ∈ livePaths m mount,
      (live.2 = components mount.path → ¬ Covers dead.1 live.2) ∧
      ∀ node ∈ liveNodes m mount, node.parentId = some live.1 →
        Covers dead.1 (under live.2 node) → Covers dead.1 live.2 := by
  constructor
  · intro h dead hdead live hlive
    have hpath : DeadAt m mount dead.1 := (mem_deletedPaths hkeys).1 ⟨dead, hdead, rfl⟩
    have hat : LiveAt m mount live.1 live.2 := (mem_livePaths hkeys).1 hlive
    refine ⟨fun he => ?_, h.apart dead.1 hpath live.1 live.2 hat⟩
    rw [he] at hat ⊢
    exact h.mountKept dead.1 hpath live.1 hat
  · intro h
    constructor
    · intro path hpath nodeId hlive
      obtain ⟨dead, hdead, rfl⟩ := (mem_deletedPaths hkeys).2 hpath
      exact (h dead hdead _ ((mem_livePaths hkeys).2 hlive)).1 rfl
    · intro path hpath parentId parentPath hlive
      obtain ⟨dead, hdead, rfl⟩ := (mem_deletedPaths hkeys).2 hpath
      exact (h dead hdead _ ((mem_livePaths hkeys).2 hlive)).2

end OnePass

instance (path other : PathBuf) : Decidable (Covers path other) := inferInstanceAs (Decidable (_ <+: _))

/-! ### The states of a mirror -/

/-- What happens to the mirror, and the passes in between. -/
inductive MirrorEvent where
  | pulled (now : ℕ) (entry : OpLogEntry)
  | resynced (folderId : String) (tree : FolderTreeResponse)
  | cleaned

/-- A pass writes nothing to the mirror. -/
def mirrorStep (m : Client.Mirror) : MirrorEvent → Option Client.Mirror
  | .pulled now entry => (m.applyOpLogEntry now entry).toOption
  | .resynced folderId tree => some (m.applyTreeSnapshot folderId tree)
  | .cleaned => some m

def SweepsDead (mount : MountState) (m : Client.Mirror) (ev : MirrorEvent) : Prop :=
  ev = .cleaned → RemovesDeadPaths m mount

def SweepsApart (mount : MountState) (m : Client.Mirror) (ev : MirrorEvent) : Prop :=
  ev = .cleaned → TombstonesApart m mount

/-- The node ids stay different from each other. -/
theorem nodup_mirrorStep {m m' : Client.Mirror} {ev : MirrorEvent}
    (hkeys : (m.nodes.map Client.LocalNode.nodeId).Nodup) (h : mirrorStep m ev = some m') :
    (m'.nodes.map Client.LocalNode.nodeId).Nodup := by
  cases ev with
  | pulled now entry =>
    have hok : m.applyOpLogEntry now entry = .ok m' := by
      rw [mirrorStep] at h
      cases happly : m.applyOpLogEntry now entry with
      | error e =>
        rw [happly] at h
        cases h
      | ok m'' =>
        rw [happly] at h
        cases h
        rfl
    exact Client.nodup_applyOpLogEntry hkeys hok
  | resynced folderId tree =>
    cases h
    exact Client.nodup_applyTreeSnapshot hkeys
  | cleaned =>
    cases h
    exact hkeys

/-- **Passes over the states of a mirror** remove dead paths only in exactly the runs in which the tombstones are
apart at each pass. -/
theorem cleanup_removes_dead_paths (mount : MountState) (m : Client.Mirror)
    (hkeys : (m.nodes.map Client.LocalNode.nodeId).Nodup) (evs : List MirrorEvent) :
    Run.Along mirrorStep (SweepsDead mount) m evs ↔ Run.Along mirrorStep (SweepsApart mount) m evs := by
  constructor
  · intro h
    exact Run.Along.of_invariant (fun m ev m' hm _ hstep => nodup_mirrorStep hm hstep)
      (fun m ev hm hdead he => (removesDeadPaths_iff hm).1 (hdead he)) hkeys h
  · intro h
    exact Run.Along.of_invariant (fun m ev m' hm _ hstep => nodup_mirrorStep hm hstep)
      (fun m ev hm hapart he => (removesDeadPaths_iff hm).2 (hapart he)) hkeys h

/-- A mount of the folder `f`. -/
def docsMount : MountState := { path := "/docs", folderId := "f" }

def docsNode (nodeId name : String) (serverSeq : ℕ) (deletedAt : Option ℕ) : NodeSnapshot :=
  { nodeId, parentId := some "root", name, type := .file, currentVersionId := none, serverSeq, deletedAt }

/-- The root, `a.txt` and a deleted `old.txt`. -/
def docsTree : FolderTreeResponse where
  nodes := [{ nodeId := "root", parentId := none, name := "", type := .folder, currentVersionId := none,
              serverSeq := 1, deletedAt := none },
            docsNode "a" "a.txt" 2 none, docsNode "old" "old.txt" 4 (some 0)]
  upToSeq := 4

/-- And another `old.txt`, later. -/
def docsTreeAgain : FolderTreeResponse :=
  { docsTree with nodes := docsTree.nodes ++ [docsNode "new" "old.txt" 5 none], upToSeq := 5 }

/-- A snapshot in an empty database. -/
theorem nodup_first (tree : FolderTreeResponse) :
    ((({} : Client.Mirror).applyTreeSnapshot "f" tree).nodes.map Client.LocalNode.nodeId).Nodup :=
  Client.nodup_applyTreeSnapshot List.nodup_nil

theorem cleanup_removes_dead_paths_docs :
    Run.Along mirrorStep (SweepsDead docsMount) {} [.resynced "f" docsTree, .cleaned] := by
  apply (cleanup_removes_dead_paths docsMount {} List.nodup_nil _).2
  refine ⟨?_, fun _ => ?_, True.intro⟩
  · intro he
    cases he
  apply (tombstonesApart_iff (nodup_first docsTree)).2
  decide +kernel

/-- **A live file is removed**: `old.txt` is there again, as a new node, and the pass goes through the tombstone of the
one before. -/
theorem cleanup_removes_live_path :
    ¬ Run.Along mirrorStep (SweepsDead docsMount) {}
      [.resynced "f" docsTreeAgain, .cleaned] := by
  rintro ⟨-, h, -⟩
  have hkeys := nodup_first docsTreeAgain
  have hapart := (tombstonesApart_iff hkeys).1 ((removesDeadPaths_iff hkeys).1 (h rfl))
  revert hapart
  decide +kernel

end Valv.Daemon
