import Valv.Client.Sweep
import Valv.Lib.Crash
import Valv.Lib.FileOps
import Valv.Lib.Traverse

/-!
# A pass with nothing to do

When the tree on the disk is what the mirror says, `push_local` has nothing to send: the walk finds a node for each
entry, and the content of its version in each file; the sweep finds an entry for each node.

* `SameTree`: mirrors that differ in their push caches only.
* `Settled`: the tree on the disk is that of the mirror.
* `Quiet`: a pass that has sent nothing.
* `walk_quiet`, `sweep_quiet`: the two loops, from the bottom up.
* `settled_mount_pushes_nothing`: the whole pass.
-/

namespace Valv.Client

open Valv.Conc Valv.Table Valv.Server Valv.Files Valv.Traverse

/-! ### Mirrors with one tree -/

/-- A row without its push cache. -/
def LocalNode.uncached (r : LocalNode) : LocalNode := { r with pushedSizeBytes := none, pushedMtimeNanos := none }

/-- The mirrors differ in push caches only. -/
structure SameTree (m m' : Mirror) : Prop where
  nodes : m'.nodes.map LocalNode.uncached = m.nodes.map LocalNode.uncached
  versions : m'.versions = m.versions

section SameTree

variable {m m' : Mirror} {folderId name : String} {parentId : Option String}

theorem SameTree.refl (m : Mirror) : SameTree m m := ⟨rfl, rfl⟩

theorem SameTree.updatePushedCache (h : SameTree m m') (nodeId : String) (sizeBytes mtimeNanos : ℕ) :
    SameTree m (m'.updatePushedCache nodeId sizeBytes mtimeNanos) := by
  refine ⟨?_, h.versions⟩
  rw [← h.nodes]
  show (update LocalNode.nodeId nodeId _ m'.nodes).map LocalNode.uncached = _
  rw [update, List.map_map]
  apply List.map_congr_left
  intro r _
  show LocalNode.uncached (if r.nodeId = nodeId then _ else r) = _
  split <;> rfl

/-- What is told by rows without their caches is found in both or in none. -/
theorem find_uncached {rows rows' : List LocalNode} (h : rows'.map LocalNode.uncached = rows.map LocalNode.uncached)
    {p : LocalNode → Bool} (hp : ∀ r, p r.uncached = p r) :
    (rows'.find? p).map LocalNode.uncached = (rows.find? p).map LocalNode.uncached := by
  have hmap : ∀ l : List LocalNode, (l.find? p).map LocalNode.uncached = (l.map LocalNode.uncached).find? p := by
    intro l
    rw [List.find?_map]
    congr 2
    funext r
    exact (hp r).symm
  rw [hmap, hmap, h]

theorem SameTree.getNodeByParentAndName (h : SameTree m m') :
    (m'.getNodeByParentAndName folderId parentId name).map LocalNode.uncached =
      (m.getNodeByParentAndName folderId parentId name).map LocalNode.uncached := find_uncached h.nodes fun _ => rfl

theorem SameTree.getRootNode (h : SameTree m m') :
    (m'.getRootNode folderId).map LocalNode.uncached = (m.getRootNode folderId).map LocalNode.uncached := by
  have hmap : ∀ l : List LocalNode,
      (((l.filter fun r => r.folderId = folderId && r.parentId.isNone && r.deletedAt.isNone).insertionSort
        fun a b => a.serverSeq ≤ b.serverSeq).head?).map LocalNode.uncached =
      (((l.map LocalNode.uncached).filter fun r =>
        r.folderId = folderId && r.parentId.isNone && r.deletedAt.isNone).insertionSort
          fun a b => a.serverSeq ≤ b.serverSeq).head? := by
    intro l
    rw [← List.head?_map, List.map_insertionSort (fun a b : LocalNode => a.serverSeq ≤ b.serverSeq)
      (fun a b : LocalNode => a.serverSeq ≤ b.serverSeq) LocalNode.uncached _ fun a _ b _ => Iff.rfl, List.filter_map]
    rfl
  rw [Mirror.getRootNode, Mirror.getRootNode, hmap, hmap, h.nodes]

theorem SameTree.getVersion (h : SameTree m m') (versionId : String) : m'.getVersion versionId = m.getVersion versionId := by
  rw [Mirror.getVersion, Mirror.getVersion, h.versions]

theorem SameTree.liveNodes (h : SameTree m m') (folderId : String) :
    (m'.liveNodes folderId).map LocalNode.uncached = (m.liveNodes folderId).map LocalNode.uncached := by
  have hmap : ∀ l : List LocalNode, (l.filter fun r => r.folderId = folderId && r.deletedAt.isNone).map LocalNode.uncached =
      (l.map LocalNode.uncached).filter fun r => r.folderId = folderId && r.deletedAt.isNone := by
    intro l
    rw [List.filter_map]
    rfl
  rw [Mirror.liveNodes, Mirror.liveNodes, hmap, hmap, h.nodes]

end SameTree

/-! ### Settled mounts -/

/-- The place of a node, told from the nodes above it. -/
def placedAt (nodes : List LocalNode) (start nodeId : String) (p : Path) : Prop :=
  Placed LocalNode.nodeId LocalNode.parentId nodes (fun q r => q ++ [r.name]) start [] nodeId p

/-- What the mirror says of an entry in the folder of a node. -/
def Known (env : PushEnv) (m : Mirror) (nodeId name : String) : Entry FileData → Prop
  | .dir => (m.getNodeByParentAndName env.folderId (some nodeId) name).isSome
  | .file f =>
    match m.getNodeByParentAndName env.folderId (some nodeId) name with
    | none => isConflictCopyName name = true
    | some node => ∃ version, m.getVersion (node.currentVersionId.getD "") = some version ∧
        version.sizeBytes = f.sizeBytes ∧ env.contentHash f.chunks = version.contentHash
  | .symlink _ => True
  | .other => True

/-- The tree on the disk is that of the mirror, from the node `start` down. -/
structure Settled (env : PushEnv) (m : Mirror) (d : Disk FileData) (start : String) : Prop where
  root : ∀ root, m.getRootNode env.folderId = some root → env.scopeNodeId.getD root.nodeId = start
  seed : ∀ seed, seedNode env (m.liveNodes env.folderId) = some seed → seed.nodeId = start
  top : d.lstat [] = some .dir
  entries : ∀ nodeId p name e, placedAt (m.liveNodes env.folderId) start nodeId p → d.lstat (p ++ [name]) = some e →
    Known env m nodeId name e
  present : ∀ node ∈ m.liveNodes env.folderId, ∀ nodeId p, placedAt (m.liveNodes env.folderId) start nodeId p →
    node.parentId = some nodeId →
      env.finds d (p ++ [node.name]) = true ∨ node.nodeType = .file ∧ node.currentVersionId = none

/-- The pass has sent nothing and counted no error, and where it goes on there are directories of the mirror. -/
structure Quiet (env : PushEnv) (m : Mirror) (d : Disk FileData) (start : String) (s : Pass) : Prop where
  sent : s.sent = []
  errors : s.summary.errors = 0
  disk : s.disk = d
  tree : SameTree m s.mirror
  queue : ∀ e ∈ s.queue, placedAt (m.liveNodes env.folderId) start e.2 e.1 ∧ d.lstat e.1 = some .dir

section Quiet

variable {env : PushEnv} {m : Mirror} {d : Disk FileData} {start : String} {p : Path} {nodeId name : String}

/-! ### Steps -/

theorem fsCall_quiet {α : Type} {f : Disk FileData → Option α} (hfails : ∀ n, env.fails n = false) :
    (fsCall env f).Preserves (Quiet env m d start) fun a => a = f d := by
  apply Proc.Preserves.act
  · intro s h
    exact ⟨h.sent, h.errors, h.disk, h.tree, h.queue⟩
  · intro s h
    rw [hfails, if_neg Bool.false_ne_true, h.disk]

theorem pathExists_quiet (hfails : ∀ n, env.fails n = false) :
    (pathExists env p).Preserves (Quiet env m d start) fun found => found = env.finds d p := by
  refine (fsCall_quiet hfails).bind fun found hfound => .pure ?_
  rw [hfound]
  cases env.finds d p <;> rfl

theorem updateSummary_quiet {f : PushSummary → PushSummary} (hf : ∀ u, (f u).errors = u.errors) :
    (updateSummary f).Preserves (Quiet env m d start) fun _ => True := by
  apply Proc.Preserves.act
  · intro s h
    exact ⟨h.sent, (hf s.summary).trans h.errors, h.disk, h.tree, h.queue⟩
  · intro s h
    trivial

theorem countSkipped_quiet : countSkipped.Preserves (Quiet env m d start) fun _ => True :=
  updateSummary_quiet fun _ => rfl

theorem updatePushedCache_quiet {sizeBytes mtimeNanos : ℕ} :
    (updateMirror fun m => m.updatePushedCache nodeId sizeBytes mtimeNanos).Preserves (Quiet env m d start)
      fun _ => True := by
  apply Proc.Preserves.act
  · intro s h
    exact ⟨h.sent, h.errors, h.disk, h.tree.updatePushedCache nodeId sizeBytes mtimeNanos, h.queue⟩
  · intro s h
    trivial

theorem ensureNotUpdateRequired_quiet :
    (ensureNotUpdateRequired env).Preserves (Quiet env m d start) fun _ => True := by
  intro s h
  have hnext : Quiet env m d start { s with looks := s.looks + 1 } :=
    ⟨h.sent, h.errors, h.disk, h.tree, h.queue⟩
  refine ⟨h, ?_⟩
  dsimp only
  split
  · exact .fail hnext True.intro
  · exact .pure hnext True.intro

theorem enqueue_quiet (hplaced : placedAt (m.liveNodes env.folderId) start nodeId p) (hdir : d.lstat p = some .dir) :
    (enqueue p nodeId).Preserves (Quiet env m d start) fun _ => True := by
  apply Proc.Preserves.act
  · intro s h
    refine ⟨h.sent, h.errors, h.disk, h.tree, fun e he => ?_⟩
    rcases List.mem_append.mp he with he | he
    · exact h.queue e he
    · rw [List.mem_singleton.mp he]
      exact ⟨hplaced, hdir⟩
  · intro s h
    trivial

theorem popQueue_quiet : popQueue.Preserves (Quiet env m d start) fun next => ∀ e, next = some e →
    placedAt (m.liveNodes env.folderId) start e.2 e.1 ∧ d.lstat e.1 = some .dir := by
  apply Proc.Preserves.act
  · intro s h
    exact ⟨h.sent, h.errors, h.disk, h.tree, fun e he => h.queue e (List.mem_of_mem_tail he)⟩
  · intro s h e he
    exact h.queue e (List.mem_of_mem_head? he)

/-! ### Files -/

theorem statPushSignature_quiet {f : FileData} (hfails : ∀ n, env.fails n = false) (hfile : d.lstat p = some (.file f)) :
    (statPushSignature env p).Preserves (Quiet env m d start) fun stat => stat = some (f.sizeBytes, f.mtimeNanos) := by
  apply (fsCall_quiet hfails).mono
  intro stat hstat
  rw [hstat, fileAt, hfile]
  rfl

theorem sameContent_quiet {f : FileData} {version : LocalVersion} (hfails : ∀ n, env.fails n = false)
    (hfile : d.lstat p = some (.file f)) (hsize : version.sizeBytes = f.sizeBytes)
    (hhash : env.contentHash f.chunks = version.contentHash) :
    (sameContent env p f.sizeBytes (some version)).Preserves (Quiet env m d start) fun same => same = some true := by
  rw [sameContent, if_pos hsize]
  refine (fsCall_quiet hfails).bind fun chunks hchunks => .pure ?_
  rw [hchunks, fileAt, hfile]
  simp [hhash]

/-- **A file** whose content is that of its version. -/
theorem processExistingFile_quiet {f : FileData} {version : LocalVersion} {node : LocalNode}
    (hfails : ∀ n, env.fails n = false) (hfile : d.lstat p = some (.file f))
    (hversion : m.getVersion (node.currentVersionId.getD "") = some version) (hsize : version.sizeBytes = f.sizeBytes)
    (hhash : env.contentHash f.chunks = version.contentHash) :
    (processExistingFile env p node).Preserves (Quiet env m d start) fun _ => True := by
  refine ensureNotUpdateRequired_quiet.bind fun _ _ => (statPushSignature_quiet hfails hfile).bind fun stat hstat => ?_
  rw [hstat]
  dsimp only
  split
  · exact countSkipped_quiet
  · have hstored : (.read fun s => s.mirror.getVersion (node.currentVersionId.getD "") : PushProc _).Preserves
        (Quiet env m d start) fun stored => stored = some version := by
      apply Proc.Preserves.read
      intro s h
      rw [h.tree.getVersion, hversion]
    refine hstored.bind fun stored heq => ?_
    rw [heq]
    refine (sameContent_quiet hfails hfile hsize hhash).bind fun same hsame => ?_
    rw [hsame]
    exact countSkipped_quiet.bind fun _ _ => updatePushedCache_quiet

/-! ### Directories -/

/-- The child of a placed node is placed. -/
theorem placedAt_of_getNodeByParentAndName (hplaced : placedAt (m.liveNodes env.folderId) start nodeId p)
    {node : LocalNode} (hnode : m.getNodeByParentAndName env.folderId (some nodeId) name = some node) :
    placedAt (m.liveNodes env.folderId) start node.nodeId (p ++ [name]) := by
  have hmem := List.mem_of_find?_eq_some hnode
  have hfound := List.find?_some hnode
  simp only [Bool.and_eq_true, decide_eq_true_eq] at hfound
  obtain ⟨⟨⟨hfolder, hparent⟩, hname⟩, hlive⟩ := hfound
  have hchild : node ∈ m.liveNodes env.folderId := by
    rw [Mirror.liveNodes, List.mem_filter]
    simp [hmem, hfolder, hlive]
  rw [← hname]
  exact Placed.child hplaced hchild hparent

/-- **An entry** that the mirror knows. -/
theorem processEntry_quiet (hfails : ∀ n, env.fails n = false) (h : Settled env m d start)
    (hplaced : placedAt (m.liveNodes env.folderId) start nodeId p) {entry : EntryInfo} {e : Entry FileData}
    (hpath : entry.path = p ++ [entry.name]) (hentry : d.lstat entry.path = some e) (htype : entry.type = entryType e) :
    (processEntry env nodeId entry).Preserves (Quiet env m d start) fun _ => True := by
  have hknown := h.entries nodeId p entry.name e hplaced (hpath ▸ hentry)
  refine ensureNotUpdateRequired_quiet.bind fun _ _ => ?_
  split
  · exact countSkipped_quiet
  -- the node as the pass finds it, and as it was
  have hread : (.read fun s => s.mirror.getNodeByParentAndName env.folderId (some nodeId) entry.name : PushProc _).Preserves
      (Quiet env m d start) fun found => found.map LocalNode.uncached =
        (m.getNodeByParentAndName env.folderId (some nodeId) entry.name).map LocalNode.uncached := by
    apply Proc.Preserves.read
    intro s hs
    exact hs.tree.getNodeByParentAndName
  refine hread.bind fun found hfound => ?_
  cases hnode : m.getNodeByParentAndName env.folderId (some nodeId) entry.name with
  | none =>
    rw [hnode, Option.map_none, Option.map_eq_none_iff] at hfound
    subst hfound
    cases e with
    | dir =>
      rw [Known, hnode] at hknown
      cases hknown
    | file f =>
      rw [Known, hnode] at hknown
      rw [htype, hknown]
      exact countSkipped_quiet
    | symlink behind =>
      rw [htype]
      exact countSkipped_quiet
    | other =>
      rw [htype]
      exact countSkipped_quiet
  | some node =>
    rw [hnode, Option.map_some, Option.map_eq_some_iff] at hfound
    obtain ⟨node', rfl, hsame⟩ := hfound
    have hid : node'.nodeId = node.nodeId := by
      show node'.uncached.nodeId = node.uncached.nodeId
      rw [hsame]
    have hcurrent : node'.currentVersionId = node.currentVersionId := by
      show node'.uncached.currentVersionId = node.uncached.currentVersionId
      rw [hsame]
    cases e with
    | dir =>
      rw [htype]
      refine enqueue_quiet ?_ hentry
      rw [hid, hpath]
      exact placedAt_of_getNodeByParentAndName hplaced hnode
    | file f =>
      rw [Known, hnode] at hknown
      obtain ⟨version, hversion, hsize, hhash⟩ := hknown
      rw [htype]
      rw [← hcurrent] at hversion
      exact processExistingFile_quiet hfails hentry hversion hsize hhash
    | symlink behind =>
      rw [htype]
      exact countSkipped_quiet
    | other =>
      rw [htype]
      exact countSkipped_quiet

/-- The entry is one of the directory. -/
def Listed (d : Disk FileData) (dir : Path) (entry : EntryInfo) : Prop :=
  entry.path = dir ++ [entry.name] ∧ ∃ e, d.lstat entry.path = some e ∧ entry.type = entryType e

theorem readEntries_quiet (hfails : ∀ n, env.fails n = false) (hdir : d.lstat p = some .dir) {names : List String}
    (hnames : ∀ n ∈ names, n ∈ d.names p) :
    (readEntries env p names).Preserves (Quiet env m d start) fun r => ∀ entry ∈ r.1, Listed d p entry := by
  induction names with
  | nil =>
    apply Proc.Preserves.pure
    intro entry hentry
    cases hentry
  | cons n names ih =>
    have hstands : (d.lstat (p ++ [n])).isSome := by
      rw [lstat_append, if_pos (isDir_eq.mpr hdir)]
      exact mem_names.mp (hnames n List.mem_cons_self)
    obtain ⟨e, he⟩ := Option.isSome_iff_exists.mp hstands
    refine (fsCall_quiet hfails).bind fun u hu => ?_
    rw [hu]
    have hmetadata : (symlinkMetadata env (p ++ [n])).Preserves (Quiet env m d start) fun type =>
        type = some (entryType e) := by
      apply (fsCall_quiet hfails).mono
      intro type htype
      rw [htype, he]
      rfl
    refine hmetadata.bind fun type htype => ?_
    rw [htype]
    refine (ih fun n' hn' => hnames n' (List.mem_cons_of_mem _ hn')).bind fun r hr => .pure ?_
    intro entry hentry
    rcases List.mem_cons.mp hentry with rfl | hentry
    · exact ⟨rfl, e, he, rfl⟩
    · exact hr entry hentry

theorem processEntries_quiet (hfails : ∀ n, env.fails n = false) (h : Settled env m d start)
    (hplaced : placedAt (m.liveNodes env.folderId) start nodeId p) {entries : List EntryInfo}
    (hentries : ∀ entry ∈ entries, Listed d p entry) :
    (processEntries env nodeId entries).Preserves (Quiet env m d start) fun _ => True := by
  induction entries with
  | nil => exact .pure True.intro
  | cons entry entries ih =>
    obtain ⟨hpath, e, hentry, htype⟩ := hentries entry List.mem_cons_self
    exact (processEntry_quiet hfails h hplaced hpath hentry htype).bind fun _ _ =>
      ih fun other hother => hentries other (List.mem_cons_of_mem _ hother)

theorem recordListed_quiet {names : List String} {complete : Bool} :
    (recordListed p names complete).Preserves (Quiet env m d start) fun _ => True := by
  rw [recordListed]
  split
  · apply Proc.Preserves.act
    · intro s h
      exact ⟨h.sent, h.errors, h.disk, h.tree, h.queue⟩
    · intro s h
      trivial
  · exact .pure True.intro

/-- **A directory.** -/
theorem processDir_quiet (hfails : ∀ n, env.fails n = false) (h : Settled env m d start)
    (hplaced : placedAt (m.liveNodes env.folderId) start nodeId p) (hdir : d.lstat p = some .dir) :
    (processDir env p nodeId).Preserves (Quiet env m d start) fun _ => True := by
  refine ensureNotUpdateRequired_quiet.bind fun _ _ => ?_
  refine Proc.Preserves.bind (P := fun names => names = some (d.names p)) ?_ fun names hnames => ?_
  · apply (fsCall_quiet hfails).mono
    intro names hnames
    rw [hnames, if_pos (isDir_eq.mpr hdir)]
  · rw [hnames]
    refine (readEntries_quiet hfails hdir fun n hn => hn).bind fun r hr => ?_
    refine recordListed_quiet.bind fun _ _ => processEntries_quiet hfails h hplaced fun entry hentry => ?_
    exact hr entry ((List.mem_insertionSort _).mp hentry)

/-- **The walk**, by induction on its turns. -/
theorem walk_quiet (hfails : ∀ n, env.fails n = false) (h : Settled env m d start) (fuel : ℕ) :
    (walk env fuel).Preserves (Quiet env m d start) fun _ => True := by
  induction fuel with
  | zero => exact .fail
  | succ fuel ih =>
    refine popQueue_quiet.bind fun next hnext => ?_
    cases next with
    | none => exact .pure True.intro
    | some e =>
      obtain ⟨hplaced, hdir⟩ := hnext e rfl
      exact (processDir_quiet hfails h hplaced hdir).bind fun _ _ => ih

/-! ### The sweep -/

variable {nodes : List LocalNode}

/-- The nodes that a pass reads have the places they had before it. -/
theorem placedAt_of_livePath (hnodes : nodes.map LocalNode.uncached = (m.liveNodes env.folderId).map LocalNode.uncached)
    (hpath : LivePath nodes start nodeId p) : placedAt (m.liveNodes env.folderId) start nodeId p := by
  induction hpath with
  | seed => exact .start
  | @child parentId path node _ hnode ih =>
    obtain ⟨hmem, hparent⟩ := List.mem_filter.mp hnode
    obtain ⟨row, hrow, hsame⟩ := List.mem_map.mp (hnodes ▸ List.mem_map_of_mem hmem)
    have hid : row.nodeId = node.nodeId := by
      show row.uncached.nodeId = node.uncached.nodeId
      rw [hsame]
    have hname : row.name = node.name := by
      show row.uncached.name = node.uncached.name
      rw [hsame]
    have hlink : row.parentId = some parentId := by
      show row.uncached.parentId = some parentId
      rw [hsame]
      exact of_decide_eq_true hparent
    rw [← hid, ← hname]
    exact Placed.child ih hrow hlink

/-- **A node**, whose entry is there or whose content never was. -/
theorem sweepNode_quiet (hfails : ∀ n, env.fails n = false) {node : LocalNode}
    (hpresent : env.finds d p = true ∨ node.nodeType = .file ∧ node.currentVersionId = none) :
    (sweepNode env nodes node p).Preserves (Quiet env m d start) fun _ => True := by
  refine (pathExists_quiet hfails).bind fun found hfound => ?_
  split
  · exact .pure True.intro
  next hmissing =>
    have hempty : node.nodeType = .file ∧ node.currentVersionId = none := by
      apply hpresent.resolve_left
      rw [← hfound]
      exact hmissing
    have hjudge : (.read fun s => shouldDelete s.mirror nodes env.fuel node : PushProc _).Preserves
        (Quiet env m d start) fun judged => judged = some false := by
      apply Proc.Preserves.read
      intro s _
      rw [shouldDelete, hempty.1, hempty.2]
      rfl
    refine hjudge.bind fun judged hjudged => ?_
    rw [hjudged]
    exact .pure True.intro

/-- **The children of a node.** -/
theorem sweepChildren_quiet (hfails : ∀ n, env.fails n = false) (h : Settled env m d start)
    (hnodes : nodes.map LocalNode.uncached = (m.liveNodes env.folderId).map LocalNode.uncached) {deferred : List String}
    {children : List LocalNode} {w : Sweep} (hchildren : ∀ node ∈ children, node ∈ childrenOf nodes nodeId)
    (hw : w.Live nodes start) (hknown : ∃ path, (nodeId, path) ∈ w.paths) :
    (sweepChildren env nodes deferred nodeId children w).Preserves (Quiet env m d start) fun w' =>
      w'.Live nodes start := by
  induction children generalizing w with
  | nil => exact .pure hw
  | cons node rest ih =>
    have hrest : ∀ r ∈ rest, r ∈ childrenOf nodes nodeId := fun r hr => hchildren r (List.mem_cons_of_mem _ hr)
    refine ensureNotUpdateRequired_quiet.bind fun _ _ => ?_
    split
    · exact ih hrest hw hknown
    · have hnode := hchildren node List.mem_cons_self
      have hlive := (hw.path hknown).child hnode
      have hpresent : env.finds d (w.path nodeId ++ [node.name]) = true ∨
          node.nodeType = .file ∧ node.currentVersionId = none := by
        obtain ⟨hmem, hparent⟩ := List.mem_filter.mp hnode
        obtain ⟨row, hrow, hsame⟩ := List.mem_map.mp (hnodes ▸ List.mem_map_of_mem hmem)
        have hlink : row.uncached.parentId = some nodeId := hsame ▸ of_decide_eq_true hparent
        have hrowPresent := h.present row hrow nodeId _ (placedAt_of_livePath hnodes (hw.path hknown)) hlink
        show env.finds d (w.path nodeId ++ [node.uncached.name]) = true ∨
          node.uncached.nodeType = .file ∧ node.uncached.currentVersionId = none
        rw [← hsame]
        exact hrowPresent
      obtain ⟨path, hpath⟩ := hknown
      exact (sweepNode_quiet hfails hpresent).bind fun _ _ =>
        ih hrest (hw.reach hlive) ⟨path, List.mem_cons_of_mem _ hpath⟩

/-- **The sweep**, by induction on its turns. -/
theorem sweep_quiet (hfails : ∀ n, env.fails n = false) (h : Settled env m d start)
    (hnodes : nodes.map LocalNode.uncached = (m.liveNodes env.folderId).map LocalNode.uncached) {deferred : List String}
    (fuel : ℕ) {w : Sweep} (hw : w.Live nodes start) :
    (sweep env nodes deferred fuel w).Preserves (Quiet env m d start) fun _ => True := by
  induction fuel generalizing w with
  | zero => exact .fail
  | succ fuel ih =>
    rw [sweep]
    split
    · exact .pure True.intro
    next parentId queue hqueue =>
      have hknown : ∃ path, (parentId, path) ∈ w.paths := hw.known parentId (by simp [hqueue])
      have hpop : Sweep.Live nodes start { w with queue } :=
        ⟨fun id hid => hw.known id (by simp [hqueue, hid]), hw.paths⟩
      exact (sweepChildren_quiet hfails h hnodes (fun _ hr => hr) hpop hknown).bind fun w' hw' => ih hw'

/-- **What is behind the walk.** -/
theorem submitDeletesForMissing_quiet (hfails : ∀ n, env.fails n = false) (h : Settled env m d start) :
    (submitDeletesForMissing env).Preserves (Quiet env m d start) fun _ => True := by
  refine ensureNotUpdateRequired_quiet.bind fun _ _ => ?_
  have hread : (.read fun s => s.mirror.liveNodes env.folderId : PushProc _).Preserves (Quiet env m d start)
      fun nodes => nodes.map LocalNode.uncached = (m.liveNodes env.folderId).map LocalNode.uncached := by
    apply Proc.Preserves.read
    intro s hs
    exact hs.tree.liveNodes env.folderId
  have hdeferred : (.read fun s => s.deferred : PushProc _).Preserves (Quiet env m d start) fun _ => True :=
    .read fun _ _ => True.intro
  refine hread.bind fun nodes hnodes => hdeferred.bind fun deferred _ => ?_
  cases hseed : seedNode env nodes with
  | none => exact .pure True.intro
  | some seed =>
    have hid : seed.nodeId = start := by
      have hsame : (seedNode env nodes).map LocalNode.uncached =
          (seedNode env (m.liveNodes env.folderId)).map LocalNode.uncached := by
        rw [seedNode, seedNode]
        split <;> exact find_uncached hnodes fun _ => rfl
      rw [hseed] at hsame
      obtain ⟨row, hrow, huncached⟩ := Option.map_eq_some_iff.mp hsame.symm
      rw [← h.seed row hrow]
      show seed.uncached.nodeId = row.uncached.nodeId
      rw [huncached]
    have hlive : (Sweep.start seed).Live nodes start := by
      refine ⟨fun id hid => ⟨[], ?_⟩, fun id path hpath => ?_⟩
      · rw [List.mem_singleton.mp hid]
        exact List.mem_singleton_self _
      · cases List.mem_singleton.mp hpath
        rw [← hid]
        exact .seed
    exact sweep_quiet hfails h hnodes env.fuel hlive

/-! ### The pass -/

theorem pushTree_quiet (hfails : ∀ n, env.fails n = false) (h : Settled env m d start) :
    (pushTree env).Preserves (Quiet env m d start) fun _ => True := by
  refine ensureNotUpdateRequired_quiet.bind fun _ _ => ?_
  have hread : (.read fun s => s.mirror.getRootNode env.folderId : PushProc _).Preserves (Quiet env m d start)
      fun found => found.map LocalNode.uncached = (m.getRootNode env.folderId).map LocalNode.uncached := by
    apply Proc.Preserves.read
    intro s hs
    exact hs.tree.getRootNode
  refine hread.bind fun found hfound => ?_
  cases found with
  | none => exact .fail
  | some root' =>
    obtain ⟨root, hroot, hsame⟩ := Option.map_eq_some_iff.mp hfound.symm
    have hid : env.scopeNodeId.getD root'.nodeId = start := by
      rw [← h.root root hroot]
      show env.scopeNodeId.getD root'.uncached.nodeId = env.scopeNodeId.getD root.uncached.nodeId
      rw [hsame]
    dsimp only
    rw [hid]
    exact (enqueue_quiet .start h.top).bind fun _ _ => walk_quiet hfails h env.fuel

/-- **A pass** over a settled mount, wherever it is stopped. -/
theorem pushLocal_quiet (hfails : ∀ n, env.fails n = false) (h : Settled env m d start) (k : ℕ) :
    Quiet env m d start ((pushLocal env).stateAfter k { mirror := m, disk := d }) := by
  have hstart : Quiet env m d start { mirror := m, disk := d } :=
    ⟨rfl, rfl, rfl, .refl m, fun e he => absurd he List.not_mem_nil⟩
  have hpass : (pushLocal env).Preserves (Quiet env m d start) fun _ => True :=
    (pushTree_quiet hfails h).bind fun _ _ => submitDeletesForMissing_quiet hfails h
  exact hpass.always hstart k

end Quiet

/-- **A settled mount.**  Wherever it is stopped, a pass over it has sent nothing, has counted no error, has left the
disk as it was and has changed no more of the mirror than push caches. -/
theorem settled_mount_pushes_nothing (env : PushEnv) (m : Mirror) (d : Disk FileData) (start : String)
    (h : Settled env m d start) (hfails : ∀ n, env.fails n = false) (k : ℕ) :
    let s := (pushLocal env).stateAfter k { mirror := m, disk := d }
    s.sent = [] ∧ s.summary.errors = 0 ∧ s.disk = d ∧ SameTree m s.mirror := by
  have hquiet := pushLocal_quiet hfails h k
  exact ⟨hquiet.sent, hquiet.errors, hquiet.disk, hquiet.tree⟩

end Valv.Client
