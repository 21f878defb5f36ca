import Valv.Daemon.Cleanup

/-!
# Paths and nodes

`node_abs_path` goes from a node up to the root or the scope node of its mount; `resolve_path_to_node` and the
watcher's `resolve_abs_path` go down from there again.

* `nodeAbsPath`, `resolvePathToNode`, `resolveAbsPath`: the walks, with the file system's canonical paths.
* `PathsAgree`: what is asked for.
* `PathsOk`: the condition on the mirror and the mounts.
* `roundTrip_iff`, `neverOther_iff`: a node, and a path.
* `path_resolution_inverts`, `path_resolution_differs`: all of them.
-/

namespace Valv.Daemon

open Valv.Table Valv.Paths Valv.Traverse

/-! ### The walks -/

section Walks

variable (canon : String → Option PathBuf) (m : Client.Mirror) (mounts : List MountState)

/-- The walk of `node_abs_path` up to the scope node or a root, its names from the top; `fuel` bounds the loop. -/
def segmentsUp (nodes : List Client.LocalNode) (scopeNodeId : Option String) : ℕ → String → Option (List String)
  | 0, _ => none
  | fuel + 1, nodeId =>
    match lookup Client.LocalNode.nodeId nodeId nodes with
    | none => none
    | some node =>
      if scopeNodeId = some node.nodeId then some []
      else node.parentId.elim (some []) fun parentId =>
        (segmentsUp nodes scopeNodeId fuel parentId).map fun names => names ++ [node.name]

/-- `node_abs_path`, over the nodes of the mount's folder. -/
def nodeAbsPath (mount : MountState) (nodeId : String) : Option PathBuf :=
  (segmentsUp (folderNodes m mount) mount.scopeNodeId (folderNodes m mount).length nodeId).map
    fun names => names.foldl join (components mount.path)

/-- `normalize_path`. -/
def normalizePath (path : String) : PathBuf := (canon path).getD (components path)

/-- `Iterator::max_by_key`: the last of the greatest. -/
def maxByKey {α : Type} (f : α → ℕ) : List α → Option α
  | [] => none
  | a :: l =>
    match maxByKey f l with
    | none => some a
    | some b => if f a ≤ f b then some b else some a

/-- The mount that contains the path, and what is left of it. -/
def mountOf (localPath : PathBuf) : Option (MountState × PathBuf) :=
  (maxByKey (fun e => e.2.2) (mounts.filterMap fun mount =>
    (stripPrefix (normalizePath canon mount.path) localPath).map fun relative =>
      (mount, relative, (normalizePath canon mount.path).length))).map fun e => (e.1, e.2.1)

/-- Where the walk down starts. -/
def startNode (mount : MountState) : Option Client.LocalNode :=
  match mount.scopeNodeId with
  | some scopeNodeId => m.getNode scopeNodeId
  | none => m.getRootNode mount.folderId

/-- The walk down; what is not a plain name is passed over. -/
def descend (folderId : String) : Client.LocalNode → PathBuf → Option Client.LocalNode
  | current, [] => some current
  | current, .normal name :: rest =>
    match m.getNodeByParentAndName folderId (some current.nodeId) name with
    | none => none
    | some next => descend folderId next rest
  | current, _ :: rest => descend folderId current rest

inductive PathResolutionError where
  | notInMount
  | nodeNotSynced
  deriving DecidableEq, Repr

structure ResolvedPath where
  mount : MountState
  folderId : String
  nodeId : String
  deriving DecidableEq, Repr

/-- `resolve_path_to_node`. -/
def resolvePathToNode (path : String) : Except PathResolutionError ResolvedPath :=
  match mountOf canon mounts (normalizePath canon path) with
  | none => .error .notInMount
  | some (mount, relative) =>
    match (startNode m mount).bind fun start => descend m mount.folderId start relative with
    | none => .error .nodeNotSynced
    | some node => .ok { mount, folderId := mount.folderId, nodeId := node.nodeId }

inductive WatchPathError where
  | outsideMount
  | unsupportedComponent
  deriving DecidableEq, Repr

/-- The loop of `resolve_abs_path`; only plain names are understood. -/
def descendStrictly (folderId : String) : Client.LocalNode → PathBuf → Except WatchPathError (Option Client.LocalNode)
  | current, [] => .ok (some current)
  | current, .normal name :: rest =>
    match m.getNodeByParentAndName folderId (some current.nodeId) name with
    | none => .ok none
    | some next => descendStrictly folderId next rest
  | _, _ :: _ => .error .unsupportedComponent

/-- `resolve_abs_path` of the watcher. -/
def resolveAbsPath (mountRoot : PathBuf) (folderId : String) (absPath : PathBuf) :
    Except WatchPathError (Option Client.LocalNode) :=
  match stripPrefix mountRoot absPath with
  | none => .error .outsideMount
  | some rel =>
    match m.getRootNode folderId with
    | none => .ok none
    | some root => descendStrictly m folderId root rel

end Walks

/-! ### What is asked for -/

section Spec

variable (canon : String → Option PathBuf) (m : Client.Mirror) (mounts : List MountState)

/-- A mirror that is a forest, with different names for the live nodes in one folder; the names have no separator and
are not made of dots. -/
structure MirrorTree : Prop where
  keys : (m.nodes.map Client.LocalNode.nodeId).Nodup
  siblings : ∀ a ∈ m.nodes, ∀ b ∈ m.nodes, a.deletedAt = none → b.deletedAt = none → a.folderId = b.folderId →
    a.parentId.isSome → a.parentId = b.parentId → a.name = b.name → a = b
  names : ∀ a ∈ m.nodes, a.deletedAt = none → a.parentId.isSome → a.name ≠ "" → Plain a.name
  depth : ∃ depth : String → ℕ, ∀ a ∈ m.nodes, ∀ p, a.parentId = some p → depth p < depth a.nodeId

/-- The mounts of a daemon: each folder is mounted once, and a scope node is in its mount's folder. -/
structure MountSet : Prop where
  folders : (mounts.map MountState.folderId).Nodup
  scopes : ∀ mount ∈ mounts, ∀ start, startNode m mount = some start → start.folderId = mount.folderId

/-- `node` is reached from `start` through the children of each node in turn, and these are the names on the way
down. -/
def NamedFrom (nodes : List Client.LocalNode) (start : Client.LocalNode) (nodeId : String) (names : List String) : Prop :=
  Placed Client.LocalNode.nodeId Client.LocalNode.parentId nodes (fun path node => path ++ [node.name])
    start.nodeId [] nodeId names

/-- `mount` contains the path, and no mount that does has a longer path. Paths are compared name by name, with `.`
and `..` resolved as the source does it. -/
def InnermostMount (mount : MountState) (path rest : PathBuf) : Prop :=
  mount ∈ mounts ∧ path = normalize (components mount.path) ++ rest ∧
    ∀ other ∈ mounts, normalize (components other.path) <+: path →
      (normalize (components other.path)).length ≤ (normalize (components mount.path)).length

/-- The live node that the lexically normalised path denotes: the innermost mount that contains the path is taken,
and from its start node the names of the rest of the path are followed down to the node. -/
def Denotes (path : String) (nodeId : String) : Prop :=
  ∃ mount names, InnermostMount mounts mount (normalize (components path)) (names.map .normal) ∧
    ∃ start, startNode m mount = some start ∧ NamedFrom (liveNodes m mount) start nodeId names ∧
      ∃ node ∈ liveNodes m mount, node.nodeId = nodeId

/-- From the path of a node both walks lead back to the node: the one of the File Provider, which takes any spelling
of the path, and that of the watcher. -/
def RoundTrip (mount : MountState) (node : Client.LocalNode) : Prop :=
  ∀ path, nodeAbsPath m mount node.nodeId = some path →
    (∀ query, components query = path →
      ∃ r, resolvePathToNode canon m mounts query = .ok r ∧ r.nodeId = node.nodeId) ∧
    resolveAbsPath m (components mount.path) mount.folderId path = .ok (some node)

/-- Where the resolution answers at all, the node it answers is the one that the path denotes. An answer with
another node would make the daemon act on a file that was not named. -/
def NeverOther (path : String) : Prop :=
  ∀ r, resolvePathToNode canon m mounts path = .ok r → Denotes m mounts path r.nodeId

/-- A live node of the mount that is reached from the root or the scope node of the mount, through rows of the
folder that may be tombstones. -/
def BelowMount (mount : MountState) (start node : Client.LocalNode) (names : List String) : Prop :=
  startNode m mount = some start ∧ node ∈ liveNodes m mount ∧
    NamedFrom (folderNodes m mount) start node.nodeId names

/-- Paths and nodes agree in both directions: each live node below a mount has a path and both walks lead from it to
the node, and a path never leads to another node than it denotes. -/
def PathsAgree : Prop :=
  (∀ mount ∈ mounts, ∀ start node names, BelowMount m mount start node names →
    ∃ path, nodeAbsPath m mount node.nodeId = some path ∧ RoundTrip canon m mounts mount node) ∧
  ∀ path, NeverOther canon m mounts path

/-! ### The condition -/

/-- `mount` is the one that `resolve_path_to_node` takes for the path: the last of those with the longest canonical
path among the mounts that contain the path's canonical form. -/
def CanonicalMount (path : String) (mount : MountState) (rest : PathBuf) : Prop :=
  normalizePath canon path = normalizePath canon mount.path ++ rest ∧
  ∃ before after, mounts = before ++ mount :: after ∧
    (∀ other ∈ before, normalizePath canon other.path <+: normalizePath canon path →
      (normalizePath canon other.path).length ≤ (normalizePath canon mount.path).length) ∧
    ∀ other ∈ after, normalizePath canon other.path <+: normalizePath canon path →
      (normalizePath canon other.path).length < (normalizePath canon mount.path).length

/-- The plain names of a path. -/
def plainNames (path : PathBuf) : List String :=
  path.filterMap fun component =>
    match component with
    | .normal name => some name
    | _ => none

/-- The mount is unscoped or its scope node is the root, every node on the way is live and has a name, and the
canonical form of the path is that of the mount with these names, not below another mount. -/
structure RoundTripOk (mount : MountState) (start node : Client.LocalNode) (names : List String) : Prop where
  root : m.getRootNode mount.folderId = some start
  live : NamedFrom (liveNodes m mount) start node.nodeId names
  named : "" ∉ names
  canonical : ∀ query, components query = names.foldl join (components mount.path) →
    ∃ rest, CanonicalMount canon mounts query mount rest ∧ plainNames rest = names

/-- Where the plain names behind the mount lead to a live node, canonicalisation has found the mount and the names
that the path has lexically; a path without names is that of a live node. -/
def NeverOtherOk (path : String) : Prop :=
  ∀ mount rest start nodeId, CanonicalMount canon mounts path mount rest → startNode m mount = some start →
    NamedFrom (liveNodes m mount) start nodeId (plainNames rest) →
    InnermostMount mounts mount (normalize (components path)) ((plainNames rest).map .normal) ∧
      (plainNames rest = [] → start.deletedAt = none)

def PathsOk : Prop :=
  (∀ mount ∈ mounts, ∀ start node names, BelowMount m mount start node names →
    RoundTripOk canon m mounts mount start node names) ∧
  ∀ path, NeverOtherOk canon m mounts path

end Spec

/-! ### Choosing the mount -/

/-- The last of the greatest: none before it is greater, and all behind it are smaller. -/
theorem maxByKey_eq_some {α : Type} {f : α → ℕ} {l : List α} {a : α} :
    maxByKey f l = some a ↔
      ∃ before after, l = before ++ a :: after ∧ (∀ b ∈ before, f b ≤ f a) ∧ ∀ b ∈ after, f b < f a := by
  induction l generalizing a with
  | nil => simp [maxByKey]
  | cons c l ih =>
    rw [maxByKey]
    cases hrest : maxByKey f l with
    | none =>
      have hnil : l = [] := by
        cases l with
        | nil => rfl
        | cons d l =>
          rw [maxByKey] at hrest
          split at hrest
          · cases hrest
          · split at hrest <;> cases hrest
      subst hnil
      constructor
      · intro h
        cases h
        exact ⟨[], [], rfl, by simp, by simp⟩
      · rintro ⟨before, after, hl, -, -⟩
        cases before with
        | nil =>
          cases hl
          rfl
        | cons b before => simp at hl
    | some b =>
      obtain ⟨before, after, hl, hbefore, hafter⟩ := ih.1 hrest
      have hb : ∀ d ∈ l, f d ≤ f b := by
        intro d hd
        rw [hl] at hd
        rcases List.mem_append.1 hd with hd | hd
        · exact hbefore d hd
        · rcases List.mem_cons.1 hd with rfl | hd
          · exact Nat.le_refl _
          · exact Nat.le_of_lt (hafter d hd)
      have hbl : b ∈ l := by
        rw [hl]
        exact List.mem_append_right _ List.mem_cons_self
      by_cases hle : f c ≤ f b
      · simp only [if_pos hle, Option.some.injEq]
        constructor
        · rintro rfl
          refine ⟨c :: before, after, by rw [hl, List.cons_append], ?_, hafter⟩
          intro d hd
          rcases List.mem_cons.1 hd with rfl | hd
          · exact hle
          · exact hbefore d hd
        · rintro ⟨before', after', hl', hbefore', hafter'⟩
          cases before' with
          | nil =>
            cases hl'
            exact absurd (hafter' b hbl) (by omega)
          | cons d before' =>
            cases hl'
            have hmax := ih.2 ⟨before', after', rfl, fun e he => hbefore' e (List.mem_cons_of_mem _ he), hafter'⟩
            exact Option.some.inj (hrest.symm.trans hmax)
      · simp only [if_neg hle, Option.some.injEq]
        constructor
        · rintro rfl
          refine ⟨[], l, rfl, by simp, ?_⟩
          intro d hd
          have hd := hb d hd
          omega
        · rintro ⟨before', after', hl', hbefore', hafter'⟩
          cases before' with
          | nil =>
            cases hl'
            rfl
          | cons d before' =>
            cases hl'
            have hmem : a ∈ before' ++ a :: after' := List.mem_append_right _ List.mem_cons_self
            have hac := hbefore' c List.mem_cons_self
            have hba := hb a hmem
            omega

section Resolve

variable {canon : String → Option PathBuf} {m : Client.Mirror} {mounts : List MountState} {mount : MountState}
  {path : String} {rest : PathBuf} {start node : Client.LocalNode} {names : List String} {nodeId : String}

theorem mountOf_eq_some :
    mountOf canon mounts (normalizePath canon path) = some (mount, rest) ↔ CanonicalMount canon mounts path mount rest := by
  rw [mountOf, Option.map_eq_some_iff]
  constructor
  · rintro ⟨⟨mount', rest', n⟩, hmax, he⟩
    cases he
    obtain ⟨before, after, hl, hbefore, hafter⟩ := maxByKey_eq_some.1 hmax
    obtain ⟨l₁, l₂, rfl, h₁, h₂⟩ := List.filterMap_eq_append_iff.1 hl
    obtain ⟨l₃, mount', l₄, rfl, h₃, hmount, h₄⟩ := List.filterMap_eq_cons_iff.1 h₂
    obtain ⟨rel, hrel, he⟩ := Option.map_eq_some_iff.1 hmount
    cases he
    have hcand : ∀ other : MountState, normalizePath canon other.path <+: normalizePath canon path →
        ∃ rel, stripPrefix (normalizePath canon other.path) (normalizePath canon path) = some rel := by
      intro other hstarts
      exact ⟨_, if_pos hstarts⟩
    refine ⟨stripPrefix_eq_some.1 hrel, l₁ ++ l₃, l₄, by simp, ?_, ?_⟩
    · intro other hother hstarts
      obtain ⟨rel', hrel'⟩ := hcand other hstarts
      rcases List.mem_append.1 hother with hother | hother
      · refine hbefore (other, rel', _) ?_
        rw [← h₁]
        exact List.mem_filterMap.2 ⟨other, hother, by rw [hrel']; rfl⟩
      · have hnone := h₃ other hother
        rw [hrel'] at hnone
        cases hnone
    · intro other hother hstarts
      obtain ⟨rel', hrel'⟩ := hcand other hstarts
      refine hafter (other, rel', _) ?_
      rw [← h₄]
      exact List.mem_filterMap.2 ⟨other, hother, by rw [hrel']; rfl⟩
  · rintro ⟨hpath, before, after, rfl, hbefore, hafter⟩
    refine ⟨(mount, rest, (normalizePath canon mount.path).length), maxByKey_eq_some.2 ?_, rfl⟩
    have hhead : stripPrefix (normalizePath canon mount.path) (normalizePath canon path) = some rest :=
      stripPrefix_eq_some.2 hpath
    refine ⟨_, _, by rw [List.filterMap_append, List.filterMap_cons, hhead]; rfl, ?_, ?_⟩
    · intro e he
      obtain ⟨other, hother, he⟩ := List.mem_filterMap.1 he
      obtain ⟨rel, hrel, rfl⟩ := Option.map_eq_some_iff.1 he
      exact hbefore other hother ⟨rel, (stripPrefix_eq_some.1 hrel).symm⟩
    · intro e he
      obtain ⟨other, hother, he⟩ := List.mem_filterMap.1 he
      obtain ⟨rel, hrel, rfl⟩ := Option.map_eq_some_iff.1 he
      exact hafter other hother ⟨rel, (stripPrefix_eq_some.1 hrel).symm⟩

/-! ### Going down -/

theorem mem_liveNodes : node ∈ liveNodes m mount ↔
    node ∈ m.nodes ∧ node.folderId = mount.folderId ∧ node.deletedAt = none := by
  simp only [liveNodes, folderNodes, List.mem_filter, decide_eq_true_eq, Option.isNone_iff_eq_none, and_assoc]

theorem liveNodes_subset : liveNodes m mount ⊆ folderNodes m mount := List.filter_subset_self _

theorem folderNodes_subset : folderNodes m mount ⊆ m.nodes := List.filter_subset_self _

theorem mem_of_getNodeByParentAndName {parentId name : String}
    (h : m.getNodeByParentAndName mount.folderId (some parentId) name = some node) :
    node ∈ liveNodes m mount ∧ node.parentId = some parentId ∧ node.name = name := by
  have hmem : node ∈ m.nodes := List.mem_of_find?_eq_some h
  have hp := List.find?_some h
  simp only [Bool.and_eq_true, decide_eq_true_eq, Option.isNone_iff_eq_none] at hp
  obtain ⟨⟨⟨hfolder, hparent⟩, hname⟩, hlive⟩ := hp
  exact ⟨mem_liveNodes.2 ⟨hmem, hfolder, hlive⟩, hparent, hname⟩

/-- A live node is found by its parent and its name. -/
theorem getNodeByParentAndName_of_mem (hm : MirrorTree m) {parentId : String} (hnode : node ∈ liveNodes m mount)
    (hparent : node.parentId = some parentId) :
    m.getNodeByParentAndName mount.folderId (some parentId) node.name = some node := by
  obtain ⟨hmem, hfolder, hlive⟩ := mem_liveNodes.1 hnode
  cases hfind : m.getNodeByParentAndName mount.folderId (some parentId) node.name with
  | none =>
    have hnot := List.find?_eq_none.1 hfind node hmem
    simp [hfolder, hparent, hlive] at hnot
  | some node' =>
    obtain ⟨hnode', hparent', hname'⟩ := mem_of_getNodeByParentAndName hfind
    obtain ⟨hmem', hfolder', hlive'⟩ := mem_liveNodes.1 hnode'
    rw [hm.siblings node' hmem' node hmem hlive' hlive (hfolder'.trans hfolder.symm) (by rw [hparent']; rfl)
      (hparent'.trans hparent.symm) hname']

theorem descend_append {folderId : String} {before after : PathBuf} {current : Client.LocalNode} :
    descend m folderId current (before ++ after)
      = (descend m folderId current before).bind fun next => descend m folderId next after := by
  induction before generalizing current with
  | nil => rfl
  | cons component before ih =>
    cases component with
    | normal name =>
      rw [List.cons_append, descend, descend]
      cases m.getNodeByParentAndName folderId (some current.nodeId) name with
      | none => rfl
      | some next => exact ih
    | rootDir => exact ih
    | curDir => exact ih
    | parentDir => exact ih

theorem descend_plainNames {folderId : String} {current : Client.LocalNode} :
    descend m folderId current rest = descend m folderId current ((plainNames rest).map .normal) := by
  induction rest generalizing current with
  | nil => rfl
  | cons component rest ih =>
    cases component with
    | normal name =>
      show descend m folderId current (.normal name :: rest)
        = descend m folderId current (.normal name :: (plainNames rest).map .normal)
      rw [descend, descend]
      cases m.getNodeByParentAndName folderId (some current.nodeId) name with
      | none => rfl
      | some next => exact ih
    | rootDir => exact ih
    | curDir => exact ih
    | parentDir => exact ih

/-- The walk down leads along live nodes. -/
theorem placed_of_descend {current : Client.LocalNode} (above : List String)
    (h : descend m mount.folderId current (names.map .normal) = some node) :
    Placed Client.LocalNode.nodeId Client.LocalNode.parentId (liveNodes m mount) (fun path node => path ++ [node.name])
      current.nodeId above node.nodeId (above ++ names) ∧ (names = [] ∧ node = current ∨ node ∈ liveNodes m mount) := by
  induction names generalizing current above with
  | nil =>
    cases h
    rw [List.append_nil]
    exact ⟨.start, Or.inl ⟨rfl, rfl⟩⟩
  | cons name names ih =>
    rw [List.map_cons, descend] at h
    cases hnext : m.getNodeByParentAndName mount.folderId (some current.nodeId) name with
    | none =>
      rw [hnext] at h
      cases h
    | some next =>
      rw [hnext] at h
      obtain ⟨hlive, hparent, hname⟩ := mem_of_getNodeByParentAndName hnext
      obtain ⟨hplaced, hnode⟩ := ih (above ++ [name]) h
      have hlist : above ++ [name] ++ names = above ++ name :: names := by simp
      rw [hlist, ← hname] at hplaced
      refine ⟨?_, Or.inr ?_⟩
      · rw [← hname]
        exact hplaced.cons hlive hparent
      · rcases hnode with ⟨-, rfl⟩ | hnode
        · exact hlive
        · exact hnode

/-- Whatever is below the start along live nodes is reached by its names. -/
theorem descend_of_placed (hm : MirrorTree m) (h : NamedFrom (liveNodes m mount) start nodeId names) :
    ∃ node, descend m mount.folderId start (names.map .normal) = some node ∧ node.nodeId = nodeId := by
  rw [NamedFrom] at h
  induction h with
  | start => exact ⟨start, rfl, rfl⟩
  | @child p path c _ hc hlink ih =>
    obtain ⟨parent, hparent, rfl⟩ := ih
    refine ⟨c, ?_, rfl⟩
    rw [List.map_append, descend_append, hparent]
    show descend m mount.folderId parent [.normal c.name] = some c
    rw [descend, getNodeByParentAndName_of_mem hm hc hlink]
    rfl

/-! ### Going up -/

theorem mem_of_getRootNode {folderId : String} (h : m.getRootNode folderId = some start) :
    start ∈ m.nodes ∧ start.folderId = folderId ∧ start.parentId = none ∧ start.deletedAt = none := by
  have hmem := List.mem_of_mem_head? h
  rw [List.mem_insertionSort, List.mem_filter] at hmem
  obtain ⟨hmem, hp⟩ := hmem
  simp only [Bool.and_eq_true, decide_eq_true_eq, Option.isNone_iff_eq_none] at hp
  exact ⟨hmem, hp.1.1, hp.1.2, hp.2⟩

/-- The walk down starts where the walk up ends. -/
theorem startNode_cases (h : startNode m mount = some start) :
    start ∈ m.nodes ∧ (mount.scopeNodeId = some start.nodeId ∨
      mount.scopeNodeId = none ∧ m.getRootNode mount.folderId = some start) := by
  rw [startNode] at h
  cases hscope : mount.scopeNodeId with
  | some scopeNodeId =>
    rw [hscope] at h
    have hkey : start.nodeId = scopeNodeId := lookup_key h
    exact ⟨mem_of_lookup h, Or.inl (by rw [hkey])⟩
  | none =>
    rw [hscope] at h
    exact ⟨(mem_of_getRootNode h).1, Or.inr ⟨rfl, h⟩⟩

theorem start_mem_folderNodes (hset : MountSet m mounts) (hmount : mount ∈ mounts)
    (hstart : startNode m mount = some start) : start ∈ folderNodes m mount :=
  List.mem_filter.2 ⟨(startNode_cases hstart).1, decide_eq_true (hset.scopes mount hmount start hstart)⟩

theorem nodup_folderNodes (hm : MirrorTree m) : ((folderNodes m mount).map Client.LocalNode.nodeId).Nodup :=
  hm.keys.sublist (List.filter_sublist.map _)

/-- The nodes on the way up are all different. -/
theorem length_lt_of_named (hm : MirrorTree m) (hstart : start ∈ folderNodes m mount)
    (h : NamedFrom (folderNodes m mount) start nodeId names) : names.length < (folderNodes m mount).length := by
  obtain ⟨depth, hdepth⟩ := hm.depth
  have hchain : ∃ ids : List String, ids.length = names.length + 1 ∧ ids.Nodup ∧
      ids ⊆ (folderNodes m mount).map Client.LocalNode.nodeId ∧ ∀ id ∈ ids, depth id ≤ depth nodeId := by
    rw [NamedFrom] at h
    induction h with
    | start =>
      refine ⟨[start.nodeId], rfl, by simp, ?_, by simp⟩
      intro id hid
      rw [List.mem_singleton.1 hid]
      exact List.mem_map_of_mem hstart
    | @child p path c _ hc hlink ih =>
      obtain ⟨ids, hlen, hnodup, hsub, hle⟩ := ih
      have hlt := hdepth c (folderNodes_subset hc) p hlink
      refine ⟨c.nodeId :: ids, by simp [hlen], List.nodup_cons.2 ⟨?_, hnodup⟩, ?_, ?_⟩
      · intro hmem
        have hcle := hle c.nodeId hmem
        omega
      · intro id hid
        rcases List.mem_cons.1 hid with rfl | hid
        · exact List.mem_map_of_mem hc
        · exact hsub hid
      · intro id hid
        rcases List.mem_cons.1 hid with rfl | hid
        · exact Nat.le_refl _
        · have hidle := hle id hid
          omega
  obtain ⟨ids, hlen, hnodup, hsub, -⟩ := hchain
  have hle := (List.Nodup.subperm hnodup hsub).length_le
  rw [List.length_map] at hle
  omega

/-- **The walk up** gives the names from the start down. -/
theorem segmentsUp_of_named (hm : MirrorTree m) (hset : MountSet m mounts) (hmount : mount ∈ mounts)
    (hstart : startNode m mount = some start) (h : NamedFrom (folderNodes m mount) start nodeId names) {fuel : ℕ}
    (hfuel : names.length < fuel) :
    segmentsUp (folderNodes m mount) mount.scopeNodeId fuel nodeId = some names := by
  obtain ⟨depth, hdepth⟩ := hm.depth
  have hdepth' : ∀ r ∈ folderNodes m mount, ∀ q, r.parentId = some q → depth q < depth r.nodeId :=
    fun r hr => hdepth r (folderNodes_subset hr)
  have hmem := start_mem_folderNodes hset hmount hstart
  obtain ⟨-, hscope⟩ := startNode_cases hstart
  rw [NamedFrom] at h
  induction h generalizing fuel with
  | start =>
    cases fuel with
    | zero => simp at hfuel
    | succ fuel =>
      rw [segmentsUp, lookup_of_mem (nodup_folderNodes hm) hmem]
      rcases hscope with hscope | ⟨hscope, hroot⟩
      · simp [hscope]
      · simp [hscope, (mem_of_getRootNode hroot).2.2.1]
  | @child p path c hp hc hlink ih =>
    cases fuel with
    | zero => simp at hfuel
    | succ fuel =>
      have hne : mount.scopeNodeId ≠ some c.nodeId := by
        intro he
        rcases hscope with hscope | ⟨hscope, -⟩
        · rw [hscope] at he
          exact hp.key_ne hdepth' hc hlink (Option.some.inj he).symm
        · rw [hscope] at he
          cases he
      rw [List.length_append, List.length_singleton] at hfuel
      have hup : segmentsUp (folderNodes m mount) mount.scopeNodeId fuel p = some path := ih (by omega)
      rw [segmentsUp, lookup_of_mem (nodup_folderNodes hm) hc]
      simp [hne, hlink, hup]

/-- The path of a node below a mount. -/
theorem nodeAbsPath_of_named (hm : MirrorTree m) (hset : MountSet m mounts) (hmount : mount ∈ mounts)
    (hstart : startNode m mount = some start) (h : NamedFrom (folderNodes m mount) start nodeId names) :
    nodeAbsPath m mount nodeId = some (names.foldl join (components mount.path)) := by
  have hlt := length_lt_of_named hm (start_mem_folderNodes hset hmount hstart) h
  rw [nodeAbsPath, segmentsUp_of_named hm hset hmount hstart h hlt]
  rfl

/-! ### Names -/

/-- Plain names go behind the path, and empty ones do not show. -/
theorem foldl_join {base : PathBuf} (h : ∀ name ∈ names, name ≠ "" → Plain name) :
    names.foldl join base = base ++ (names.filter fun name => name ≠ "").map .normal := by
  induction names generalizing base with
  | nil => simp
  | cons name names ih =>
    have htail : ∀ name' ∈ names, name' ≠ "" → Plain name' := fun name' hname' => h name' (List.mem_cons_of_mem _ hname')
    rw [List.foldl_cons, ih htail]
    by_cases hempty : name = ""
    · have hjoin : join base "" = base := by
        by_cases hbase : base = []
        · rw [hbase]
          decide
        · have hpieces : (pieces "").filterMap piece = [] := by decide
          rw [join, if_neg (by simp [hbase, isAbsolute]), hpieces, List.append_nil]
      rw [hempty, hjoin]
      simp
    · rw [join_plain (h name List.mem_cons_self hempty)]
      simp [hempty]

/-- Names on a way along live nodes. -/
theorem plain_of_named (hm : MirrorTree m) (h : NamedFrom (liveNodes m mount) start nodeId names) :
    ∀ name ∈ names, name ≠ "" → Plain name := by
  rw [NamedFrom] at h
  induction h with
  | start => simp
  | @child p path c _ hc hlink ih =>
    intro name hname hne
    rcases List.mem_append.1 hname with hname | hname
    · exact ih name hname hne
    · obtain ⟨hmem, -, hlive⟩ := mem_liveNodes.1 hc
      rw [List.mem_singleton.1 hname] at hne ⊢
      exact hm.names c hmem hlive (by rw [hlink]; rfl) hne

/-- Only the start has no names. -/
theorem eq_start_of_named {nodes : List Client.LocalNode} (h : NamedFrom nodes start nodeId names) (hnil : names = []) :
    nodeId = start.nodeId := by
  rw [NamedFrom] at h
  induction h with
  | start => rfl
  | child _ _ _ _ => simp at hnil

/-- What is below the start is on the way from the root. -/
theorem named_split (hm : MirrorTree m) {root : Client.LocalNode} {rootNames : List String}
    (htop : root.parentId = none) (hroot : root ∈ m.nodes)
    (h : NamedFrom (liveNodes m mount) root nodeId rootNames)
    (h' : NamedFrom (folderNodes m mount) start nodeId names) :
    ∃ above, NamedFrom (liveNodes m mount) root start.nodeId above ∧
      NamedFrom (liveNodes m mount) start nodeId names ∧ rootNames = above ++ names := by
  rw [NamedFrom] at h'
  induction h' generalizing rootNames with
  | start => exact ⟨rootNames, h, .start, by simp⟩
  | @child p path c hp hc hlink ih =>
    rw [NamedFrom] at h
    generalize hk : c.nodeId = k at h
    cases h with
    | start =>
      have he : c = root := List.inj_on_of_nodup_map hm.keys (folderNodes_subset hc) hroot hk
      rw [he, htop] at hlink
      cases hlink
    | @child q path' d hq hd hlink' =>
      have he : c = d :=
        List.inj_on_of_nodup_map hm.keys (folderNodes_subset hc) (folderNodes_subset (liveNodes_subset hd)) hk
      subst he
      rw [hlink] at hlink'
      cases hlink'
      obtain ⟨above, habove, hbelow, rfl⟩ := ih hq
      exact ⟨above, habove, hbelow.child hd hlink, by simp⟩

/-! ### There and back -/

theorem resolvePathToNode_eq_ok {r : ResolvedPath} (h : resolvePathToNode canon m mounts path = .ok r) :
    ∃ mount rest start node, CanonicalMount canon mounts path mount rest ∧ startNode m mount = some start ∧
      descend m mount.folderId start ((plainNames rest).map .normal) = some node ∧ r.nodeId = node.nodeId := by
  rw [resolvePathToNode] at h
  cases hmount : mountOf canon mounts (normalizePath canon path) with
  | none =>
    rw [hmount] at h
    cases h
  | some e =>
    obtain ⟨mount, rest⟩ := e
    simp only [hmount] at h
    cases hnode : (startNode m mount).bind fun start => descend m mount.folderId start rest with
    | none =>
      rw [hnode] at h
      cases h
    | some node =>
      rw [hnode] at h
      cases h
      obtain ⟨start, hstart, hdescend⟩ := Option.bind_eq_some_iff.1 hnode
      rw [descend_plainNames] at hdescend
      exact ⟨mount, rest, start, node, mountOf_eq_some.1 hmount, hstart, hdescend, rfl⟩

theorem resolvePathToNode_of (hcanon : CanonicalMount canon mounts path mount rest)
    (hstart : startNode m mount = some start)
    (hdescend : descend m mount.folderId start ((plainNames rest).map .normal) = some node) :
    resolvePathToNode canon m mounts path = .ok { mount, folderId := mount.folderId, nodeId := node.nodeId } := by
  have hnode : ((startNode m mount).bind fun start => descend m mount.folderId start rest) = some node := by
    rw [hstart, Option.bind_some, descend_plainNames]
    exact hdescend
  rw [resolvePathToNode, mountOf_eq_some.2 hcanon]
  simp only [hnode]

theorem CanonicalMount.mem (h : CanonicalMount canon mounts path mount rest) : mount ∈ mounts := by
  obtain ⟨-, before, after, rfl, -⟩ := h
  exact List.mem_append_right _ List.mem_cons_self

/-- A node that is walked to is in the folder of the mount. -/
theorem mem_folderNodes_of_descend (hset : MountSet m mounts) (hmount : mount ∈ mounts)
    (hstart : startNode m mount = some start)
    (h : descend m mount.folderId start (names.map .normal) = some node) : node ∈ folderNodes m mount := by
  obtain ⟨-, ⟨-, rfl⟩ | hlive⟩ := placed_of_descend [] h
  · exact start_mem_folderNodes hset hmount hstart
  · exact liveNodes_subset hlive

/-- A node is in the folder of one mount. -/
theorem mount_unique (hm : MirrorTree m) (hset : MountSet m mounts) {mount' : MountState} {node' : Client.LocalNode}
    (hmount : mount ∈ mounts) (hmount' : mount' ∈ mounts) (hnode : node ∈ folderNodes m mount)
    (hnode' : node' ∈ folderNodes m mount') (he : node.nodeId = node'.nodeId) : mount = mount' ∧ node = node' := by
  have hsame : node = node' :=
    List.inj_on_of_nodup_map hm.keys (folderNodes_subset hnode) (folderNodes_subset hnode') he
  have hfolder : node.folderId = mount.folderId := by simpa using (List.mem_filter.1 hnode).2
  have hfolder' : node'.folderId = mount'.folderId := by simpa using (List.mem_filter.1 hnode').2
  rw [← hsame, hfolder] at hfolder'
  exact ⟨List.inj_on_of_nodup_map hset.folders hmount hmount' hfolder', hsame⟩

/-- A node below a mount has one list of names. -/
theorem names_unique (hm : MirrorTree m) {names' : List String}
    (h : NamedFrom (folderNodes m mount) start nodeId names) (h' : NamedFrom (liveNodes m mount) start nodeId names') :
    names = names' := by
  obtain ⟨depth, hdepth⟩ := hm.depth
  exact Placed.unique (fun r hr => hdepth r (folderNodes_subset hr)) (nodup_folderNodes hm) h
    (h'.mono liveNodes_subset)

/-- `resolve_path_to_node` finds the node of a path in exactly the mirrors whose nodes on the way are live, as long as
canonicalisation keeps to the mount and its names. -/
theorem resolvesTo_iff (hm : MirrorTree m) (hset : MountSet m mounts) (hmount : mount ∈ mounts)
    (h : BelowMount m mount start node names) :
    (∃ r, resolvePathToNode canon m mounts path = .ok r ∧ r.nodeId = node.nodeId) ↔
      NamedFrom (liveNodes m mount) start node.nodeId names ∧
        ∃ rest, CanonicalMount canon mounts path mount rest ∧ plainNames rest = names := by
  obtain ⟨hstart, hnode, hnamed⟩ := h
  constructor
  · rintro ⟨r, hr, he⟩
    obtain ⟨mount', rest, start', node', hcanon, hstart', hdescend, hid⟩ := resolvePathToNode_eq_ok hr
    have hnode' := mem_folderNodes_of_descend hset hcanon.mem hstart' hdescend
    obtain ⟨rfl, rfl⟩ := mount_unique hm hset hmount hcanon.mem (liveNodes_subset hnode) hnode' (he.symm.trans hid)
    rw [hstart] at hstart'
    cases hstart'
    have hlive := (placed_of_descend [] hdescend).1
    rw [List.nil_append] at hlive
    rw [names_unique hm hnamed hlive]
    exact ⟨hlive, rest, hcanon, rfl⟩
  · rintro ⟨hlive, rest, hcanon, rfl⟩
    obtain ⟨node', hdescend, hid⟩ := descend_of_placed hm hlive
    exact ⟨_, resolvePathToNode_of hcanon hstart hdescend, hid⟩

/-- What is no plain name is not among names. -/
theorem cons_ne_names {component : Component} (h : ∀ name, component ≠ .normal name) :
    component :: rest ≠ names.map .normal := by
  intro he
  have hmem : component ∈ names.map Component.normal := he ▸ List.mem_cons_self
  obtain ⟨name, -, hname⟩ := List.mem_map.1 hmem
  exact h name hname.symm

/-- The strict walk, where it ends in a node. -/
theorem descendStrictly_eq_ok {folderId : String} {current : Client.LocalNode} :
    descendStrictly m folderId current rest = .ok (some node) ↔
      rest = (plainNames rest).map .normal ∧ descend m folderId current rest = some node := by
  induction rest generalizing current with
  | nil =>
    rw [descendStrictly, descend]
    simp [plainNames]
  | cons component rest ih =>
    have hcons : ∀ name, plainNames (.normal name :: rest) = name :: plainNames rest := fun _ => rfl
    cases component with
    | normal name =>
      rw [descendStrictly, descend, hcons]
      cases m.getNodeByParentAndName folderId (some current.nodeId) name with
      | none => simp
      | some next => simpa using ih
    | rootDir =>
      constructor
      · intro h
        simp [descendStrictly] at h
      · intro h
        exact absurd h.1 (cons_ne_names (by simp))
    | curDir =>
      constructor
      · intro h
        simp [descendStrictly] at h
      · intro h
        exact absurd h.1 (cons_ne_names (by simp))
    | parentDir =>
      constructor
      · intro h
        simp [descendStrictly] at h
      · intro h
        exact absurd h.1 (cons_ne_names (by simp))

/-- The watcher's walk finds the node of a path in exactly the mounts that start at the root, as long as the nodes on
the way are live and have names. -/
theorem resolveAbsPath_iff (hm : MirrorTree m) (hset : MountSet m mounts) (hmount : mount ∈ mounts)
    (h : BelowMount m mount start node names) :
    resolveAbsPath m (components mount.path) mount.folderId (names.foldl join (components mount.path))
        = .ok (some node) ↔
      m.getRootNode mount.folderId = some start ∧ NamedFrom (liveNodes m mount) start node.nodeId names ∧
        "" ∉ names := by
  obtain ⟨hstart, hnode, hnamed⟩ := h
  have hfilter : "" ∉ names → names.filter (fun name => name ≠ "") = names := by
    intro hnot
    refine List.filter_eq_self.2 fun name hname => ?_
    simpa using fun he : name = "" => hnot (he ▸ hname)
  constructor
  · intro h
    rw [resolveAbsPath] at h
    cases hrel : stripPrefix (components mount.path) (names.foldl join (components mount.path)) with
    | none =>
      rw [hrel] at h
      cases h
    | some rel =>
      cases hroot : m.getRootNode mount.folderId with
      | none =>
        simp [hrel, hroot] at h
      | some root =>
        simp only [hrel, hroot] at h
        obtain ⟨hplain, hdescend⟩ := descendStrictly_eq_ok.1 h
        obtain ⟨hrootMem, -, htop, -⟩ := mem_of_getRootNode hroot
        rw [hplain] at hdescend
        have hfromRoot := (placed_of_descend [] hdescend).1
        rw [List.nil_append] at hfromRoot
        obtain ⟨above, habove, hlive, hnames⟩ := named_split hm htop hrootMem hfromRoot hnamed
        -- the path has no room for names above the start
        have hpath := stripPrefix_eq_some.1 hrel
        rw [foldl_join (plain_of_named hm hlive), List.append_cancel_left_eq, hplain,
          List.map_inj_right (by simp), hnames] at hpath
        have hlen := List.length_filter_le (fun name => decide (name ≠ "")) names
        rw [hpath, List.length_append] at hlen
        have hnil : above = [] := List.length_eq_zero_iff.1 (by omega)
        subst hnil
        rw [List.nil_append] at hpath
        have hkey : start.nodeId = root.nodeId := eq_start_of_named habove rfl
        have hsame : start = root := List.inj_on_of_nodup_map hm.keys (startNode_cases hstart).1 hrootMem hkey
        refine ⟨by rw [hsame], hlive, fun hempty => ?_⟩
        rw [← hpath] at hempty
        simpa using (List.mem_filter.1 hempty).2
  · rintro ⟨hroot, hlive, hnot⟩
    rw [foldl_join (plain_of_named hm hlive), hfilter hnot, resolveAbsPath, stripPrefix_append]
    simp only [hroot]
    have hplain : plainNames (names.map .normal) = names := by
      rw [plainNames, List.filterMap_map]
      exact List.filterMap_some
    rw [descendStrictly_eq_ok, hplain]
    obtain ⟨node', hdescend, hid⟩ := descend_of_placed hm hlive
    have hnode' := mem_folderNodes_of_descend hset hmount hstart hdescend
    obtain ⟨-, rfl⟩ := mount_unique hm hset hmount hmount (liveNodes_subset hnode) hnode' hid.symm
    exact ⟨rfl, hdescend⟩

/-- **A node and its path.** -/
theorem roundTrip_iff (hm : MirrorTree m) (hset : MountSet m mounts) (hmount : mount ∈ mounts)
    (h : BelowMount m mount start node names) :
    (∃ path, nodeAbsPath m mount node.nodeId = some path ∧ RoundTrip canon m mounts mount node) ↔
      RoundTripOk canon m mounts mount start node names := by
  have hpath := nodeAbsPath_of_named hm hset hmount h.1 h.2.2
  constructor
  · rintro ⟨-, -, hback⟩
    obtain ⟨hquery, hwatch⟩ := hback _ hpath
    obtain ⟨hroot, hlive, hnot⟩ := (resolveAbsPath_iff hm hset hmount h).1 hwatch
    exact ⟨hroot, hlive, hnot, fun query he => ((resolvesTo_iff hm hset hmount h).1 (hquery query he)).2⟩
  · intro hok
    refine ⟨_, hpath, ?_⟩
    intro path he
    rw [hpath] at he
    cases he
    exact ⟨fun query he => (resolvesTo_iff hm hset hmount h).2 ⟨hok.live, hok.canonical query he⟩,
      (resolveAbsPath_iff hm hset hmount h).2 ⟨hok.root, hok.live, hok.named⟩⟩

/-- **A path and its node.** -/
theorem neverOther_iff (hm : MirrorTree m) (hset : MountSet m mounts) :
    NeverOther canon m mounts path ↔ NeverOtherOk canon m mounts path := by
  constructor
  · intro h mount rest start nodeId hcanon hstart hlive
    obtain ⟨node, hdescend, rfl⟩ := descend_of_placed hm hlive
    have hnode := mem_folderNodes_of_descend hset hcanon.mem hstart hdescend
    obtain ⟨mount', names', hinner, start', hstart', hlive', node', hnode', hid⟩ :=
      h _ (resolvePathToNode_of hcanon hstart hdescend)
    obtain ⟨rfl, rfl⟩ := mount_unique hm hset hcanon.mem hinner.1 hnode (liveNodes_subset hnode') hid.symm
    rw [hstart] at hstart'
    cases hstart'
    have hnames : plainNames rest = names' := names_unique hm (hlive.mono liveNodes_subset) hlive'
    refine ⟨hnames ▸ hinner, fun hnil => ?_⟩
    rw [hnil] at hdescend
    cases hdescend
    exact (mem_liveNodes.1 hnode').2.2
  · intro h r hr
    obtain ⟨mount, rest, start, node, hcanon, hstart, hdescend, hid⟩ := resolvePathToNode_eq_ok hr
    obtain ⟨hlive, hnode⟩ := placed_of_descend [] hdescend
    rw [List.nil_append] at hlive
    obtain ⟨hinner, hstartLive⟩ := h mount rest start node.nodeId hcanon hstart hlive
    refine ⟨mount, plainNames rest, hinner, start, hstart, hid ▸ hlive, node, ?_, hid.symm⟩
    rcases hnode with ⟨hnil, rfl⟩ | hnode
    · have hmem := start_mem_folderNodes hset hcanon.mem hstart
      exact List.mem_filter.2 ⟨hmem, by simp [hstartLive hnil]⟩
    · exact hnode

/-! ### All nodes and all paths -/

/-- **Paths and nodes agree in exactly the mirrors and mounts that meet the condition.** -/
theorem path_resolution_inverts (canon : String → Option PathBuf) (m : Client.Mirror) (mounts : List MountState)
    (hm : MirrorTree m) (hset : MountSet m mounts) :
    PathsAgree canon m mounts ↔ PathsOk canon m mounts := by
  constructor
  · rintro ⟨hback, hother⟩
    exact ⟨fun mount hmount start node names h => (roundTrip_iff hm hset hmount h).1 (hback mount hmount start node names h),
      fun path => (neverOther_iff hm hset).1 (hother path)⟩
  · rintro ⟨hback, hother⟩
    exact ⟨fun mount hmount start node names h => (roundTrip_iff hm hset hmount h).2 (hback mount hmount start node names h),
      fun path => (neverOther_iff hm hset).2 (hother path)⟩

end Resolve

/-! ### A mount on its own -/

section Lone

variable {m : Client.Mirror} {mount : MountState}

/-- The file system without symbolic links: every path is there, in its normal form. -/
def linkFree (path : String) : Option PathBuf := some (normalize (components path))

theorem plainNames_map {names : List String} : plainNames (names.map .normal) = names := by
  rw [plainNames, List.filterMap_map]
  exact List.filterMap_some

theorem named_live {start : Client.LocalNode} {nodeId : String} {names : List String}
    (hlive : ∀ node ∈ m.nodes, node.deletedAt = none)
    (h : NamedFrom (folderNodes m mount) start nodeId names) : NamedFrom (liveNodes m mount) start nodeId names := by
  refine h.mono fun node hnode => ?_
  exact List.mem_filter.2 ⟨hnode, by simp [hlive node (folderNodes_subset hnode)]⟩

theorem empty_not_mem_of_named {start : Client.LocalNode} {nodeId : String} {names : List String}
    (hnamed : ∀ node ∈ m.nodes, node.parentId.isSome → node.name ≠ "")
    (h : NamedFrom (folderNodes m mount) start nodeId names) : "" ∉ names := by
  rw [NamedFrom] at h
  induction h with
  | start => simp
  | @child p path c _ hc hlink ih =>
    have hname : c.name ≠ "" := hnamed c (folderNodes_subset hc) (by rw [hlink]; rfl)
    simp [ih, hname.symm]

/-- An unscoped mount that is alone, without tombstones, without empty names and without symbolic links. -/
theorem pathsOk_of_lone (hm : MirrorTree m) (hscope : mount.scopeNodeId = none)
    (habsolute : (normalize (components mount.path)).head? = some .rootDir)
    (hlive : ∀ node ∈ m.nodes, node.deletedAt = none)
    (hnamed : ∀ node ∈ m.nodes, node.parentId.isSome → node.name ≠ "") : PathsOk linkFree m [mount] := by
  have hroot : ∀ start, startNode m mount = some start → m.getRootNode mount.folderId = some start := by
    intro start hstart
    rw [startNode, hscope] at hstart
    exact hstart
  constructor
  · intro mount' hmount' start node names h
    have he : mount' = mount := List.mem_singleton.1 hmount'
    subst he
    have hway := named_live hlive h.2.2
    have hnot : "" ∉ names := empty_not_mem_of_named hnamed h.2.2
    refine ⟨hroot start h.1, hway, hnot, fun query hquery => ⟨names.map .normal, ⟨?_, [], [], rfl, by simp, by simp⟩,
      plainNames_map⟩⟩
    have hfilter : names.filter (fun name => name ≠ "") = names :=
      List.filter_eq_self.2 fun name hname => by simpa using fun he : name = "" => hnot (he ▸ hname)
    rw [foldl_join (plain_of_named hm hway), hfilter] at hquery
    show normalize (components query) = normalize (components mount'.path) ++ names.map .normal
    rw [hquery, normalize_plain]
  · intro path mount' rest start nodeId hcanon hstart _
    have he : mount' = mount := List.mem_singleton.1 hcanon.mem
    subst he
    have hpath : normalize (components path) = normalize (components mount'.path) ++ rest := hcanon.1
    obtain ⟨names, rfl⟩ := plain_of_normalize_eq hpath habsolute
    rw [plainNames_map]
    refine ⟨⟨List.mem_singleton_self _, hpath, fun other hother _ => ?_⟩, fun _ => ?_⟩
    · rw [List.mem_singleton.1 hother]
    · exact (mem_of_getRootNode (hroot start hstart)).2.2.2

end Lone

def docsRow (nodeId : String) (parentId : Option String) (name : String) (nodeType : Server.NodeType) (serverSeq : ℕ) :
    Client.LocalNode :=
  { nodeId, folderId := "f", parentId, name, nodeType, serverSeq }

def docsRoot : Client.LocalNode := docsRow "root" none "" .folder 1

def docsSub : Client.LocalNode := docsRow "sub" (some "root") "sub" .folder 2

def docsInner : Client.LocalNode := docsRow "inner" (some "sub") "a.txt" .file 3

/-- `sub`, `sub/a.txt` and `a.txt` in the folder `f`. -/
def docsMirror : Client.Mirror where
  nodes := [docsRoot, docsSub, docsInner, docsRow "outer" (some "root") "a.txt" .file 4]

theorem docsMirror_tree : MirrorTree docsMirror where
  keys := by decide
  siblings := by decide
  names := by decide +kernel
  depth := by
    refine ⟨fun nodeId => if nodeId = "root" then 0 else if nodeId = "inner" then 2 else 1, ?_⟩
    intro a ha p hp
    simp only [docsMirror, List.mem_cons, List.not_mem_nil, or_false] at ha
    rcases ha with rfl | rfl | rfl | rfl <;> cases hp <;> decide

theorem docsMount_set : MountSet docsMirror [docsMount] where
  folders := by decide
  scopes := by
    intro mount hmount start hstart
    rw [List.mem_singleton.1 hmount] at hstart ⊢
    exact (mem_of_getRootNode hstart).2.1

theorem path_resolution_inverts_docs : PathsAgree linkFree docsMirror [docsMount] := by
  apply (path_resolution_inverts linkFree docsMirror [docsMount] docsMirror_tree docsMount_set).2
  exact pathsOk_of_lone docsMirror_tree rfl (by decide) (by decide) (by decide)

/-- A mount of the folder at `sub`. -/
def subMount : MountState := { path := "/sub", folderId := "f", scopeNodeId := some "sub" }

theorem subMount_set : MountSet docsMirror [subMount] where
  folders := by decide
  scopes := by
    intro mount hmount start hstart
    rw [List.mem_singleton.1 hmount] at hstart ⊢
    have hsub : startNode docsMirror subMount = some docsSub := by decide
    rw [hsub] at hstart
    cases hstart
    rfl

/-- **A path is taken for another node.**  Nothing is on the disk: `/docs/sub/../a.txt` is answered with `sub/a.txt`.
And the watcher of a scoped mount looks for `a.txt` below the root. -/
theorem path_resolution_differs :
    ¬ PathsAgree (fun _ => none) docsMirror [docsMount] ∧ ¬ PathsAgree linkFree docsMirror [subMount] := by
  refine ⟨fun h => ?_, fun h => ?_⟩
  · have hok := (neverOther_iff docsMirror_tree docsMount_set).1 (h.2 "/docs/sub/../a.txt")
    have hcanon : CanonicalMount (fun _ => none) [docsMount] "/docs/sub/../a.txt" docsMount
        [.normal "sub", .parentDir, .normal "a.txt"] := ⟨by decide, [], [], rfl, by simp, by simp⟩
    have hroot : startNode docsMirror docsMount = some docsRoot := by decide
    have hsub : NamedFrom (liveNodes docsMirror docsMount) docsRoot "sub" ["sub"] :=
      Placed.child (c := docsSub) Placed.start (by decide) rfl
    have hinner : NamedFrom (liveNodes docsMirror docsMount) docsRoot "inner" ["sub", "a.txt"] :=
      Placed.child (c := docsInner) hsub (by decide) rfl
    obtain ⟨-, hpath, -⟩ := (hok docsMount _ _ _ hcanon hroot hinner).1
    revert hpath
    decide
  · have hstart : startNode docsMirror subMount = some docsSub := by decide
    have hinner : NamedFrom (folderNodes docsMirror subMount) docsSub "inner" ["a.txt"] :=
      Placed.child (c := docsInner) Placed.start (by decide) rfl
    have hbelow : BelowMount docsMirror subMount docsSub docsInner ["a.txt"] := ⟨hstart, by decide, hinner⟩
    have hok := (roundTrip_iff docsMirror_tree subMount_set List.mem_cons_self hbelow).1
      (h.1 subMount List.mem_cons_self _ _ _ hbelow)
    have hroot := hok.root
    revert hroot
    decide

end Valv.Daemon
