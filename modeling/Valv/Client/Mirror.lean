import Valv.Server.Delta

/-!
# The local mirror

The client's SQLite database: the tables of `persistence/schema.sql` and the functions of
`persistence/` that read and write them, in `crates/valv-sync`.

* `Mirror`: the tables.
* `applyOpLogEntry`, `applyTreeSnapshot`: what a pull writes.
* `node_applyOpLogEntry_ne`: an op shows in its own node's row only.
-/

namespace Valv.Client

open Valv.Table Valv.Server

/-! ### Rows -/

/-- A row of `nodes` in the local database: the client's copy of a node, with what the push has last seen of its
file. -/
structure LocalNode where
  nodeId : String
  folderId : String
  parentId : Option String
  name : String
  nodeType : NodeType
  currentVersionId : Option String := none
  serverSeq : ℕ
  deletedAt : Option ℕ := none
  pushedSizeBytes : Option ℕ := none
  pushedMtimeNanos : Option ℕ := none
  deriving DecidableEq, Repr

/-- The columns `upsert_node` sets, over a row that is there already. -/
def LocalNode.keepPushCache (r old : LocalNode) : LocalNode :=
  { r with pushedSizeBytes := old.pushedSizeBytes, pushedMtimeNanos := old.pushedMtimeNanos }

/-- `versions`. -/
structure LocalVersion where
  versionId : String
  nodeId : String
  folderId : String
  contentHash : String
  sizeBytes : ℕ
  manifest : List ChunkRef
  contentMaterialized : Bool := false
  deriving DecidableEq, Repr

/-- A row of `mounts`, as far as the mirror needs it: the folder, the scope node and the cursor. -/
structure LocalMount where
  folderId : String
  scopeNodeId : Option String := none
  cursor : ℕ := 0
  deriving DecidableEq, Repr

/-- The tables of the local database. The mirror is what the client knows of the server, and each of its rows may be
behind. -/
structure Mirror where
  mounts : List LocalMount := []
  nodes : List LocalNode := []
  versions : List LocalVersion := []
  uploadedChunks : List String := []
  deriving DecidableEq, Repr

/-- Why a pulled op cannot be applied to the mirror. Each is an error of the pull, and leaves the page and the
cursor as they were. -/
inductive MirrorError where
  | missingParent (nodeId parentId : String)
  | newVersionOfUnknownNode (nodeId : String)
  | unknownNodeAfterApply (opType nodeId : String)
  | regressed (upToSeq cursor : ℕ)
  deriving DecidableEq, Repr

def MirrorError.text : MirrorError → String
  | .missingParent nodeId parentId =>
    "create op `" ++ nodeId ++ "` is missing folder_id and parent `" ++ parentId ++
      "` is not in the local mirror"
  | .newVersionOfUnknownNode nodeId => "new_version op references unknown node `" ++ nodeId ++ "`"
  | .unknownNodeAfterApply opType nodeId =>
    "op `" ++ opType ++ "` references unknown node `" ++ nodeId ++ "` after apply"
  | .regressed upToSeq cursor =>
    "delta up_to_seq " ++ toString upToSeq ++ " regressed below local cursor " ++ toString cursor

namespace Mirror

variable (m : Mirror)

/-! ### Queries -/

/-- `get_node`. -/
def getNode (nodeId : String) : Option LocalNode := lookup LocalNode.nodeId nodeId m.nodes

/-- `get_node_by_parent_and_name`: live nodes only. -/
def getNodeByParentAndName (folderId : String) (parentId : Option String) (name : String) :
    Option LocalNode :=
  m.nodes.find? fun r =>
    r.folderId = folderId && r.parentId = parentId && r.name = name && r.deletedAt.isNone

/-- `get_root_node`. -/
def getRootNode (folderId : String) : Option LocalNode :=
  ((m.nodes.filter fun r => r.folderId = folderId && r.parentId.isNone && r.deletedAt.isNone).insertionSort
    fun a b => a.serverSeq ≤ b.serverSeq).head?

/-- `get_version`. -/
def getVersion (versionId : String) : Option LocalVersion :=
  lookup LocalVersion.versionId versionId m.versions

/-- `get_cursor`. -/
def getCursor (folderId : String) : ℕ :=
  (lookup LocalMount.folderId folderId m.mounts).elim 0 LocalMount.cursor

/-- `is_uploaded`. -/
def isUploaded (chunkHash : String) : Bool := chunkHash ∈ m.uploadedChunks

/-! ### Statements -/

/-- `UPDATE nodes SET … WHERE node_id = …`. -/
def updateNode (nodeId : String) (f : LocalNode → LocalNode) : Mirror :=
  { m with nodes := update LocalNode.nodeId nodeId f m.nodes }

/-- `upsert_node`; a row that is there keeps its push cache. -/
def upsertNode (r : LocalNode) : Mirror :=
  { m with nodes := upsert LocalNode.nodeId r r.keepPushCache m.nodes }

/-- `upsert_version`; a row that is there keeps its materialization mark. -/
def upsertVersion (r : LocalVersion) : Mirror :=
  { m with
    versions := upsert LocalVersion.versionId r
      (fun old => { r with contentMaterialized := old.contentMaterialized }) m.versions }

/-- `set_cursor`. -/
def setCursor (folderId : String) (seq : ℕ) : Mirror :=
  { m with mounts := update LocalMount.folderId folderId (fun r => { r with cursor := seq }) m.mounts }

/-- `mark_uploaded`. -/
def markUploaded (chunkHash : String) : Mirror :=
  { m with uploadedChunks :=
      if chunkHash ∈ m.uploadedChunks then m.uploadedChunks else m.uploadedChunks ++ [chunkHash] }

/-- `mark_content_materialized`. -/
def markContentMaterialized (versionId : String) : Mirror :=
  { m with versions :=
      update LocalVersion.versionId versionId (fun r => { r with contentMaterialized := true }) m.versions }

/-- `mark_deleted`. -/
def markDeleted (nodeId : String) (serverSeq now : ℕ) : Mirror :=
  m.updateNode nodeId fun r => { r with deletedAt := some now, serverSeq }

/-- `update_pushed_cache`. -/
def updatePushedCache (nodeId : String) (sizeBytes mtimeNanos : ℕ) : Mirror :=
  m.updateNode nodeId fun r =>
    { r with pushedSizeBytes := some sizeBytes, pushedMtimeNanos := some mtimeNanos }

/-! ### Pulled ops -/

/-- `apply_create`.  The server's payload has no `folder_id`, so it is the parent's. -/
def applyCreate (entry : OpLogEntry) (parentId name : String) (nodeType : NodeType) :
    Except MirrorError Mirror :=
  match m.getNode parentId with
  | none => .error (.missingParent entry.nodeId parentId)
  | some parent => .ok (m.upsertNode
      { nodeId := entry.nodeId, folderId := parent.folderId, parentId := some parentId, name, nodeType,
        serverSeq := entry.serverSeq })

/-- The current version and `server_seq` a new version leaves in its node's row; a conflict
copy leaves the current version alone. -/
def recordVersion (nodeId versionId : String) (serverSeq : ℕ) (isConflictCopy : Bool) : Mirror :=
  if isConflictCopy then m.updateNode nodeId fun r => { r with serverSeq }
  else m.updateNode nodeId fun r => { r with currentVersionId := some versionId, serverSeq }

/-- `apply_new_version`. -/
def applyNewVersion (entry : OpLogEntry) (versionId contentHash : String) (sizeBytes : ℕ)
    (manifest : List ChunkRef) (isConflictCopy : Bool) : Except MirrorError Mirror :=
  match m.getNode entry.nodeId with
  | none => .error (.newVersionOfUnknownNode entry.nodeId)
  | some node => .ok ((m.upsertVersion
      { versionId, nodeId := entry.nodeId, folderId := node.folderId, contentHash, sizeBytes, manifest })
        |>.recordVersion entry.nodeId versionId entry.serverSeq isConflictCopy)

/-- The `match` of `apply_op_log_entry`. -/
def applyPayload (now : ℕ) (entry : OpLogEntry) : Except MirrorError Mirror :=
  match entry.payload with
  | .create _ parentId name nodeType => m.applyCreate entry parentId name nodeType
  | .rename newName =>
    .ok (m.updateNode entry.nodeId fun r => { r with name := newName, serverSeq := entry.serverSeq })
  | .move newParentId =>
    .ok (m.updateNode entry.nodeId fun r =>
      { r with parentId := some newParentId, serverSeq := entry.serverSeq })
  | .delete => .ok (m.markDeleted entry.nodeId entry.serverSeq now)
  | .newVersion versionId contentHash sizeBytes manifest isConflictCopy =>
    m.applyNewVersion entry versionId contentHash sizeBytes manifest isConflictCopy

end Mirror

/-- The op creates its node. -/
def isCreate (entry : OpLogEntry) : Bool :=
  match entry.payload with
  | .create _ _ _ _ => true
  | _ => false

/-- The op is passed over: the node's row has its `server_seq` already. -/
def Mirror.stale (m : Mirror) (entry : OpLogEntry) : Bool :=
  !isCreate entry && (m.getNode entry.nodeId).any fun node => entry.serverSeq ≤ node.serverSeq

/-- `apply_op_log_entry`; the node's row before the op is what it returns. -/
def Mirror.applyOpLogEntry (m : Mirror) (now : ℕ) (entry : OpLogEntry) : Except MirrorError Mirror :=
  if m.stale entry then .ok m else m.applyPayload now entry

/-- `insert_snapshot_node`. -/
def Mirror.insertSnapshotNode (folderId : String) (m : Mirror) (node : NodeSnapshot) : Mirror :=
  m.upsertNode
    { nodeId := node.nodeId, folderId, parentId := node.parentId, name := node.name,
      nodeType := node.type, currentVersionId := node.currentVersionId, serverSeq := node.serverSeq,
      deletedAt := node.deletedAt }

/-- `apply_tree_snapshot`, one transaction. -/
def Mirror.applyTreeSnapshot (m : Mirror) (folderId : String) (resp : FolderTreeResponse) : Mirror :=
  (resp.nodes.foldl (Mirror.insertSnapshotNode folderId)
    { m with
      versions := m.versions.filter fun r => r.folderId ≠ folderId
      nodes := m.nodes.filter fun r => r.folderId ≠ folderId }).setCursor folderId resp.upToSeq

/-! ### What the statements leave alone -/

section Lemmas

variable {m m' : Mirror} {nodeId k : String}

@[simp] theorem getNode_updateNode_self {f : LocalNode → LocalNode} (hf : ∀ r, (f r).nodeId = r.nodeId) :
    (m.updateNode nodeId f).getNode nodeId = (m.getNode nodeId).map f :=
  lookup_update_self fun r hr => (hf r).trans hr

theorem getNode_updateNode_ne {f : LocalNode → LocalNode} (hf : ∀ r, (f r).nodeId = r.nodeId)
    (hk : k ≠ nodeId) : (m.updateNode nodeId f).getNode k = m.getNode k :=
  lookup_update_ne hk fun r hr => (hf r).trans hr

theorem getNode_upsertNode_self (r : LocalNode) : (m.upsertNode r).getNode r.nodeId =
    some (((m.getNode r.nodeId).map r.keepPushCache).getD r) :=
  lookup_upsert_self fun _ _ => rfl

theorem getNode_upsertNode_ne (r : LocalNode) (hk : k ≠ r.nodeId) :
    (m.upsertNode r).getNode k = m.getNode k :=
  lookup_upsert_ne hk fun _ _ => rfl

@[simp] theorem getNode_upsertVersion (r : LocalVersion) : (m.upsertVersion r).getNode k = m.getNode k :=
  rfl

@[simp] theorem getNode_setCursor (folderId : String) (seq : ℕ) :
    (m.setCursor folderId seq).getNode k = m.getNode k := rfl

theorem mem_markUploaded {chunkHash hash : String} :
    hash ∈ (m.markUploaded chunkHash).uploadedChunks ↔ hash ∈ m.uploadedChunks ∨ hash = chunkHash := by
  rw [Mirror.markUploaded]
  by_cases hmem : chunkHash ∈ m.uploadedChunks
  · simp only [hmem, if_true]
    exact ⟨.inl, fun h => h.elim id fun heq => heq ▸ hmem⟩
  · simp [hmem]

@[simp] theorem getNode_markUploaded (chunkHash : String) :
    (m.markUploaded chunkHash).getNode k = m.getNode k := rfl

theorem getNode_recordVersion_ne {versionId : String} {serverSeq : ℕ} {isConflictCopy : Bool}
    (hk : k ≠ nodeId) :
    (m.recordVersion nodeId versionId serverSeq isConflictCopy).getNode k = m.getNode k := by
  rw [Mirror.recordVersion]
  split
  · exact getNode_updateNode_ne (fun _ => rfl) hk
  · exact getNode_updateNode_ne (fun _ => rfl) hk

/-- **Frame**: a pulled op shows in its own node's row only. -/
theorem getNode_applyOpLogEntry_ne {now : ℕ} {entry : OpLogEntry}
    (h : m.applyOpLogEntry now entry = .ok m') (hk : k ≠ entry.nodeId) : m'.getNode k = m.getNode k := by
  rw [Mirror.applyOpLogEntry] at h
  split at h
  · cases h
    rfl
  rw [Mirror.applyPayload] at h
  split at h
  · rw [Mirror.applyCreate] at h
    split at h
    · cases h
    · cases h
      exact getNode_upsertNode_ne _ hk
  · cases h
    exact getNode_updateNode_ne (fun _ => rfl) hk
  · cases h
    exact getNode_updateNode_ne (fun _ => rfl) hk
  · cases h
    exact getNode_updateNode_ne (fun _ => rfl) hk
  · rw [Mirror.applyNewVersion] at h
    split at h
    · cases h
    · cases h
      exact getNode_recordVersion_ne hk

/-! ### The primary key -/

theorem nodup_updateNode {f : LocalNode → LocalNode} (hf : ∀ r, (f r).nodeId = r.nodeId)
    (hnd : (m.nodes.map LocalNode.nodeId).Nodup) : ((m.updateNode nodeId f).nodes.map LocalNode.nodeId).Nodup := by
  have hmap : (update LocalNode.nodeId nodeId f m.nodes).map LocalNode.nodeId = m.nodes.map LocalNode.nodeId :=
    map_key_update fun r hr => (hf r).trans hr
  rw [Mirror.updateNode, hmap]
  exact hnd

theorem nodup_upsertNode (r : LocalNode) (hnd : (m.nodes.map LocalNode.nodeId).Nodup) :
    ((m.upsertNode r).nodes.map LocalNode.nodeId).Nodup :=
  nodup_upsert (fun _ _ => rfl) hnd

theorem nodup_recordVersion {versionId : String} {serverSeq : ℕ} {isConflictCopy : Bool}
    (hnd : (m.nodes.map LocalNode.nodeId).Nodup) :
    ((m.recordVersion nodeId versionId serverSeq isConflictCopy).nodes.map LocalNode.nodeId).Nodup := by
  rw [Mirror.recordVersion]
  split
  · exact nodup_updateNode (fun _ => rfl) hnd
  · exact nodup_updateNode (fun _ => rfl) hnd

/-- A pulled op leaves one row for a node. -/
theorem nodup_applyOpLogEntry {now : ℕ} {entry : OpLogEntry} (hnd : (m.nodes.map LocalNode.nodeId).Nodup)
    (h : m.applyOpLogEntry now entry = .ok m') : (m'.nodes.map LocalNode.nodeId).Nodup := by
  rw [Mirror.applyOpLogEntry] at h
  split at h
  · cases h
    exact hnd
  rw [Mirror.applyPayload] at h
  split at h
  · rw [Mirror.applyCreate] at h
    split at h
    · cases h
    · cases h
      exact nodup_upsertNode _ hnd
  · cases h
    exact nodup_updateNode (fun _ => rfl) hnd
  · cases h
    exact nodup_updateNode (fun _ => rfl) hnd
  · cases h
    exact nodup_updateNode (fun _ => rfl) hnd
  · rw [Mirror.applyNewVersion] at h
    split at h
    · cases h
    · cases h
      exact nodup_recordVersion hnd

/-- So does a snapshot. -/
theorem nodup_applyTreeSnapshot {folderId : String} {resp : FolderTreeResponse}
    (hnd : (m.nodes.map LocalNode.nodeId).Nodup) :
    ((m.applyTreeSnapshot folderId resp).nodes.map LocalNode.nodeId).Nodup := by
  have hfold : ∀ (nodes : List NodeSnapshot) (m' : Mirror), (m'.nodes.map LocalNode.nodeId).Nodup →
      ((nodes.foldl (Mirror.insertSnapshotNode folderId) m').nodes.map LocalNode.nodeId).Nodup := by
    intro nodes
    induction nodes with
    | nil => exact fun m' hm' => hm'
    | cons node nodes ih => exact fun m' hm' => ih _ (nodup_upsertNode _ hm')
  exact hfold resp.nodes _ (hnd.sublist (List.filter_sublist.map _))

end Lemmas

end Valv.Client
