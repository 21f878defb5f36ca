import Valv.Server.Authz

/-!
# Submitting ops

`submitOp` of `core/src/metadata/ops.ts` with `inTransaction` of `common.ts`, statement by
statement.  The program is the same on both databases except for what `Backend` says.

* Postgres runs the body in a transaction that locks the node row first.
* SQLite runs the same statements directly on the shared connection.

What `notifyCommitted` tells the websocket hub is left out: it comes after the commit and
never fails the request.
-/

namespace Valv.Server

open Valv.Conc Valv.Table

/-- The database flavour. The two differ in what a transaction is worth, and in how many values a statement may
have. -/
inductive Backend where
  | pg
  | sqlite
  deriving DecidableEq, Repr

/-! ### Requests and responses -/

/-- An op on an existing node. -/
inductive Mutation where
  | rename (newName : String)
  | move (newParentId : String)
  | delete
  | newVersion (versionId contentHash : String) (sizeBytes : ℕ) (manifest : List ChunkRef)
  deriving DecidableEq, Repr

/-- `SubmitOpRequest`: a create, or an op on an existing node with the number it is based on. -/
inductive SubmitOpRequest where
  | create (nodeId parentId name : String) (type : NodeType)
  | mutate (nodeId : String) (basedOnSeq : ℕ) (m : Mutation)
  deriving DecidableEq, Repr

/-- `SubmitOpResponse`: what the server has made of a request that it did not refuse. -/
inductive SubmitOpResponse where
  | applied (serverSeq : ℕ) (nodeId : String)
  | conflictCopy (serverSeq : ℕ) (nodeId conflictVersionId : String)
  | superseded (currentSeq : ℕ)
  deriving DecidableEq, Repr

/-- A call of `submitOp`: its arguments and what `newId()` and `new Date()` return if they
are asked.  `request` is the ghost tag of the rows it inserts. -/
structure SubmitCall where
  folderId : String
  principal : Principal
  op : SubmitOpRequest
  newId : String
  now : ℕ
  request : ℕ
  deriving DecidableEq, Repr

/-- The node an op is about. -/
def SubmitOpRequest.nodeId : SubmitOpRequest → String
  | .create nodeId _ _ _ => nodeId
  | .mutate nodeId _ _ => nodeId

/-- `based_on_seq`; a create has none. -/
def SubmitOpRequest.basedOnSeq : SubmitOpRequest → Option ℕ
  | .create _ _ _ _ => none
  | .mutate _ basedOnSeq _ => some basedOnSeq

/-! ### Transactions and locks -/

/-- `inTransaction`. -/
def inTransaction {α : Type} (be : Backend) (nodeId : String) (fn : DbProc α) : DbProc α :=
  match be with
  | .pg => .transaction fn
  | .sqlite => .unprotected (.node nodeId) fn

/-- Wait for a key: a `FOR UPDATE` row lock, or the entry of a unique index that another
transaction has touched and not yet committed.  SQLite has no such wait. -/
def lockKey (be : Backend) (k : DbKey) : DbProc Unit :=
  match be with
  | .pg => .ctl (.lock k) (pure ())
  | .sqlite => pure ()

def lockKeys (be : Backend) : List DbKey → DbProc Unit
  | [] => pure ()
  | k :: ks => do
    lockKey be k
    lockKeys be ks

/-- The index entries an update of a row touches. -/
def liveNameKeys (r r' : NodeRow) : List DbKey :=
  if r.liveName = r'.liveName then [] else r.liveName.toList ++ r'.liveName.toList

theorem mem_liveName {r : NodeRow} {k : DbKey} (h : r.liveName = some k) :
    ∃ folderId parentId name, k = .liveName folderId parentId name := by
  rw [NodeRow.liveName] at h
  split at h
  · cases h
  · obtain ⟨p, -, rfl⟩ := Option.map_eq_some_iff.mp h
    exact ⟨_, _, _, rfl⟩

theorem mem_liveNameKeys {r r' : NodeRow} {k : DbKey} (h : k ∈ liveNameKeys r r') :
    ∃ folderId parentId name, k = .liveName folderId parentId name := by
  rw [liveNameKeys] at h
  split at h
  · cases h
  · rcases List.mem_append.mp h with h | h
    · exact mem_liveName (Option.mem_toList.mp h)
    · exact mem_liveName (Option.mem_toList.mp h)

/-- `UPDATE nodes` of columns that `nodes_live_name_unique` indexes. -/
def updateNamed (be : Backend) (nodeId : String) (f : NodeRow → NodeRow) : DbProc Unit :=
  match be with
  | .pg => do
    let row ← loadNode nodeId
    lockKeys .pg (row.elim [] fun r => liveNameKeys r (f r))
    updateNodes nodeId f
  | .sqlite => updateNodes nodeId f

/-! ### The op log -/

/-- An op at the end of the log. -/
def Db.appendOp (e : OpLogRow) (s : Db) : Db := { s with opLog := s.opLog ++ [e] }

/-- The row of an op. -/
def opLogRow (call : SubmitCall) (nodeId actorDeviceId : String) (payload : OpPayload)
    (basedOnSeq : Option ℕ) (appliedAt serverSeq : ℕ) : OpLogRow :=
  { serverSeq, folderId := call.folderId, nodeId, payload, basedOnSeq, actorDeviceId, appliedAt,
    request := call.request }

/-- `INSERT INTO op_log`.  Postgres draws the `server_seq` first, and the draw stays even if
the transaction rolls back; SQLite takes it in the statement. -/
def insertOpLog (be : Backend) (call : SubmitCall) (nodeId actorDeviceId : String)
    (payload : OpPayload) (basedOnSeq : Option ℕ) : DbProc Unit :=
  let row := opLogRow call nodeId actorDeviceId payload basedOnSeq
  let check (v : Db) := v.opLogViolation call.folderId actorDeviceId
  match be with
  | .pg => .draw fun n => .stmt check fun v => Db.appendOp (row v.now n)
  | .sqlite => .stmt check fun v s =>
      Db.appendOp (row v.now (s.lastSeq + 1)) (Sequence.bump DbKey s)

/-- The largest `server_seq` of some ops, 0 for none. -/
def maxSeq : List OpLogRow → ℕ
  | [] => 0
  | e :: es => max e.serverSeq (maxSeq es)

/-- `latestSeqForNode`. -/
def latestSeqForNode (folderId nodeId : String) : DbProc ℕ :=
  .read fun s => maxSeq ((s.nodeOps nodeId).filter fun e => e.folderId = folderId)

/-! ### The body of an op -/

/-- `currentVersionManifest`: the manifest of the current version, one join. -/
def currentVersionManifest (nodeId : String) : DbProc (List ChunkRef) :=
  .read fun s => (((s.node nodeId).bind NodeRow.currentVersionId).bind s.version).elim []
    VersionRow.manifest

/-- The distinct chunks of a manifest, in the order of their first use. -/
def chunkHashes (manifest : List ChunkRef) : List String :=
  (manifest.map ChunkRef.chunkHash).eraseDups

/-- The manifest whose chunks lose a reference: a conflict copy replaces nothing. -/
def previousManifest (nodeId : String) (isConflictCopy : Bool) : DbProc (List ChunkRef) :=
  if isConflictCopy then pure [] else currentVersionManifest nodeId

/-- The `version_chunks` rows of a version and one more reference to each chunk. -/
def referenceChunks (versionId nodeId : String) (hashes : List String) : DbProc Unit :=
  if hashes = [] then pure () else do
    insertVersionChunks (hashes.map fun chunkHash => { versionId, nodeId, chunkHash })
    updateRefcounts hashes (· + 1)

/-- One reference less to each chunk; the count stays at 0. -/
def releaseChunks (hashes : List String) : DbProc Unit :=
  if hashes = [] then pure () else updateRefcounts hashes (· - 1)

/-- A new version becomes the current one, unless it is a conflict copy. -/
def replaceCurrent (nodeId versionId : String) (previous : List ChunkRef) (isConflictCopy : Bool) :
    DbProc Unit :=
  if isConflictCopy then pure () else do
    releaseChunks (chunkHashes previous)
    updateNodes nodeId fun r => { r with currentVersionId := some versionId }

/-- The `versions` part of `insertVersionAndOp`. -/
def insertVersion (be : Backend) (nodeId actorDeviceId versionId contentHash : String)
    (sizeBytes : ℕ) (manifest : List ChunkRef) (isConflictCopy : Bool) : DbProc Unit := do
  let previous ← previousManifest nodeId isConflictCopy
  lockKey be (.version versionId)
  insertVersionRow { versionId, nodeId, manifest, contentHash, sizeBytes,
                     authorDeviceId := actorDeviceId, isConflictCopy }
  referenceChunks versionId nodeId (chunkHashes manifest)
  replaceCurrent nodeId versionId previous isConflictCopy

/-- `insertVersionAndOp`; the id of the inserted version, "" for the other ops. -/
def insertVersionAndOp (be : Backend) (call : SubmitCall) (nodeId actorDeviceId : String)
    (basedOnSeq : ℕ) (m : Mutation) (isConflictCopy : Bool) : DbProc String :=
  match m with
  | .newVersion versionId contentHash sizeBytes manifest => do
    let versionId := if isConflictCopy then call.newId else versionId
    insertVersion be nodeId actorDeviceId versionId contentHash sizeBytes manifest isConflictCopy
    insertOpLog be call nodeId actorDeviceId
      (.newVersion versionId contentHash sizeBytes manifest isConflictCopy) (some basedOnSeq)
    pure versionId
  | .rename newName => do
    insertOpLog be call nodeId actorDeviceId (.rename newName) (some basedOnSeq)
    pure ""
  | .move newParentId => do
    insertOpLog be call nodeId actorDeviceId (.move newParentId) (some basedOnSeq)
    pure ""
  | .delete => do
    insertOpLog be call nodeId actorDeviceId .delete (some basedOnSeq)
    pure ""

/-- `applyMetadataMutation`. -/
def applyMetadataMutation (be : Backend) (nodeId : String) (now : ℕ) (m : Mutation) : DbProc Unit :=
  match m with
  | .rename newName => updateNamed be nodeId fun r => { r with name := newName }
  | .move newParentId => updateNamed be nodeId fun r => { r with parentId := some newParentId }
  | .delete => updateNamed be nodeId fun r => { r with deletedAt := some now }
  | .newVersion _ _ _ _ => pure ()

/-- The name and parent a rename or move leads to. -/
def nextNameAndParent (nodeId : String) (m : Mutation) : DbProc (Option String × Option String) :=
  match m with
  | .rename newName => do
    let current ← loadNode nodeId
    pure (some newName, current.bind NodeRow.parentId)
  | .move newParentId => do
    let current ← loadNode nodeId
    pure (current.map NodeRow.name, some newParentId)
  | _ => pure (none, none)

/-- A live node with this name under this parent, other than the node itself. -/
def Db.collision (s : Db) (folderId parentId name nodeId : String) : Option NodeRow :=
  s.nodes.find? fun r => r.folderId = folderId && r.parentId = some parentId && r.name = name &&
    r.nodeId ≠ nodeId && r.deletedAt.isNone

/-- The collision check before a rename or move; skipped when the name or the parent is
missing or empty. -/
def checkCollision (folderId nodeId : String) (m : Mutation) : DbProc Unit := do
  let (nextName, nextParentId) ← nextNameAndParent nodeId m
  match truthy nextName, truthy nextParentId with
  | some name, some parentId => do
    let collision ← (.read fun s => s.collision folderId parentId name nodeId : DbProc _)
    if collision.isSome then .fail (.response 409 "name_collision") else pure ()
  | _, _ => pure ()

/-- `previousParentId`, which only the notification uses. -/
def previousParentId (nodeId : String) (m : Mutation) : DbProc (Option String) :=
  match m with
  | .move _ => do
    let current ← loadNode nodeId
    pure (current.bind NodeRow.parentId)
  | _ => pure none

/-- The node row takes the `server_seq` of the op that was just inserted. -/
def setServerSeq (folderId nodeId : String) : DbProc ℕ := do
  let serverSeq ← latestSeqForNode folderId nodeId
  updateNodes nodeId fun r => { r with serverSeq }
  pure serverSeq

/-- An op whose base is the node's current `server_seq`. -/
def applyOp (be : Backend) (call : SubmitCall) (deviceId nodeId : String) (basedOnSeq : ℕ)
    (m : Mutation) : DbProc SubmitOpResponse := do
  checkCollision call.folderId nodeId m
  let _ ← previousParentId nodeId m
  applyMetadataMutation be nodeId call.now m
  let _ ← insertVersionAndOp be call nodeId deviceId basedOnSeq m false
  let serverSeq ← setServerSeq call.folderId nodeId
  pure (.applied serverSeq nodeId)

/-- An op whose base is stale: a new version is kept as a conflict copy, the rest is refused. -/
def staleOp (be : Backend) (call : SubmitCall) (deviceId nodeId : String) (basedOnSeq : ℕ)
    (m : Mutation) (currentSeq : ℕ) : DbProc SubmitOpResponse :=
  match m with
  | .newVersion _ _ _ _ => do
    let versionId ← insertVersionAndOp be call nodeId deviceId basedOnSeq m true
    let serverSeq ← setServerSeq call.folderId nodeId
    pure (.conflictCopy serverSeq nodeId versionId)
  | _ => pure (.superseded currentSeq)

/-- The callback of `inTransaction` in `submitOp`. -/
def mutateBody (be : Backend) (call : SubmitCall) (deviceId nodeId : String) (basedOnSeq : ℕ)
    (m : Mutation) : DbProc SubmitOpResponse := do
  lockKey be (.node nodeId)
  match ← loadNode nodeId with
  | none => .fail (.response 404 "node_not_found")
  | some node =>
    if node.serverSeq = basedOnSeq then applyOp be call deviceId nodeId basedOnSeq m
    else staleOp be call deviceId nodeId basedOnSeq m node.serverSeq

/-- The callback of `inTransaction` in `createNode`. -/
def createBody (be : Backend) (call : SubmitCall) (deviceId nodeId parentId name : String)
    (type : NodeType) : DbProc SubmitOpResponse := do
  lockKey be (.node nodeId)
  lockKey be (.liveName call.folderId parentId name)
  insertNode { nodeId, folderId := call.folderId, parentId := some parentId, name, type }
  insertOpLog be call nodeId deviceId (.create nodeId parentId name type) none
  let serverSeq ← setServerSeq call.folderId nodeId
  pure (.applied serverSeq nodeId)

/-- The live node that won the race for a name. -/
def Db.winner (s : Db) (folderId parentId name : String) : Option NodeRow :=
  s.nodes.find? fun r => r.folderId = folderId && r.parentId = some parentId && r.name = name &&
    r.deletedAt.isNone

/-- `createNode`. -/
def createNode (be : Backend) (call : SubmitCall) (deviceId nodeId parentId name : String)
    (type : NodeType) : DbProc SubmitOpResponse :=
  (inTransaction be nodeId (createBody be call deviceId nodeId parentId name type)).attempt
    fun error => do
      match ← (.read fun s => s.winner call.folderId parentId name : DbProc _) with
      | some winner => pure (.superseded winner.serverSeq)
      | none => .fail error

/-- The check of a move's target: a folder node of the same shared folder. -/
def checkMoveTarget (folderId : String) (m : Mutation) : DbProc Unit :=
  match m with
  | .move newParentId => do
    match ← loadNode newParentId with
    | none => .fail (.response 404 "parent_not_found")
    | some parent =>
      if parent.type ≠ .folder then .fail (.response 404 "parent_not_found")
      else if parent.folderId ≠ folderId then .fail (.response 409 "cross_folder_move_rejected")
      else pure ()
  | _ => pure ()

/-- The grant on the node an op writes to. -/
def requireWrite (nodeId : String) (principal : Principal) : DbProc Unit := do
  match ← checkGrant nodeId principal .write with
  | .denied reason => .fail (.response 403 reason.text)
  | .granted _ _ _ => pure ()

/-- `submitOp`. -/
def submitOp (be : Backend) (call : SubmitCall) : DbProc SubmitOpResponse :=
  match call.principal with
  | .user _ => .fail (.response 403 "device_required")
  | .device deviceId =>
    match call.op with
    | .create nodeId parentId name type => do
      requireWrite parentId call.principal
      createNode be call deviceId nodeId parentId name type
    | .mutate nodeId basedOnSeq m => do
      requireWrite nodeId call.principal
      checkMoveTarget call.folderId m
      inTransaction be nodeId (mutateBody be call deviceId nodeId basedOnSeq m)

end Valv.Server
