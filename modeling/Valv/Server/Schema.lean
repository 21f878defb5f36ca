import Valv.Lib.Proc
import Valv.Lib.Table

/-!
# The metadata database

The tables of `core/src/db/schema.{sqlite,pg}.ts` that the metadata, blobstore and gc code
reads, with their primary keys, foreign keys and the partial unique index
`nodes_live_name_unique`, and the statements the code issues, each with the constraint
checks the database makes for it.

* `Db`: the tables, the `op_log.server_seq` sequence and the clock.
* `DbKey`: what a transaction can lock: a row, a unique-index entry, a drawn `server_seq`.
* `insertNode`, `insertVersion`, `insertVersionChunks`, `insertOpLogRow`, `updateNodes`: one
  atomic statement each.
-/

namespace Valv.Server

open Valv.Conc Valv.Table

/-! ### Rows -/

inductive NodeType where
  | file
  | folder
  deriving DecidableEq, Repr

structure ChunkRef where
  chunkHash : String
  offset : ℕ
  length : ℕ
  deriving DecidableEq, Repr

/-- A row of `nodes`: a file or folder, with its place and its current version. -/
structure NodeRow where
  nodeId : String
  folderId : String
  parentId : Option String
  name : String
  type : NodeType
  currentVersionId : Option String := none
  deletedAt : Option ℕ := none
  serverSeq : ℕ := 0
  deriving DecidableEq, Repr

/-- A row of `versions`: a content that a node has had, with its author and its chunks. -/
structure VersionRow where
  versionId : String
  nodeId : String
  manifest : List ChunkRef
  contentHash : String
  sizeBytes : ℕ
  authorDeviceId : String
  isConflictCopy : Bool
  deriving DecidableEq, Repr

/-- A row of `version_chunks`, which repeats a version's manifest chunk by chunk so that chunks can be counted and
looked up. -/
structure VersionChunkRow where
  versionId : String
  nodeId : String
  chunkHash : String
  deriving DecidableEq, Repr

/-- A row of `chunks`: a chunk that is or was in the bucket, with the number of its references. -/
structure ChunkRow where
  chunkHash : String
  sizeBytes : ℕ
  refcount : ℕ := 0
  createdAt : ℕ
  deriving DecidableEq, Repr

/-- A row of `devices`: what a token stands for. -/
structure DeviceRow where
  deviceId : String
  userId : Option String
  name : String := ""
  tokenHash : String := ""
  deriving DecidableEq, Repr

/-- A row of `folder_grants`: who may read or write below the scope node. -/
structure FolderGrantRow where
  grantId : String
  folderId : String
  scopeNodeId : String
  userId : Option String
  deviceId : Option String
  canRead : Bool
  canWrite : Bool
  name : Option String := none
  createdByUserId : Option String := none
  deriving DecidableEq, Repr

inductive InviteStatus where
  | pending
  | accepted
  | revoked
  | expired
  deriving DecidableEq, Repr

/-- A row of `folder_invites`: a grant that is offered to whoever has the token. -/
structure FolderInviteRow where
  inviteId : String
  inviteToken : String
  folderId : String
  scopeNodeId : String
  invitedByUserId : String
  canWrite : Bool
  status : InviteStatus := .pending
  expiresAt : ℕ
  deriving DecidableEq, Repr

/-- `op_type` and `op_payload` of an op, as one value. -/
inductive OpPayload where
  | create (nodeId parentId name : String) (type : NodeType)
  | rename (newName : String)
  | move (newParentId : String)
  | delete
  | newVersion (versionId contentHash : String) (sizeBytes : ℕ) (manifest : List ChunkRef)
      (isConflictCopy : Bool)
  deriving DecidableEq, Repr

/-- A row of `op_log`: what was done to a node, under the `server_seq` that orders all ops of the server. -/
structure OpLogRow where
  serverSeq : ℕ
  folderId : String
  nodeId : String
  payload : OpPayload
  basedOnSeq : Option ℕ
  actorDeviceId : String
  appliedAt : ℕ
  /-- Ghost: the request the row was inserted for.  No statement reads it. -/
  request : ℕ
  deriving DecidableEq, Repr

/-- The op is a version that did not become the current one. -/
def OpPayload.isConflict : OpPayload → Bool
  | .newVersion _ _ _ _ b => b
  | _ => false

/-! ### The database -/

/-- The tables, the last value of the `op_log.server_seq` sequence, and the clock. -/
structure Db where
  sharedFolders : List String := []
  devices : List DeviceRow := []
  folderGrants : List FolderGrantRow := []
  folderInvites : List FolderInviteRow := []
  nodes : List NodeRow := []
  versions : List VersionRow := []
  versionChunks : List VersionChunkRow := []
  chunks : List ChunkRow := []
  opLog : List OpLogRow := []
  lastSeq : ℕ := 0
  now : ℕ := 0
  /-- How many parameters the engine binds in one statement, 32766 in the SQLite of `better-sqlite3` and 65535 in the
  protocol of Postgres.  A statement that names a value for each row or id of a list can come over it. -/
  maxParams : ℕ := 32766
  deriving DecidableEq, Repr

namespace Db

/-- The row of a node. -/
def node (s : Db) (nodeId : String) : Option NodeRow := lookup NodeRow.nodeId nodeId s.nodes

/-- The row of a version. -/
def version (s : Db) (versionId : String) : Option VersionRow :=
  lookup VersionRow.versionId versionId s.versions

/-- The row of a chunk. -/
def chunk (s : Db) (chunkHash : String) : Option ChunkRow :=
  lookup ChunkRow.chunkHash chunkHash s.chunks

/-- The ops of a node, in the order they were committed. -/
def nodeOps (s : Db) (nodeId : String) : List OpLogRow := s.opLog.filter fun e => e.nodeId = nodeId

end Db

/-! ### Keys and errors -/

/-- What a transaction can lock. -/
inductive DbKey where
  | node (nodeId : String)
  | liveName (folderId parentId name : String)
  | version (versionId : String)
  | seq (serverSeq : ℕ)
  deriving DecidableEq, Repr

instance : Sequence Db DbKey where
  value s := s.lastSeq + 1
  bump s := { s with lastSeq := s.lastSeq + 1 }
  key := .seq

/-- The constraint of the schema that a statement violates. -/
inductive Constraint where
  | primaryKey
  | foreignKey
  | nodesLiveNameUnique
  | folderGrantsPrincipalXor
  | folderGrantsFolderNameUnique
  | folderInvitesInviteIdUnique
  deriving DecidableEq, Repr

/-- What a handler throws: a `Response`, or the error of a rejected statement, which violates a constraint or has more
parameters than the engine binds. -/
inductive ApiError where
  | response (status : ℕ) (error : String)
  | constraint (c : Constraint)
  | tooManyParams
  deriving DecidableEq, Repr

abbrev DbProc := Proc Db DbKey ApiError

/-- The entry of a row in `nodes_live_name_unique`: live rows with a parent (NULLs are
distinct). -/
def NodeRow.liveName (r : NodeRow) : Option DbKey :=
  if r.deletedAt.isSome then none else r.parentId.map fun p => .liveName r.folderId p r.name

namespace Db

/-- Whether another row has the live name of `r`. -/
def liveNameTaken (s : Db) (r : NodeRow) : Bool :=
  r.liveName.isSome && s.nodes.any fun r' => r'.nodeId ≠ r.nodeId && r'.liveName = r.liveName

/-- The constraints, besides the primary key, on an inserted row (`old = none`) or an
updated one: each is checked when the columns it is about are new or change. -/
def nodeViolation (s : Db) (old : Option NodeRow) (r : NodeRow) : Option ApiError :=
  if old.map NodeRow.folderId ≠ some r.folderId ∧ r.folderId ∉ s.sharedFolders then
    some (.constraint .foreignKey)
  else if old.map NodeRow.parentId ≠ some r.parentId ∧ r.parentId.any fun p => (s.node p).isNone then
    some (.constraint .foreignKey)
  else if old.map NodeRow.currentVersionId ≠ some r.currentVersionId ∧
      r.currentVersionId.any fun v => (s.version v).isNone then
    some (.constraint .foreignKey)
  else if old.map NodeRow.liveName ≠ some r.liveName ∧ s.liveNameTaken r then
    some (.constraint .nodesLiveNameUnique)
  else none

end Db

/-! ### Statements -/

/-- `INSERT INTO nodes`. -/
def insertNode (r : NodeRow) : DbProc Unit :=
  .stmt
    (fun s => if (s.node r.nodeId).isSome then some (.constraint .primaryKey)
      else s.nodeViolation none r)
    (fun _ s => { s with nodes := s.nodes ++ [r] })

/-- `UPDATE nodes SET … WHERE node_id = …`.  No row, no violation. -/
def updateNodes (nodeId : String) (f : NodeRow → NodeRow) : DbProc Unit :=
  .stmt
    (fun s => (s.node nodeId).bind fun r => s.nodeViolation (some r) (f r))
    (fun _ s => { s with nodes := update NodeRow.nodeId nodeId f s.nodes })

/-- `INSERT INTO versions`. -/
def insertVersionRow (r : VersionRow) : DbProc Unit :=
  .stmt
    (fun s => if (s.version r.versionId).isSome then some (.constraint .primaryKey)
      else if (s.node r.nodeId).isNone then some (.constraint .foreignKey)
      else if r.authorDeviceId ∉ s.devices.map DeviceRow.deviceId then some (.constraint .foreignKey)
      else none)
    (fun _ s => { s with versions := s.versions ++ [r] })

/-- The engine rejects a statement with so many parameters before it looks at a row. -/
def Db.overLimit (s : Db) (params : ℕ) : Option ApiError := if s.maxParams < params then some .tooManyParams else none

/-- `INSERT INTO version_chunks`, all rows or none, with three parameters for each. -/
def insertVersionChunks (rows : List VersionChunkRow) : DbProc Unit :=
  .stmt
    (fun s => if s.maxParams < 3 * rows.length then some .tooManyParams
      else if rows.any fun r => s.versionChunks.any fun r' =>
          r'.versionId = r.versionId && r'.chunkHash = r.chunkHash then some (.constraint .primaryKey)
      else if rows.any fun r => (s.version r.versionId).isNone || (s.node r.nodeId).isNone ||
          (s.chunk r.chunkHash).isNone then some (.constraint .foreignKey)
      else none)
    (fun _ s => { s with versionChunks := s.versionChunks ++ rows })

/-- `UPDATE chunks SET refcount = … WHERE chunk_hash IN (…)`, with a parameter for each hash. -/
def updateRefcounts (hashes : List String) (f : ℕ → ℕ) : DbProc Unit :=
  .stmt (fun s => s.overLimit hashes.length) fun _ s => { s with
    chunks := s.chunks.map fun c => if c.chunkHash ∈ hashes then { c with refcount := f c.refcount } else c }

/-- The foreign keys of an inserted `op_log` row. -/
def Db.opLogViolation (s : Db) (folderId actorDeviceId : String) : Option ApiError :=
  if folderId ∉ s.sharedFolders then some (.constraint .foreignKey)
  else if actorDeviceId ∉ s.devices.map DeviceRow.deviceId then some (.constraint .foreignKey)
  else none

end Valv.Server
