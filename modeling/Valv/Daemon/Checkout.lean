import Valv.Client.Content
import Valv.Daemon.FsEvents
import Valv.Daemon.Walks
import Valv.Lib.Effect
import Valv.Lib.FileOps

/-!
# The files of a mount

What `valvd/src/tasks.rs` does to the disk after a pull: `apply_pulled_fs_changes` takes one pulled op after the
other, `materialize_mount_files` goes through the whole tree, and both write the versions they download.  The file
system answers each call or fails it, and so does the backend.  The disk is that below the mount root; what a call
finds elsewhere, or behind a symbolic link, is an answer of the environment.

* `Checkout`: the local database and the files of a mount.
* `CheckoutEnv`: the mount, and what its surroundings answer.
* `writeAtomic`, `materializeVersion`: a version that is downloaded and written.
* `applyPulledFsChanges`, `materializeMountFiles`: the two ways to the files.
-/

namespace Valv.Client

/-! ### Marks of materialized content -/

/-- `has_materialized_content_for_version`. -/
def Mirror.hasMaterializedContentForVersion (m : Mirror) (versionId : String) : Bool :=
  m.versions.any fun r => r.versionId = versionId && r.contentMaterialized

/-- `has_materialized_content_for_node`. -/
def Mirror.hasMaterializedContentForNode (m : Mirror) (nodeId : String) : Bool :=
  m.versions.any fun r => r.nodeId = nodeId && r.contentMaterialized

end Valv.Client

namespace Valv.Daemon

open Valv.Conc Valv.Table Valv.Server Valv.Files Valv.Paths Valv.Traverse

/-! ### State and surroundings -/

/-- The local database and the files of a mount. -/
structure Checkout (φ : Type) where
  mirror : Client.Mirror
  disk : Disk φ
  /-- Calls of the file system and of the backend so far. -/
  calls : ℕ := 0
  /-- Ghost: the paths of these calls. -/
  asked : List PathBuf := []

/-- What the backend, the bucket and `GET /versions` have. -/
structure VersionAnswers where
  remote : Client.Remote
  get : String → Option Client.Bytes
  versions : String → List Client.RemoteVersion

/-- The mount, and what its surroundings answer.  Answers are told by the calls before. -/
structure CheckoutEnv (φ : Type) where
  mount : MountState
  deviceId : String := ""
  /-- `applied_at` up to its `T`. -/
  dateOf : ℕ → String := fun _ => ""
  sha256 : Client.Bytes → String
  backend : ℕ → VersionAnswers
  /-- `Uuid::new_v4`. -/
  newUuid : ℕ → String
  /-- A file with these bytes, written now. -/
  file : ℕ → Client.Bytes → φ
  /-- What a write that fails leaves of a file. -/
  torn : ℕ → φ
  /-- Whether a call of the file system fails. -/
  fails : ℕ → Bool
  /-- Whether `exists` fails to look. -/
  hidden : ℕ → Bool
  /-- Whether a call outside of the mount or behind a link succeeds. -/
  elsewhere : ℕ → Bool
  /-- What a removal that fails leaves of a directory. -/
  spared : ℕ → Path → Bool

/-- Why a change is not applied. -/
inductive CheckoutError where
  | io
  | message (text : String)
  deriving DecidableEq, Repr

/-- `MaterializeScope`. -/
inductive MaterializeScope where
  | background
  | full
  deriving DecidableEq, Repr

variable {φ : Type}

instance : Sequence (Checkout φ) Unit where
  value _ := 0
  bump s := s
  key _ := ()

abbrev CheckoutProc (φ α : Type) := Proc (Checkout φ) Unit CheckoutError α

/-! ### Paths -/

/-- The names of a path that is made of names. -/
def plainPath : PathBuf → Option Path
  | [] => some []
  | .normal name :: rest => (plainPath rest).map (name :: ·)
  | _ :: _ => none

/-- The names from the mount root to a path, lexically. -/
def inside (root path : PathBuf) : Option Path := (stripPrefix (normalize root) (normalize path)).bind plainPath

/-- `with_file_name`. -/
def withFileName (path : PathBuf) (name : String) : PathBuf :=
  join (if (fileName path).isSome then path.dropLast else path) name

/-- A link stands on the way to `p`, or there. -/
def linked (d : Disk φ) (p : Path) : Bool := p.inits.any fun r => (d.lstat r).any Entry.isSymlink

/-- A link stands on the way to `p`. -/
def linkedAbove (d : Disk φ) (p : Path) : Bool := p ≠ [] && linked d p.dropLast

/-- No symbolic link stands on the disk.  Where one does, a call behind it may end anywhere, also at another place of
the mount; results about what a call leaves ask for a disk without links. -/
def Unlinked (d : Disk φ) : Prop := ∀ q behind, d.lstat q ≠ some (.symlink behind)

/-- Something else than a directory stands on the way to `p`. -/
def blocked (d : Disk φ) (p : Path) : Bool :=
  p.inits.any fun r => r ≠ p && (d.lstat r).any fun e => !e.isDir

namespace CheckoutEnv

variable (env : CheckoutEnv φ)

def root : PathBuf := components env.mount.path

/-- The place of a path below the mount root. -/
def place (path : PathBuf) : Option Path := inside env.root path

/-! ### Calls -/

/-- What `f` makes of the disk at a path, and whether it succeeds.  Outside of the mount and behind a link nothing
changes here and the environment answers; the operating system follows a link, also one that leads back into the mount,
so what this says of the disk is what happens only where no link is on the way. -/
def effect (n : ℕ) (d : Disk φ) (path : PathBuf) (f : Path → Option (Disk φ)) : Disk φ × Bool :=
  match env.place path with
  | none => (d, env.elsewhere n)
  | some p =>
    if linked d p then (d, env.elsewhere n)
    else if env.fails n then (d, false)
    else match f p with
      | some d' => (d', true)
      | none => (d, false)

/-- `rename`; what comes from or goes elsewhere, or behind a link, is not followed, as in `effect`. -/
def renameEffect (n : ℕ) (d : Disk φ) (old new : PathBuf) : Disk φ × Bool :=
  match env.place old, env.place new with
  | some p, some q =>
    if linkedAbove d p || linkedAbove d q then (d, env.elsewhere n)
    else if env.fails n then (d, false)
    else match d.rename p q with
      | some d' => (d', true)
      | none => (d, false)
  | _, _ => (d, env.elsewhere n)

/-- The bytes of a file that was opened. -/
def fillEffect (n : ℕ) (d : Disk φ) (path : PathBuf) (bytes : Client.Bytes) : Disk φ × Bool :=
  match env.place path with
  | none => (d, env.elsewhere n)
  | some p =>
    if linked d p then (d, env.elsewhere n)
    else ((d.create p (if env.fails n then env.torn n else env.file n bytes)).getD d, !env.fails n)

/-- `remove_dir_all` for a folder, `remove_file` for a file. -/
def removeEffect (n : ℕ) (d : Disk φ) (path : PathBuf) (type : NodeType) : Disk φ × Removal :=
  match env.place path with
  | none => (d, if env.elsewhere n then .removed else .failed)
  | some p =>
    if linkedAbove d p then (d, if env.elsewhere n then .removed else .failed)
    else if env.fails n then
      match type with
      | .folder => (d.spare p (env.spared n), .failed)
      | .file => (d, .failed)
    else match (match type with | .folder => d.removeTree p | .file => d.unlink p) with
      | some d' => (d', .removed)
      | none => (d, if (d.lstat p).isNone && !blocked d p then .notFound else .failed)

/-- What `exists` finds. -/
def finds (n : ℕ) (d : Disk φ) (path : PathBuf) : Bool :=
  match env.place path with
  | none => env.elsewhere n
  | some p => !env.hidden n && d.present p

end CheckoutEnv

namespace Checkout

variable (env : CheckoutEnv φ)

/-- A call was made. -/
def called (s : Checkout φ) (d : Disk φ) (paths : List PathBuf) : Checkout φ :=
  { s with disk := d, calls := s.calls + 1, asked := s.asked ++ paths }

/-- A call at a path; whether it succeeds. -/
def fsAt (path : PathBuf) (f : Disk φ → Path → Option (Disk φ)) : CheckoutProc φ Bool :=
  .act (fun _ s => s.called (env.effect s.calls s.disk path (f s.disk)).1 [path])
    fun v => pure (env.effect v.calls v.disk path (f v.disk)).2

/-- `Path::exists`: false as well when the call fails. -/
def pathExists (path : PathBuf) : CheckoutProc φ Bool :=
  .act (fun _ s => s.called s.disk [path]) fun v => pure (env.finds v.calls v.disk path)

/-- `fs::rename`. -/
def fsRename (old new : PathBuf) : CheckoutProc φ Bool :=
  .act (fun _ s => s.called (env.renameEffect s.calls s.disk old new).1 [old, new])
    fun v => pure (env.renameEffect v.calls v.disk old new).2

/-- `write_all`. -/
def fsFill (path : PathBuf) (bytes : Client.Bytes) : CheckoutProc φ Bool :=
  .act (fun _ s => s.called (env.fillEffect s.calls s.disk path bytes).1 [path])
    fun v => pure (env.fillEffect v.calls v.disk path bytes).2

/-- The removal of what a tombstone stands for. -/
def fsRemove (path : PathBuf) (type : NodeType) : CheckoutProc φ Removal :=
  .act (fun _ s => s.called (env.removeEffect s.calls s.disk path type).1 [path])
    fun v => pure (env.removeEffect v.calls v.disk path type).2

/-- An answer that has to be yes. -/
def required (call : CheckoutProc φ Bool) : CheckoutProc φ Unit := do
  if ← call then pure () else .fail .io

/-- One directory after the other, up to the first error. -/
def mkdirs : List PathBuf → CheckoutProc φ Bool
  | [] => pure true
  | path :: paths => do
    if ← fsAt env path Disk.mkdir then mkdirs paths else pure false

/-- A path and the paths above it that lead into the mount. -/
def steps (path : PathBuf) : List PathBuf := path.inits.filter fun above => (env.place above).isSome || above = path

/-- `fs::create_dir_all`, from the mount root on. -/
def createDirAll (path : PathBuf) : CheckoutProc φ Bool := mkdirs env (steps env path)

/-- `create_dir_all` of the parent. -/
def createParent (path : PathBuf) : CheckoutProc φ Unit :=
  match parentPath path with
  | none => pure ()
  | some parent => required (createDirAll env parent)

/-- `File::create` and `write_all`. -/
def writeFile (path : PathBuf) (bytes : Client.Bytes) : CheckoutProc φ Bool := do
  let n ← (.read fun s => s.calls : CheckoutProc φ ℕ)
  if ← fsAt env path fun d p => d.create p (env.file n []) then fsFill env path bytes else pure false

/-! ### Versions -/

/-- The file next to `path` that is written first. -/
def tempPath (path : PathBuf) (name uuid : String) : PathBuf :=
  withFileName path ("." ++ name ++ ".valv-tmp-" ++ uuid)

/-- The temporary file is written and takes the place of `path`. -/
def writeAndRename (temp path : PathBuf) (bytes : Client.Bytes) : CheckoutProc φ Bool := do
  if ← writeFile env temp bytes then
    -- `sync_all`
    if ← fsAt env temp fun d _ => some d then fsRename env temp path else pure false
  else pure false

/-- `write_atomic`. -/
def writeAtomic (path : PathBuf) (bytes : Client.Bytes) : CheckoutProc φ Unit := do
  createParent env path
  match fileName path with
  | none => .fail (.message "path has no valid file name")
  | some name => do
    let uuid ← (.read fun s => env.newUuid s.calls : CheckoutProc φ String)
    if ← writeAndRename env (tempPath path name uuid) path bytes then pure () else do
      let _ ← fsAt env (tempPath path name uuid) Disk.unlink
      .fail .io

/-- `download_verified_version`. -/
def downloadVerifiedVersion (nodeId versionId : String) : CheckoutProc φ (Client.RemoteVersion × Client.Bytes) :=
  .act (fun _ s => s.called s.disk []) fun v =>
    let a := env.backend v.calls
    match Client.downloadVerifiedVersion a.remote env.sha256 a.get (a.versions nodeId) nodeId versionId with
    | .ok r => pure r
    | .error text => .fail (.message text)

def updateMirror (f : Client.Mirror → Client.Mirror) : CheckoutProc φ Unit :=
  .act (fun _ s => { s with mirror := f s.mirror }) fun _ => pure ()

/-- `persist_version_metadata`. -/
def persistVersionMetadata (nodeId : String) (version : Client.RemoteVersion) : CheckoutProc φ Unit :=
  updateMirror fun m => (version.manifest.map ChunkRef.chunkHash).foldl Client.Mirror.markUploaded
    (m.upsertVersion
      { versionId := version.versionId, nodeId, folderId := env.mount.folderId, contentHash := version.contentHash,
        sizeBytes := version.sizeBytes, manifest := version.manifest })

/-- `persist_materialized_version`. -/
def persistMaterializedVersion (nodeId : String) (version : Client.RemoteVersion) : CheckoutProc φ Unit := do
  persistVersionMetadata env nodeId version
  updateMirror fun m => m.markContentMaterialized version.versionId

/-- `materialize_version`. -/
def materializeVersion (nodeId versionId : String) (path : PathBuf) : CheckoutProc φ Unit := do
  let (version, bytes) ← downloadVerifiedVersion env nodeId versionId
  writeAtomic env path bytes
  persistMaterializedVersion env nodeId version

/-- `download_and_store_version`. -/
def downloadAndStoreVersion (nodeId versionId : String) : CheckoutProc φ Client.Bytes := do
  let (version, bytes) ← downloadVerifiedVersion env nodeId versionId
  persistVersionMetadata env nodeId version
  pure bytes

/-! ### Conflict copies -/

/-- The loop of `disambiguate_conflict_path`; the last argument counts the attempts that are left. -/
def disambiguateFrom (desired : PathBuf) (stem : String) (extension : Option String) : ℕ → CheckoutProc φ PathBuf
  | 0 => .fail (.message "conflict copy path exhausted disambiguation attempts")
  | left + 1 => do
    let candidate := withFileName desired
      (Client.joinFileName (stem ++ " (" ++ toString (20 - left) ++ ")") extension)
    if ← pathExists env candidate then disambiguateFrom desired stem extension left else pure candidate

/-- `disambiguate_conflict_path`. -/
def disambiguateConflictPath (desired : PathBuf) : CheckoutProc φ PathBuf := do
  if ← pathExists env desired then
    match fileName desired with
    | none => .fail (.message "path has no valid file stem")
    | some name => disambiguateFrom env desired (Client.splitFileName name).1 (Client.splitFileName name).2 19
  else pure desired

/-- `conflict_copy_path`. -/
def conflictCopyPath (original : PathBuf) (deviceName date : String) : CheckoutProc φ PathBuf :=
  match fileName original with
  | none => .fail (.message "path has no valid file name")
  | some name =>
    disambiguateConflictPath env (withFileName original (Client.conflictCopyName name deviceName date))

/-! ### One pulled op -/

/-- `node_abs_path`, over these nodes. -/
def nodePath (nodesById : List Client.LocalNode) (nodeId : String) : Option PathBuf :=
  (segmentsUp nodesById env.mount.scopeNodeId nodesById.length nodeId).map fun names => names.foldl join env.root

/-- `pre_op_abs_path`. -/
def preOpPath (nodesById : List Client.LocalNode) (pulled : Client.PulledNode) : Option PathBuf :=
  if (lookup Client.LocalNode.nodeId pulled.nodeId nodesById).isNone then none
  else nodePath env (update Client.LocalNode.nodeId pulled.nodeId
    (fun r => { r with name := pulled.oldName.getD r.name, parentId := pulled.oldParentId }) nodesById) pulled.nodeId

/-- `should_materialize_canonical`, for the path of the node. -/
def shouldMaterializeCanonical (scope : MaterializeScope) (pulled : Client.PulledNode) (path : Option PathBuf) :
    CheckoutProc φ Bool :=
  if scope = .full then pure true
  else match path with
    | none => pure false
    | some path => do
      let prior ← (.read fun s => s.mirror.hasMaterializedContentForNode pulled.nodeId : CheckoutProc φ Bool)
      if prior then pathExists env path else pure true

/-- `write_canonical_version`, behind `should_materialize_canonical`. -/
def writeCanonicalVersion (nodesById : List Client.LocalNode) (scope : MaterializeScope) (pulled : Client.PulledNode)
    (versionId : String) : CheckoutProc φ Unit := do
  if ← shouldMaterializeCanonical env scope pulled (nodePath env nodesById pulled.nodeId) then
    match nodePath env nodesById pulled.nodeId with
    | none => pure ()
    | some path => materializeVersion env pulled.nodeId versionId path
  else pure ()

/-- `materialize_single_node`, and the body of the loop of `materialize_mount_files`. -/
def materializeNode (node : Client.LocalNode) (path : PathBuf) : CheckoutProc φ Unit :=
  match node.nodeType with
  | .folder => required (createDirAll env path)
  | .file =>
    match node.currentVersionId with
    | none => pure ()
    | some versionId => do
      if ← (.read fun s => s.mirror.hasMaterializedContentForVersion versionId : CheckoutProc φ Bool) then
        if ← pathExists env path then pure () else materializeVersion env node.nodeId versionId path
      else materializeVersion env node.nodeId versionId path

/-- A node that is renamed or moved. -/
def applyRename (nodesById : List Client.LocalNode) (pulled : Client.PulledNode) : CheckoutProc φ Unit :=
  match preOpPath env nodesById pulled, nodePath env nodesById pulled.nodeId with
  | some oldPath, some newPath =>
    if oldPath = newPath then pure () else do
      if ← pathExists env oldPath then do
        createParent env newPath
        required (fsRename env oldPath newPath)
      else match lookup Client.LocalNode.nodeId pulled.nodeId nodesById with
        | none => pure ()
        | some node => materializeNode env node newPath
  | _, _ => pure ()

/-- A conflict copy of another device. -/
def applyConflictCopy (nodesById : List Client.LocalNode) (pulled : Client.PulledNode) : CheckoutProc φ Unit :=
  if pulled.actorDeviceId = env.deviceId then pure ()
  else match pulled.newVersionId, nodePath env nodesById pulled.nodeId with
    | some versionId, some canonicalPath => do
      let conflictPath ← conflictCopyPath env canonicalPath pulled.actorDeviceId (env.dateOf pulled.appliedAt)
      createParent env conflictPath
      let bytes ← downloadAndStoreVersion env pulled.nodeId versionId
      required (writeFile env conflictPath bytes)
    | _, _ => pure ()

/-- `apply_pulled_fs_change`. -/
def applyPulledFsChange (nodesById : List Client.LocalNode) (scope : MaterializeScope) (pulled : Client.PulledNode) :
    CheckoutProc φ Unit :=
  if pulled.opType = "create" then
    match pulled.nodeType with
    | .folder =>
      match nodePath env nodesById pulled.nodeId with
      | none => pure ()
      | some path => required (createDirAll env path)
    | .file =>
      match pulled.newVersionId with
      | none => pure ()
      | some versionId => writeCanonicalVersion env nodesById scope pulled versionId
  else if pulled.opType = "rename" ∨ pulled.opType = "move" then applyRename env nodesById pulled
  else if pulled.opType = "new_version" then
    if pulled.isConflictCopy then applyConflictCopy env nodesById pulled
    else if pulled.oldVersionId = pulled.newVersionId then pure ()
    else match pulled.newVersionId with
      | none => pure ()
      | some versionId => writeCanonicalVersion env nodesById scope pulled versionId
  else pure ()

/-- The loop of `apply_pulled_fs_changes`; an error is logged. -/
def applyEach (nodesById : List Client.LocalNode) (scope : MaterializeScope) : List Client.PulledNode → CheckoutProc φ Unit
  | [] => pure ()
  | pulled :: rest => do
    (applyPulledFsChange env nodesById scope pulled).attempt fun _ => pure ()
    applyEach nodesById scope rest

/-- `apply_pulled_fs_changes`. -/
def applyPulledFsChanges (scope : MaterializeScope) (pulled : List Client.PulledNode) : CheckoutProc φ Unit :=
  if pulled = [] then pure () else do
    let nodesById ← (.read fun s => folderNodes s.mirror env.mount : CheckoutProc φ (List Client.LocalNode))
    applyEach env nodesById scope pulled

/-! ### The whole tree -/

/-- The loop of `cleanup_deleted_mount_paths`. -/
def removeDead : List (PathBuf × NodeType) → CheckoutProc φ Unit
  | [] => pure ()
  | dead :: rest => do
    match ← fsRemove env dead.1 dead.2 with
    | .failed => .fail .io
    | _ => removeDead rest

/-- `cleanup_deleted_mount_paths`. -/
def cleanupDeletedMountPaths : CheckoutProc φ Unit := do
  let dead ← (.read fun s => deepestFirst (deletedPaths s.mirror env.mount) : CheckoutProc φ (List (PathBuf × NodeType)))
  removeDead env dead

/-- The loop of `materialize_mount_files`. -/
def materializeEach : List (Client.LocalNode × PathBuf) → CheckoutProc φ Unit
  | [] => pure ()
  | visit :: rest => do
    materializeNode env visit.1 visit.2
    materializeEach rest

/-- What is visited below the root, with its paths. -/
def visitsOf (m : Client.Mirror) (mount : MountState) : Option (List (Client.LocalNode × PathBuf)) :=
  let nodes := (liveNodes m mount).insertionSort rootFirst
  (rootOf nodes).map (placedNodes mount nodes)

/-- `materialize_mount_files`. -/
def materializeMountFiles : CheckoutProc φ Unit := do
  cleanupDeletedMountPaths env
  match ← (.read fun s => visitsOf s.mirror env.mount : CheckoutProc φ _) with
  | none => pure ()
  | some visits => do
    required (createDirAll env env.root)
    materializeEach env visits

end Checkout

end Valv.Daemon
