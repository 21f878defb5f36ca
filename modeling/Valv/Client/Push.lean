import Mathlib.Data.List.Sort
import Valv.Client.Submit
import Valv.Lib.Exec
import Valv.Lib.Files

/-!
# Pushing a mount

`push_local` of `sync_engine/local_push.rs`: the tree below the mount root is walked breadth first,
creates, moves and new versions are submitted for what is found, and deletes for the nodes of the
mirror that are not.  The filesystem answers each call or fails it, the server answers as it likes.
Left out are errors of the local database, names that are not UTF-8, and what is printed.

* `Pass`: the mirror, the disk, and what the pass has done so far.
* `PushEnv`: what the filesystem, the server and the clock answer.
* `walk`: the loop over directories; `processMovedEntry`, `createEntry`, `processExistingFile`.
* `submitDeletesForMissing`: the sweep behind it.
-/

namespace Valv.Client

open Valv.Conc Valv.Table Valv.Server Valv.Files

/-! ### The state of a pass -/

/-- A regular file: the chunks that `chunk_file` cuts it into, and its modification time. -/
structure FileData where
  chunks : List ChunkRef
  mtimeNanos : ℕ
  deriving DecidableEq, Repr

/-- The length of a file. -/
def FileData.sizeBytes (f : FileData) : ℕ := (f.chunks.map ChunkRef.length).foldl (· + ·) 0

/-- How a request can fail. -/
inductive SubmitError where
  | forbidden
  | updateRequired
  | other
  deriving DecidableEq, Repr

/-- What `submit_op` returns: one of the server's answers, or the error of the request. -/
inductive SubmitResult where
  | applied (serverSeq : ℕ) (nodeId : String)
  | conflictCopy (serverSeq : ℕ) (nodeId conflictVersionId : String)
  | superseded (currentSeq : ℕ)
  | conflict
  | error (e : SubmitError)
  deriving DecidableEq, Repr

/-- A request that was sent and its result. As a ghost it has the path of the disk that the request is about. -/
structure Sent where
  op : SubmitOpRequest
  path : Path
  result : SubmitResult
  deriving DecidableEq, Repr

structure PushSummary where
  createsSubmitted : ℕ := 0
  versionsSubmitted : ℕ := 0
  deletesSubmitted : ℕ := 0
  skipped : ℕ := 0
  errors : ℕ := 0
  forbidden : Bool := false
  deriving DecidableEq, Repr

/-- What a pass of `push_local` works on: the mirror, the disk and the server's answers so far. `queue` and
`deferred` are its local variables, the folders still to be walked and the nodes that are not to be deleted yet. -/
structure Pass where
  mirror : Mirror
  disk : Disk FileData
  queue : List (Path × String) := []
  deferred : List String := []
  summary : PushSummary := {}
  sent : List Sent := []
  /-- Calls of the filesystem so far. -/
  calls : ℕ := 0
  /-- Looks at `update_required_flag` so far. -/
  looks : ℕ := 0
  /-- Ghost: the directories that were listed without an error, and the names in them. -/
  listed : List (Path × List String) := []

/-- The mount, and what its surroundings answer. -/
structure PushEnv where
  folderId : String
  scopeNodeId : Option String := none
  deviceName : String := ""
  date : String := ""
  now : ℕ := 0
  /-- `Uuid::new_v4`, told by the requests before it. -/
  newUuid : ℕ → String
  /-- The SHA-256 of `manifest_content_hash`. -/
  contentHash : List ChunkRef → String
  /-- Whether a call of the filesystem fails, told by the calls before it. -/
  fails : ℕ → Bool
  /-- What `stat` finds at a path with a segment that no directory entry has for a name. -/
  odd : Path → Bool
  /-- Whether `update_required_flag` is set, told by the looks before. -/
  halts : ℕ → Bool
  /-- The server's answer to an op, told by the requests before it. -/
  answer : List Sent → SubmitOpRequest → SubmitResult
  /-- The chunks that `upload_chunks` stores, and its error, told by the requests before it. -/
  upload : ℕ → List ChunkRef → List String × Option SubmitError
  /-- Bound on the length of a loop. -/
  fuel : ℕ

/-- Why a pass ends with an error. -/
inductive Halt where
  | updateRequired
  | noRoot
  | stuck
  deriving DecidableEq, Repr

instance : Sequence Pass Unit where
  value _ := 0
  bump s := s
  key _ := ()

abbrev PushProc := Proc Pass Unit Halt

/-! ### Steps -/

/-- A call of the filesystem; no value when it fails. -/
def fsCall {α : Type} (env : PushEnv) (f : Disk FileData → Option α) : PushProc (Option α) :=
  .act (fun _ s => { s with calls := s.calls + 1 })
    fun v => pure (if env.fails v.calls then none else f v.disk)

/-- A change of the pass's own state. -/
def change (f : Pass → Pass) : PushProc Unit := .act (fun _ s => f s) fun _ => pure ()

def updateMirror (f : Mirror → Mirror) : PushProc Unit := change fun s => { s with mirror := f s.mirror }

def updateSummary (f : PushSummary → PushSummary) : PushProc Unit :=
  change fun s => { s with summary := f s.summary }

def countSkipped : PushProc Unit := updateSummary fun m => { m with skipped := m.skipped + 1 }

def countError : PushProc Unit := updateSummary fun m => { m with errors := m.errors + 1 }

/-- `record_push_error`. -/
def recordPushError (e : SubmitError) : PushProc Unit :=
  updateSummary fun m => { m with errors := m.errors + 1, forbidden := m.forbidden || e = .forbidden }

def enqueue (dir : Path) (nodeId : String) : PushProc Unit :=
  change fun s => { s with queue := s.queue ++ [(dir, nodeId)] }

def deferDelete (nodeId : String) : PushProc Unit := change fun s => { s with deferred := nodeId :: s.deferred }

/-- `ensure_not_update_required`. -/
def ensureNotUpdateRequired (env : PushEnv) : PushProc Unit :=
  .act (fun _ s => { s with looks := s.looks + 1 })
    fun v => if env.halts v.looks then .fail .updateRequired else pure ()

/-- `propagate_update_required`. -/
def propagateUpdateRequired (e : SubmitError) : PushProc Unit :=
  if e = .updateRequired then .fail .updateRequired else pure ()

/-- `submit_op`. -/
def pushOp (env : PushEnv) (path : Path) (op : SubmitOpRequest) : PushProc SubmitResult :=
  .act (fun v s => { s with sent := s.sent ++ [{ op, path, result := env.answer v.sent op }] })
    fun v => pure (env.answer v.sent op)

def newUuid (env : PushEnv) : PushProc String := .read fun s => env.newUuid s.sent.length

/-! ### The filesystem -/

/-- The path has no segment but names of entries. -/
def Path.plain (p : Path) : Bool := p.all plainName

/-- What `exists` finds. -/
def PushEnv.finds (env : PushEnv) (d : Disk FileData) (p : Path) : Bool :=
  if Path.plain p then d.present p else env.odd p

/-- `Path::exists`: false as well when the call fails. -/
def pathExists (env : PushEnv) (p : Path) : PushProc Bool := do
  let found ← fsCall env fun d => if env.finds d p then some () else none
  pure found.isSome

/-- `fs::read_dir`. -/
def readDir (env : PushEnv) (dir : Path) : PushProc (Option (List String)) :=
  fsCall env fun d => if d.isDir dir then some (d.names dir) else none

/-- The file types that the walk tells apart. -/
inductive EntryType where
  | dir
  | file
  | symlink
  | other
  deriving DecidableEq, Repr

def entryType : Entry FileData → EntryType
  | .dir => .dir
  | .file _ => .file
  | .symlink _ => .symlink
  | .other => .other

/-- `fs::symlink_metadata`. -/
def symlinkMetadata (env : PushEnv) (p : Path) : PushProc (Option EntryType) :=
  fsCall env fun d => (d.lstat p).map entryType

/-- The regular file at a path. -/
def fileAt (d : Disk FileData) (p : Path) : Option FileData :=
  match d.lstat p with
  | some (.file data) => some data
  | _ => none

/-- `stat_push_signature`. -/
def statPushSignature (env : PushEnv) (p : Path) : PushProc (Option (ℕ × ℕ)) :=
  fsCall env fun d => (fileAt d p).map fun f => (f.sizeBytes, f.mtimeNanos)

/-- `chunk_file`. -/
def chunkFile (env : PushEnv) (p : Path) : PushProc (Option (List ChunkRef)) :=
  fsCall env fun d => (fileAt d p).map FileData.chunks

/-! ### New versions -/

/-- The file stem and the extension of a file name. -/
def splitFileName (name : String) : String × Option String :=
  let chars := name.toList
  let extension := (chars.reverse.takeWhile (· ≠ '.')).reverse
  let before := chars.take (chars.length - extension.length - 1)
  if extension.length = chars.length || before = [] then (name, none)
  else (String.ofList before, some (String.ofList extension))

/-- A stem and an extension put together. -/
def joinFileName (stem : String) : Option String → String
  | some extension => stem ++ "." ++ extension
  | none => stem

/-- The name of a conflict copy. -/
def conflictCopyName (fileName deviceName date : String) : String :=
  let (stem, extension) := splitFileName fileName
  joinFileName (stem ++ " (conflicted copy, " ++ deviceName ++ ", " ++ date ++ ")") extension

/-- `is_conflict_copy_name`. -/
def isConflictCopyName (name : String) : Bool :=
  name.toList.tails.any fun cs => " (conflicted copy, ".toList.isPrefixOf cs

/-- The loop of `disambiguate_conflict_path`; the second argument counts the attempts that are left. -/
def disambiguateFrom (env : PushEnv) (dir : Path) (stem : String) (extension : Option String) :
    ℕ → PushProc (Option Path)
  | 0 => pure none
  | left + 1 => do
    let candidate := dir ++ [joinFileName (stem ++ " (" ++ toString (20 - left) ++ ")") extension]
    if ← pathExists env candidate then disambiguateFrom env dir stem extension left
    else pure (some candidate)

/-- `disambiguate_conflict_path`. -/
def disambiguateConflictPath (env : PushEnv) (dir : Path) (name : String) : PushProc (Option Path) := do
  if ← pathExists env (dir ++ [name]) then
    let (stem, extension) := splitFileName name
    disambiguateFrom env dir stem extension 19
  else pure (some (dir ++ [name]))

/-- `fs::copy` to a name in the same directory; whether it succeeds. -/
def copyFile (env : PushEnv) (source target : Path) : PushProc Bool :=
  .act (fun v s =>
      let s := { s with calls := s.calls + 1 }
      if env.fails v.calls || !Path.plain target then s
      else (fileAt v.disk source).elim s fun f =>
        { s with disk := s.disk.write target { f with mtimeNanos := env.now } })
    fun v => pure (!env.fails v.calls && Path.plain target && (fileAt v.disk source).isSome)

/-- `materialize_conflict_copy`; whether it succeeds. -/
def materializeConflictCopy (env : PushEnv) (original : Path) : PushProc Bool := do
  let name := conflictCopyName (original.getLast?.getD "") env.deviceName env.date
  match ← disambiguateConflictPath env original.dropLast name with
  | none => pure false
  | some target => copyFile env original target

/-- `upload_chunks`; its error. -/
def uploadChunks (env : PushEnv) (chunks : List ChunkRef) : PushProc (Option SubmitError) := do
  let pending ← (.read fun s => chunks.filter fun c => !s.mirror.isUploaded c.chunkHash : PushProc _)
  if pending = [] then pure none else do
    let (stored, error) ← (.read fun s => env.upload s.sent.length pending : PushProc _)
    updateMirror fun m => (stored.filter fun h => pending.any fun c => c.chunkHash = h).foldl Mirror.markUploaded m
    pure error

/-- The response in a result. -/
def SubmitResult.response : SubmitResult → Option SubmitOpResponse
  | .applied serverSeq nodeId => some (.applied serverSeq nodeId)
  | .conflictCopy serverSeq nodeId conflictVersionId => some (.conflictCopy serverSeq nodeId conflictVersionId)
  | .superseded currentSeq => some (.superseded currentSeq)
  | .conflict => none
  | .error _ => none

/-- The conflict copy of a result; its error. -/
def copyOnConflict (env : PushEnv) (path : Path) : SubmitResult → PushProc (Option SubmitError)
  | .conflictCopy _ _ _ => do
    let copied ← materializeConflictCopy env path
    pure (if copied then none else some .other)
  | _ => pure none

/-- `upload_then_submit_new_version`; its error. -/
def uploadThenSubmitNewVersion (env : PushEnv) (nodeId : String) (basedOnSeq : ℕ) (path : Path) :
    PushProc (Option SubmitError) := do
  match ← chunkFile env path with
  | none => pure (some .other)
  | some chunks =>
    match ← uploadChunks env chunks with
    | some e => pure (some e)
    | none => do
      let versionId ← newUuid env
      let sizeBytes := (chunks.map ChunkRef.length).foldl (· + ·) 0
      let op := .mutate nodeId basedOnSeq (.newVersion versionId (env.contentHash chunks) sizeBytes chunks)
      match ← pushOp env path op with
      | .error e => pure (some e)
      | result => do
        updateMirror fun m => result.response.elim m (m.applySubmittedNewVersion env.folderId nodeId op)
        copyOnConflict env path result

/-- What follows an upload: the push cache is warmed with the file's size and time before it. -/
def finishVersion (nodeId : String) (stat : ℕ × ℕ) : Option SubmitError → PushProc Unit
  | none => do
    updateSummary fun m => { m with versionsSubmitted := m.versionsSubmitted + 1 }
    updateMirror fun m => m.updatePushedCache nodeId stat.1 stat.2
  | some e => do
    propagateUpdateRequired e
    recordPushError e

/-! ### Entries -/

/-- An entry of a directory, with the node of the directory. -/
structure EntryInfo where
  path : Path
  name : String
  type : EntryType
  deriving DecidableEq, Repr

/-- The loop of `local_node_abs_path` on the live nodes of the folder: the path, or nothing where a parent is missing.
It has no value when the loop does not end within `fuel` turns, as on a cycle of parents. -/
def localNodeAbsPath (nodes : List LocalNode) (scopeNodeId : Option String) : ℕ → LocalNode → Option (Option Path)
  | 0, _ => none
  | fuel + 1, current =>
    if scopeNodeId = some current.nodeId then some (some [])
    else match current.parentId with
      | none => some (some [])
      | some p =>
        match lookup LocalNode.nodeId p nodes with
        | none => some none
        | some parent => (localNodeAbsPath nodes scopeNodeId fuel parent).map (Option.map (· ++ [current.name]))

/-- The live nodes of the folder. -/
def Mirror.liveNodes (m : Mirror) (folderId : String) : List LocalNode :=
  m.nodes.filter fun r => r.folderId = folderId && r.deletedAt.isNone

/-- The filter of `find_missing_move_candidate`.  A climb that visits more nodes than there are is in a cycle, and never
returns. -/
def isMissingMove (env : PushEnv) (nodes : List LocalNode) (entry : EntryInfo) (parentNodeId : String)
    (nodeType : NodeType) (node : LocalNode) : PushProc Bool :=
  if node.nodeType = nodeType && (node.parentId = some parentNodeId || node.name = entry.name) then
    match localNodeAbsPath nodes env.scopeNodeId (nodes.length + 1) node with
    | none => .fail .stuck
    | some none => pure false
    | some (some path) => do
      let found ← pathExists env path
      pure (!found && decide (path ≠ entry.path))
  else pure false

/-- The nodes that pass the filter. -/
def missingMoveCandidates (env : PushEnv) (nodes : List LocalNode) (entry : EntryInfo) (parentNodeId : String)
    (nodeType : NodeType) : List LocalNode → PushProc (List LocalNode)
  | [] => pure []
  | node :: rest => do
    let missing ← isMissingMove env nodes entry parentNodeId nodeType node
    let candidates ← missingMoveCandidates env nodes entry parentNodeId nodeType rest
    pure (if missing then node :: candidates else candidates)

/-- `find_missing_move_candidate`. -/
def findMissingMoveCandidate (env : PushEnv) (entry : EntryInfo) (parentNodeId : String) (nodeType : NodeType) :
    PushProc (Option LocalNode) := do
  let nodes ← (.read fun s => s.mirror.liveNodes env.folderId : PushProc _)
  match ← missingMoveCandidates env nodes entry parentNodeId nodeType nodes with
  | [node] => pure (some node)
  | _ => pure none

/-- A folder is walked into. -/
def enqueueFolder (nodeType : NodeType) (dir : Path) (nodeId : String) : PushProc Unit :=
  if nodeType = .folder then enqueue dir nodeId else pure ()

/-- The end of `process_moved_entry`. -/
def finishMove (entry : EntryInfo) (nodeType : NodeType) (node : LocalNode) : PushProc Unit := do
  updateMirror fun m => m.upsertNode node
  enqueueFolder nodeType entry.path node.nodeId
  countSkipped

/-- The rename of `process_moved_entry`. -/
def renameMoved (env : PushEnv) (entry : EntryInfo) (nodeType : NodeType) (node : LocalNode) : PushProc Unit :=
  if node.name = entry.name then finishMove entry nodeType node else do
    match ← pushOp env entry.path (.mutate node.nodeId node.serverSeq (.rename entry.name)) with
    | .error e => do
      propagateUpdateRequired e
      updateMirror fun m => m.upsertNode node
      recordPushError e
      deferDelete node.nodeId
    | .applied serverSeq _ => finishMove entry nodeType { node with name := entry.name, serverSeq }
    | _ => countSkipped

/-- The rest of `process_moved_entry`, for the node it has found. -/
def moveEntry (env : PushEnv) (entry : EntryInfo) (parentNodeId : String) (nodeType : NodeType) (node : LocalNode) :
    PushProc Unit :=
  if node.parentId = some parentNodeId then renameMoved env entry nodeType node else do
    match ← pushOp env entry.path (.mutate node.nodeId node.serverSeq (.move parentNodeId)) with
    | .error e => do
      propagateUpdateRequired e
      recordPushError e
      deferDelete node.nodeId
    | .applied serverSeq _ =>
      renameMoved env entry nodeType { node with parentId := some parentNodeId, serverSeq }
    | _ => countSkipped

/-- `process_moved_entry`; whether the entry was taken for a moved one. -/
def processMovedEntry (env : PushEnv) (entry : EntryInfo) (parentNodeId : String) (nodeType : NodeType) :
    PushProc Bool := do
  match ← findMissingMoveCandidate env entry parentNodeId nodeType with
  | none => pure false
  | some node => do
    moveEntry env entry parentNodeId nodeType node
    pure true

/-- The content of a file that was just created. -/
def pushCreatedContent (env : PushEnv) (entry : EntryInfo) (nodeId : String) (serverSeq : ℕ) : PushProc Unit := do
  match ← statPushSignature env entry.path with
  | none => countError
  | some stat => do
    let error ← uploadThenSubmitNewVersion env nodeId serverSeq entry.path
    finishVersion nodeId stat error

/-- `create_entry`. -/
def createEntry (env : PushEnv) (entry : EntryInfo) (parentNodeId : String) (nodeType : NodeType) :
    PushProc Unit := do
  ensureNotUpdateRequired env
  let nodeId ← newUuid env
  match ← pushOp env entry.path (.create nodeId parentNodeId entry.name nodeType) with
  | .error e => do
    propagateUpdateRequired e
    recordPushError e
  | .applied serverSeq nodeId => do
    updateMirror fun m => m.upsertNode (createdNode env.folderId nodeId parentNodeId entry.name nodeType serverSeq)
    updateSummary fun m => { m with createsSubmitted := m.createsSubmitted + 1 }
    match nodeType with
    | .folder => enqueue entry.path nodeId
    | .file => pushCreatedContent env entry nodeId serverSeq
  | .superseded _ => countSkipped
  | _ => pure ()

/-- The file holds the node's stored version; no value when the file cannot be read. -/
def sameContent (env : PushEnv) (path : Path) (sizeBytes : ℕ) (stored : Option LocalVersion) :
    PushProc (Option Bool) :=
  match stored with
  | none => pure (some false)
  | some version =>
    if version.sizeBytes = sizeBytes then do
      let chunks ← chunkFile env path
      pure (chunks.map fun cs => decide (env.contentHash cs = version.contentHash))
    else pure (some false)

/-- `process_existing_file`. -/
def processExistingFile (env : PushEnv) (path : Path) (node : LocalNode) : PushProc Unit := do
  ensureNotUpdateRequired env
  match ← statPushSignature env path with
  | none => countError
  | some stat =>
    if node.pushedSizeBytes = some stat.1 ∧ node.pushedMtimeNanos = some stat.2 then countSkipped else do
      let stored ← (.read fun s => s.mirror.getVersion (node.currentVersionId.getD "") : PushProc _)
      match ← sameContent env path stat.1 stored with
      | none => countError
      | some true => do
        countSkipped
        updateMirror fun m => m.updatePushedCache node.nodeId stat.1 stat.2
      | some false => do
        let error ← uploadThenSubmitNewVersion env node.nodeId node.serverSeq path
        finishVersion node.nodeId stat error

/-- A new entry: moved or created. -/
def processNewEntry (env : PushEnv) (entry : EntryInfo) (parentNodeId : String) (nodeType : NodeType) :
    PushProc Unit := do
  if ← processMovedEntry env entry parentNodeId nodeType then pure ()
  else createEntry env entry parentNodeId nodeType

/-- The body of the loop over a directory's entries. -/
def processEntry (env : PushEnv) (parentNodeId : String) (entry : EntryInfo) : PushProc Unit := do
  ensureNotUpdateRequired env
  if entry.type = .symlink then countSkipped else do
    let node ← (.read fun s =>
      s.mirror.getNodeByParentAndName env.folderId (some parentNodeId) entry.name : PushProc _)
    if entry.type = .file && node.isNone && isConflictCopyName entry.name then countSkipped
    else match entry.type, node with
      | .dir, some node => enqueue entry.path node.nodeId
      | .dir, none => processNewEntry env entry parentNodeId .folder
      | .file, some node => processExistingFile env entry.path node
      | .file, none => processNewEntry env entry parentNodeId .file
      | _, _ => countSkipped

def processEntries (env : PushEnv) (parentNodeId : String) : List EntryInfo → PushProc Unit
  | [] => pure ()
  | entry :: entries => do
    processEntry env parentNodeId entry
    processEntries env parentNodeId entries

/-! ### The walk -/

/-- The entries of a directory, and whether all of them could be read. -/
def readEntries (env : PushEnv) (dir : Path) : List String → PushProc (List EntryInfo × Bool)
  | [] => pure ([], true)
  | name :: names => do
    match ← fsCall env fun _ => some () with
    | none => do
      countError
      let (entries, _) ← readEntries env dir names
      pure (entries, false)
    | some () => do
      match ← symlinkMetadata env (dir ++ [name]) with
      | none => do
        countError
        let (entries, _) ← readEntries env dir names
        pure (entries, false)
      | some type => do
        let (entries, complete) ← readEntries env dir names
        pure ({ path := dir ++ [name], name, type } :: entries, complete)

/-- Directories come first, then by name. -/
def entryBefore (a b : EntryInfo) : Prop :=
  if (a.type = .dir) = (b.type = .dir) then a.name ≤ b.name else a.type = .dir

instance : DecidableRel entryBefore := fun _ _ => inferInstanceAs (Decidable (ite _ _ _))

/-- Ghost: the directory was listed. -/
def recordListed (dir : Path) (names : List String) (complete : Bool) : PushProc Unit :=
  if complete then change fun s => { s with listed := (dir, names) :: s.listed } else pure ()

/-- The body of the loop over directories. -/
def processDir (env : PushEnv) (dir : Path) (parentNodeId : String) : PushProc Unit := do
  ensureNotUpdateRequired env
  match ← readDir env dir with
  | none => countError
  | some names => do
    let (entries, complete) ← readEntries env dir names
    recordListed dir names complete
    processEntries env parentNodeId (entries.insertionSort entryBefore)

/-- `queue.pop_front`. -/
def popQueue : PushProc (Option (Path × String)) :=
  .act (fun _ s => { s with queue := s.queue.tail }) fun v => pure v.queue.head?

/-- The loop over directories. -/
def walk (env : PushEnv) : ℕ → PushProc Unit
  | 0 => .fail .stuck
  | fuel + 1 => do
    match ← popQueue with
    | none => pure ()
    | some (dir, parentNodeId) => do
      processDir env dir parentNodeId
      walk env fuel

/-! ### The sweep -/

/-- The children of a node. -/
def childrenOf (nodes : List LocalNode) (nodeId : String) : List LocalNode :=
  nodes.filter fun r => r.parentId = some nodeId

/-- `has_local_version`. -/
def Mirror.hasLocalVersion (m : Mirror) (versionId : String) : Bool :=
  (m.getVersion versionId).any fun version => version.manifest.all fun chunk => m.isUploaded chunk.chunkHash

/-- `folder_descendant_files_are_local`; no value when the loop does not end in time. -/
def folderDescendantFilesAreLocal (m : Mirror) (nodes : List LocalNode) : ℕ → List String → Option Bool
  | 0, _ => none
  | _ + 1, [] => some true
  | fuel + 1, nodeId :: queue =>
    let children := childrenOf nodes nodeId
    if children.all fun c => c.nodeType = .folder || c.currentVersionId.any m.hasLocalVersion then
      folderDescendantFilesAreLocal m nodes fuel
        (queue ++ (children.filter fun c => c.nodeType = .folder).map LocalNode.nodeId)
    else some false

/-- `should_delete`. -/
def shouldDelete (m : Mirror) (nodes : List LocalNode) (fuel : ℕ) (node : LocalNode) : Option Bool :=
  match node.nodeType with
  | .folder => folderDescendantFilesAreLocal m nodes fuel [node.nodeId]
  | .file => some (node.currentVersionId.any m.hasLocalVersion)

/-- What follows the delete of a missing node. -/
def finishDelete (env : PushEnv) (node : LocalNode) : SubmitResult → PushProc Unit
  | .applied serverSeq _ => do
    updateMirror fun m => m.markDeleted node.nodeId serverSeq env.now
    updateSummary fun m => { m with deletesSubmitted := m.deletesSubmitted + 1 }
  | .error e => do
    propagateUpdateRequired e
    recordPushError e
  | _ => countSkipped

/-- The delete of a missing node. -/
def submitDelete (env : PushEnv) (node : LocalNode) (path : Path) : PushProc Unit := do
  let result ← pushOp env path (.mutate node.nodeId node.serverSeq .delete)
  finishDelete env node result

/-- What the sweep does with a missing node, told whether it should be deleted. -/
def sweepMissing (env : PushEnv) (node : LocalNode) (path : Path) : Option Bool → PushProc Unit
  | none => .fail .stuck
  | some false => pure ()
  | some true => submitDelete env node path

/-- What the sweep does with a node that is not deferred. -/
def sweepNode (env : PushEnv) (nodes : List LocalNode) (node : LocalNode) (path : Path) : PushProc Unit := do
  if ← pathExists env path then pure () else do
    let judged ← (.read fun s => shouldDelete s.mirror nodes env.fuel node : PushProc _)
    sweepMissing env node path judged

/-- What the sweep knows of the nodes it has come to: those to go on from, and their paths. -/
structure Sweep where
  queue : List String
  paths : List (String × Path)
  deriving DecidableEq, Repr

/-- The path of a node. -/
def Sweep.path (w : Sweep) (nodeId : String) : Path := ((w.paths.find? fun e => e.1 = nodeId).map Prod.snd).getD []

/-- A child is reached. -/
def Sweep.reach (w : Sweep) (parentId : String) (node : LocalNode) : Sweep where
  queue := w.queue ++ [node.nodeId]
  paths := (node.nodeId, w.path parentId ++ [node.name]) :: w.paths

/-- The loop over the children of a node. -/
def sweepChildren (env : PushEnv) (nodes : List LocalNode) (deferred : List String) (parentId : String) :
    List LocalNode → Sweep → PushProc Sweep
  | [], w => pure w
  | node :: rest, w => do
    ensureNotUpdateRequired env
    if node.nodeId ∈ deferred then sweepChildren env nodes deferred parentId rest w else do
      sweepNode env nodes node (w.path parentId ++ [node.name])
      sweepChildren env nodes deferred parentId rest (w.reach parentId node)

/-- The loop of `submit_deletes_for_missing`. -/
def sweep (env : PushEnv) (nodes : List LocalNode) (deferred : List String) : ℕ → Sweep → PushProc Unit
  | 0, _ => .fail .stuck
  | fuel + 1, w =>
    match w.queue with
    | [] => pure ()
    | parentId :: queue => do
      let w' ← sweepChildren env nodes deferred parentId (childrenOf nodes parentId) { w with queue }
      sweep env nodes deferred fuel w'

/-- The node that stands for the mount root. -/
def seedNode (env : PushEnv) (nodes : List LocalNode) : Option LocalNode :=
  match env.scopeNodeId with
  | some scopeNodeId => nodes.find? fun r => r.nodeId = scopeNodeId
  | none => nodes.find? fun r => r.parentId.isNone

/-- Where the sweep starts. -/
def Sweep.start (seed : LocalNode) : Sweep := { queue := [seed.nodeId], paths := [(seed.nodeId, [])] }

/-- `submit_deletes_for_missing`. -/
def submitDeletesForMissing (env : PushEnv) : PushProc Unit := do
  ensureNotUpdateRequired env
  let nodes ← (.read fun s => s.mirror.liveNodes env.folderId : PushProc _)
  let deferred ← (.read fun s => s.deferred : PushProc _)
  match seedNode env nodes with
  | none => pure ()
  | some seed => sweep env nodes deferred env.fuel (Sweep.start seed)

/-! ### The pass -/

/-- What comes before the sweep. -/
def pushTree (env : PushEnv) : PushProc Unit := do
  ensureNotUpdateRequired env
  match ← (.read fun s => s.mirror.getRootNode env.folderId : PushProc _) with
  | none => .fail .noRoot
  | some root => do
    enqueue [] (env.scopeNodeId.getD root.nodeId)
    walk env env.fuel

/-- `push_local`. -/
def pushLocal (env : PushEnv) : PushProc Unit := do
  pushTree env
  submitDeletesForMissing env

end Valv.Client
