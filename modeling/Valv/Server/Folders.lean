import Valv.Server.Commit

/-!
# Creating a folder

`POST /folders` of `core/src/metadata/folders.ts`: a shared folder with its root node and the
owner's grant on it.  The folder's name and role columns, which nothing here reads, and the hook
`onFolderCreated` are left out.
-/

namespace Valv.Server

open Valv.Conc Valv.Table

/-! ### Statements -/

/-- `INSERT INTO shared_folders`. -/
def insertSharedFolder (folderId : String) : DbProc Unit :=
  .stmt (fun s => if folderId ∈ s.sharedFolders then some (.constraint .primaryKey) else none)
    (fun _ s => { s with sharedFolders := s.sharedFolders ++ [folderId] })

/-- Another grant of a device has the name in the folder. -/
def Db.grantNameTaken (s : Db) (g : FolderGrantRow) : Bool :=
  g.deviceId.isSome && g.name.isSome && s.folderGrants.any fun g' =>
    g'.deviceId.isSome && g'.folderId = g.folderId && g'.name = g.name

/-- The constraints on an inserted grant. -/
def Db.grantViolation (s : Db) (g : FolderGrantRow) : Option ApiError :=
  if s.folderGrants.any fun g' => g'.grantId = g.grantId then some (.constraint .primaryKey)
  else if g.folderId ∉ s.sharedFolders then some (.constraint .foreignKey)
  else if (s.node g.scopeNodeId).isNone then some (.constraint .foreignKey)
  else if g.deviceId.any fun d => d ∉ s.devices.map DeviceRow.deviceId then some (.constraint .foreignKey)
  else if g.userId.isNone = g.deviceId.isNone then some (.constraint .folderGrantsPrincipalXor)
  else if s.grantNameTaken g then some (.constraint .folderGrantsFolderNameUnique)
  else none

/-- `INSERT INTO folder_grants`. -/
def insertFolderGrant (g : FolderGrantRow) : DbProc Unit :=
  .stmt (fun s => s.grantViolation g) (fun _ s => { s with folderGrants := s.folderGrants ++ [g] })

/-! ### The route -/

/-- `resolveEffectiveUserId`. -/
def resolveEffectiveUserId : Principal → DbProc (Option String)
  | .user userId => pure (some userId)
  | .device deviceId => loadDeviceUserId deviceId

/-- A request to `POST /folders`, with the ids that `newId()` returns for it. -/
structure FolderCall where
  principal : Principal
  folderId : String
  rootNodeId : String
  grantId : String
  deriving DecidableEq, Repr

/-- The root of the new folder. -/
def FolderCall.root (call : FolderCall) : NodeRow :=
  { nodeId := call.rootNodeId, folderId := call.folderId, parentId := none, name := "", type := .folder }

/-- The owner's grant. -/
def FolderCall.ownerGrant (call : FolderCall) (ownerUserId : String) : FolderGrantRow :=
  { grantId := call.grantId, folderId := call.folderId, scopeNodeId := call.rootNodeId,
    userId := some ownerUserId, deviceId := none, canRead := true, canWrite := true,
    createdByUserId := some ownerUserId }

/-- The callback of `inTransaction`. -/
def createFolderBody (be : Backend) (call : FolderCall) (ownerUserId : String) : DbProc String := do
  insertSharedFolder call.folderId
  lockKey be (.node call.rootNodeId)
  insertNode call.root
  insertFolderGrant (call.ownerGrant ownerUserId)
  pure call.folderId

/-- `POST /folders`; the id of the folder. -/
def createFolder (be : Backend) (call : FolderCall) : DbProc String := do
  match truthy (← resolveEffectiveUserId call.principal) with
  | none => .fail (.response 403 "agent_devices_cannot_create_folders")
  | some ownerUserId => inTransaction be call.rootNodeId (createFolderBody be call ownerUserId)

theorem callback_createFolderBody (be : Backend) (call : FolderCall) (ownerUserId : String) :
    Callback be (createFolderBody be call ownerUserId) := by
  have hfolder : Callback be (insertSharedFolder call.folderId) := Callback.stmt fun _ _ => ⟨rfl, rfl⟩
  have hroot : Callback be (insertNode call.root) := Callback.stmt fun _ _ => ⟨rfl, rfl⟩
  have hgrant : Callback be (insertFolderGrant (call.ownerGrant ownerUserId)) :=
    Callback.stmt fun _ _ => ⟨rfl, rfl⟩
  exact hfolder.bind fun _ => (Callback.lockKey _).bind fun _ => hroot.bind fun _ =>
    hgrant.bind fun _ => Callback.pure _

theorem resolveEffectiveUserId_readOnly (principal : Principal) :
    (resolveEffectiveUserId principal).ReadOnly := by
  cases principal with
  | user userId => exact True.intro
  | device deviceId => exact Proc.readOnly_read _

end Valv.Server
