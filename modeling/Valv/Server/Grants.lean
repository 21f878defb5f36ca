import Valv.Server.Commit
import Valv.Server.Delta
import Valv.Server.Folders

/-!
# Access keys and invites

The routes of `core/src/metadata/grants.ts` and `invites.ts` that write: access keys are issued,
revoked and regenerated; people are invited to a folder and accept.  E-mails, which no check reads,
and the hooks behind a commit are left out.

* `createGrant`, `deleteGrant`, `regenerateGrant`, `createInvite`, `acceptInvite`, `deleteInvite`.
* `Request`: one request to the metadata router, `Request.serve`: the database it leaves, alone.
-/

namespace Valv.Server

open Valv.Conc Valv.Table

/-! ### Statements -/

/-- `INSERT INTO devices`. -/
def insertDevice (r : DeviceRow) : DbProc Unit :=
  .stmt (fun s => if (lookup DeviceRow.deviceId r.deviceId s.devices).isSome then some (.constraint .primaryKey)
      else none)
    (fun _ s => { s with devices := s.devices ++ [r] })

/-- `UPDATE devices SET token_hash = … WHERE device_id = …`. -/
def updateTokenHash (deviceId tokenHash : String) : DbProc Unit :=
  .stmt (fun _ => none) fun _ s => { s with
    devices := update DeviceRow.deviceId deviceId (fun r => { r with tokenHash }) s.devices }

/-- `DELETE FROM folder_grants WHERE grant_id = …`. -/
def deleteFolderGrant (grantId : String) : DbProc Unit :=
  .stmt (fun _ => none) fun _ s => { s with folderGrants := s.folderGrants.filter fun g => g.grantId ≠ grantId }

/-- The constraints on an inserted invite. -/
def Db.inviteViolation (s : Db) (r : FolderInviteRow) : Option ApiError :=
  if s.folderInvites.any fun r' => r'.inviteToken = r.inviteToken then some (.constraint .primaryKey)
  else if s.folderInvites.any fun r' => r'.inviteId = r.inviteId then
    some (.constraint .folderInvitesInviteIdUnique)
  else if r.folderId ∉ s.sharedFolders then some (.constraint .foreignKey)
  else if (s.node r.scopeNodeId).isNone then some (.constraint .foreignKey)
  else none

/-- `INSERT INTO folder_invites`. -/
def insertFolderInvite (r : FolderInviteRow) : DbProc Unit :=
  .stmt (fun s => s.inviteViolation r) (fun _ s => { s with folderInvites := s.folderInvites ++ [r] })

/-- `UPDATE folder_invites SET status = 'accepted' WHERE invite_token = … AND status = 'pending'`. -/
def acceptFolderInvite (inviteToken : String) : DbProc Unit :=
  .stmt (fun _ => none) fun _ s => { s with
    folderInvites := s.folderInvites.map fun r =>
      if r.inviteToken = inviteToken ∧ r.status = .pending then { r with status := .accepted } else r }

/-- `DELETE FROM folder_invites WHERE invite_id = …`. -/
def deleteFolderInvite (inviteId : String) : DbProc Unit :=
  .stmt (fun _ => none) fun _ s => { s with folderInvites := s.folderInvites.filter fun r => r.inviteId ≠ inviteId }

/-- The row of a grant. -/
def Db.grant (s : Db) (grantId : String) : Option FolderGrantRow := lookup FolderGrantRow.grantId grantId s.folderGrants

/-- The row of an invite, by its token. -/
def Db.invite (s : Db) (inviteToken : String) : Option FolderInviteRow :=
  lookup FolderInviteRow.inviteToken inviteToken s.folderInvites

/-! ### Checks -/

/-- A field of a JSON body, as far as the routes tell its values apart. -/
inductive BodyField where
  | undefined
  | string (value : String)
  | other
  deriving DecidableEq, Repr

/-- `typeof field === "string" ? field : fallback`. -/
def BodyField.orElse (fallback : Option String) : BodyField → Option String
  | .string value => some value
  | _ => fallback

/-- `requireUserBackedPrincipal`. -/
def requireUserBackedPrincipal (principal : Principal) (errorCode : String) : DbProc String := do
  match truthy (← resolveEffectiveUserId principal) with
  | none => .fail (.response 403 errorCode)
  | some userId => pure userId

/-- A value that the route answers 404 for when it is missing or empty. -/
def requireFound (error : String) (id : Option String) : DbProc String :=
  match truthy id with
  | none => .fail (.response 404 error)
  | some id => pure id

/-- Answer with an error when the condition holds. -/
def refuseIf (c : Prop) [Decidable c] (status : ℕ) (error : String) : DbProc Unit :=
  if c then .fail (.response status error) else pure ()

/-- `inTransaction` with `atomicOnSqlite`: a transaction on both databases. -/
def inAtomicTransaction {α : Type} (fn : DbProc α) : DbProc α := .transaction fn

/-! ### Access keys -/

/-- A request to `POST /folders/:id/grants`; what `checkPlan` allows, the ids that `newId()` returns
and the hash of the new token. -/
structure GrantCall where
  principal : Principal
  folderId : String
  scopeNodeId : BodyField
  name : BodyField
  canRead : Bool
  canWrite : Bool
  planAllowed : Bool
  deviceId : String
  grantId : String
  tokenHash : String
  deriving DecidableEq, Repr

/-- The device of the new key. -/
def GrantCall.device (call : GrantCall) : DeviceRow :=
  { deviceId := call.deviceId, userId := none, name := (call.name.orElse none).getD "Agent",
    tokenHash := call.tokenHash }

/-- The grant of the new key. -/
def GrantCall.row (call : GrantCall) (scopeNodeId createdByUserId : String) : FolderGrantRow :=
  { grantId := call.grantId, folderId := call.folderId, scopeNodeId, userId := none,
    deviceId := some call.deviceId, canRead := call.canRead, canWrite := call.canWrite,
    name := call.name.orElse (some "Agent"), createdByUserId := some createdByUserId }

/-- `isDuplicateGrantNameError`. -/
def isDuplicateGrantNameError : ApiError → Bool
  | .constraint .folderGrantsFolderNameUnique => true
  | _ => false

/-- The callback of `inTransaction`. -/
def createGrantBody (device : DeviceRow) (row : FolderGrantRow) : DbProc String := do
  insertDevice device
  insertFolderGrant row
  pure row.grantId

/-- The `catch` around it. -/
def nameTaken (error : ApiError) : DbProc String :=
  if isDuplicateGrantNameError error then .fail (.response 409 "access_key_name_taken") else .fail error

/-- What stands in front of the transaction: the scope and the issuing user. -/
def checkGrantRequest (call : GrantCall) : DbProc (String × String) := do
  refuseIf (call.scopeNodeId = .other) 400 "invalid_scope_node_id"
  let scopeNodeId ← requireFound "folder_not_found"
    (call.scopeNodeId.orElse (← getFolderRoot call.folderId))
  let createdByUserId ← requireUserBackedPrincipal call.principal "access_key_cannot_issue_keys"
  requireWrite scopeNodeId call.principal
  refuseIf (call.planAllowed = false) 402 "subscription_inactive"
  pure (scopeNodeId, createdByUserId)

/-- `POST /folders/:id/grants`; the id of the grant. -/
def createGrant (be : Backend) (call : GrantCall) : DbProc String := do
  let (scopeNodeId, createdByUserId) ← checkGrantRequest call
  (inTransaction be scopeNodeId (createGrantBody call.device (call.row scopeNodeId createdByUserId))).attempt
    nameTaken

/-- The grant a request names, which its issuer may write to. -/
def checkGrantTarget (principal : Principal) (grantId errorCode : String) :
    DbProc (FolderGrantRow × String) := do
  let createdByUserId ← requireUserBackedPrincipal principal errorCode
  match ← (.read fun s => s.grant grantId : DbProc _) with
  | none => .fail (.response 404 "grant_not_found")
  | some target => do
    requireWrite target.scopeNodeId principal
    pure (target, createdByUserId)

/-- The token hash of a key whose grant was revoked. -/
def revokedHash (grantId : String) : String := "revoked:" ++ grantId

/-- The token of the device, if there is one, is revoked. -/
def revokeToken (grantId : String) (deviceId : Option String) : DbProc Unit :=
  match truthy deviceId with
  | none => pure ()
  | some deviceId => updateTokenHash deviceId (revokedHash grantId)

/-- `DELETE /folders/:id/grants/:grantId`. -/
def deleteGrant (principal : Principal) (grantId : String) : DbProc String := do
  let (target, _) ← checkGrantTarget principal grantId "access_key_cannot_revoke"
  deleteFolderGrant grantId
  revokeToken grantId target.deviceId
  pure grantId

/-- A request to `POST /folders/:id/grants/:grantId/regenerate`; what the hook `onBeforeCommit`
throws, the new ids and the hash of the new token. -/
structure RegenerateCall where
  principal : Principal
  grantId : String
  onBeforeCommit : Option ApiError
  deviceId : String
  newGrantId : String
  tokenHash : String
  deriving DecidableEq, Repr

/-- The device that replaces one with the name. -/
def RegenerateCall.device (call : RegenerateCall) (name : String) : DeviceRow :=
  { deviceId := call.deviceId, userId := none, name, tokenHash := call.tokenHash }

/-- The grant that replaces `old`. -/
def RegenerateCall.row (call : RegenerateCall) (old : FolderGrantRow) (createdByUserId : String) :
    FolderGrantRow :=
  { grantId := call.newGrantId, folderId := old.folderId, scopeNodeId := old.scopeNodeId, userId := none,
    deviceId := some call.deviceId, canRead := old.canRead, canWrite := old.canWrite, name := old.name,
    createdByUserId := some createdByUserId }

/-- The name of the device of a key. -/
def loadDeviceName (deviceId : String) : DbProc String :=
  .read fun s => ((lookup DeviceRow.deviceId deviceId s.devices).map DeviceRow.name).getD "Agent"

/-- The callback of `inTransaction`; no value stands for `undefined`. -/
def regenerateBody (call : RegenerateCall) (createdByUserId : String) : DbProc (Option String) := do
  match ← (.read fun s => s.grant call.grantId : DbProc _) with
  | none => pure none
  | some old =>
    match truthy old.deviceId with
    | none => pure none
    | some oldDeviceId => do
      let name ← loadDeviceName oldDeviceId
      deleteFolderGrant call.grantId
      updateTokenHash oldDeviceId (revokedHash call.grantId)
      insertDevice (call.device name)
      insertFolderGrant (call.row old createdByUserId)
      match call.onBeforeCommit with
      | some error => .fail error
      | none => pure (some call.newGrantId)

/-- `POST /folders/:id/grants/:grantId/regenerate`. -/
def regenerateGrant (call : RegenerateCall) : DbProc String := do
  let (target, createdByUserId) ← checkGrantTarget call.principal call.grantId "access_key_cannot_issue_keys"
  refuseIf ((truthy target.deviceId).isNone) 400 "grant_has_no_token"
  match ← inAtomicTransaction (regenerateBody call createdByUserId) with
  | none => .fail (.response 400 "grant_has_no_token")
  | some grantId => pure grantId

/-! ### Invites -/

/-- A request to `POST /folders/:id/invites`, with the id and token made for it. -/
structure InviteCall where
  principal : Principal
  folderId : String
  invitedEmail : BodyField
  scopeNodeId : BodyField
  canWrite : Bool
  now : ℕ
  inviteId : String
  inviteToken : String
  deriving DecidableEq, Repr

/-- Seven days, in milliseconds. -/
def inviteLifetime : ℕ := 7 * 24 * 60 * 60 * 1000

/-- The invite of a request. -/
def InviteCall.row (call : InviteCall) (scopeNodeId invitedByUserId : String) : FolderInviteRow :=
  { inviteId := call.inviteId, inviteToken := call.inviteToken, folderId := call.folderId, scopeNodeId,
    invitedByUserId, canWrite := call.canWrite, expiresAt := call.now + inviteLifetime }

/-- What stands in front of the insert: the scope and the inviter. -/
def checkInviteRequest (call : InviteCall) : DbProc (String × String) := do
  refuseIf ((truthy (call.invitedEmail.orElse none)).isNone) 400 "invalid_invited_email"
  let scopeNodeId ← requireFound "folder_not_found"
    (call.scopeNodeId.orElse (← getFolderRoot call.folderId))
  requireWrite scopeNodeId call.principal
  let invitedByUserId ← requireUserBackedPrincipal call.principal "access_key_cannot_invite_people"
  pure (scopeNodeId, invitedByUserId)

/-- `POST /folders/:id/invites`. -/
def createInvite (be : Backend) (call : InviteCall) : DbProc Unit := do
  let (scopeNodeId, invitedByUserId) ← checkInviteRequest call
  inTransaction be scopeNodeId (insertFolderInvite (call.row scopeNodeId invitedByUserId))

/-- A request to `POST /invites/:token/accept`, with the id of its grant. -/
structure AcceptCall where
  principal : Principal
  inviteToken : String
  now : ℕ
  grantId : String
  deriving DecidableEq, Repr

/-- The grant of an accepted invite. -/
def AcceptCall.row (call : AcceptCall) (invite : FolderInviteRow) (userId : String) : FolderGrantRow :=
  { grantId := call.grantId, folderId := invite.folderId, scopeNodeId := invite.scopeNodeId,
    userId := some userId, deviceId := none, canRead := true, canWrite := invite.canWrite,
    createdByUserId := some invite.invitedByUserId }

/-- The callback of `inTransaction`. -/
def acceptBody (inviteToken : String) (row : FolderGrantRow) : DbProc Unit := do
  insertFolderGrant row
  acceptFolderInvite inviteToken

/-- `POST /invites/:token/accept`. -/
def acceptInvite (be : Backend) (call : AcceptCall) : DbProc Unit :=
  match call.principal with
  | .device _ => .fail (.response 403 "user_required")
  | .user userId => do
    match ← (.read fun s => s.invite call.inviteToken : DbProc _) with
    | none => .fail (.response 404 "invite_not_found")
    | some invite =>
      if invite.status = .accepted then pure ()
      else if invite.status ≠ .pending then .fail (.response 409 "invite_not_pending")
      else if invite.expiresAt ≤ call.now then .fail (.response 410 "invite_expired")
      else inTransaction be invite.scopeNodeId (acceptBody call.inviteToken (call.row invite userId))

/-- `DELETE /folders/:id/invites/:inviteId`. -/
def deleteInvite (principal : Principal) (folderId inviteId : String) : DbProc Unit := do
  let rootNodeId ← requireFound "folder_not_found" (← getFolderRoot folderId)
  let _ ← requireUserBackedPrincipal principal "access_key_cannot_revoke"
  requireWrite rootNodeId principal
  match ← (.read fun s => lookup FolderInviteRow.inviteId inviteId s.folderInvites : DbProc _) with
  | none => .fail (.response 404 "invite_not_found")
  | some invite =>
    if invite.folderId ≠ folderId then .fail (.response 404 "invite_not_found")
    else if invite.status = .accepted then .fail (.response 409 "invite_already_accepted")
    else deleteFolderInvite inviteId

/-! ### Requests -/

/-- A request that can change who may do what, or the tree it is about. -/
inductive Request where
  | createFolder (call : FolderCall)
  | createGrant (call : GrantCall)
  | deleteGrant (principal : Principal) (grantId : String)
  | regenerateGrant (call : RegenerateCall)
  | createInvite (call : InviteCall)
  | acceptInvite (call : AcceptCall)
  | deleteInvite (principal : Principal) (folderId inviteId : String)
  | submitOp (call : SubmitCall)
  deriving DecidableEq, Repr

/-- The database after the request. -/
def Request.serve (be : Backend) (s : Db) : Request → Db
  | .createFolder call => ((Server.createFolder be call).exec s none).1
  | .createGrant call => ((Server.createGrant be call).exec s none).1
  | .deleteGrant principal grantId => ((Server.deleteGrant principal grantId).exec s none).1
  | .regenerateGrant call => ((Server.regenerateGrant call).exec s none).1
  | .createInvite call => ((Server.createInvite be call).exec s none).1
  | .acceptInvite call => ((Server.acceptInvite be call).exec s none).1
  | .deleteInvite principal folderId inviteId =>
    ((Server.deleteInvite principal folderId inviteId).exec s none).1
  | .submitOp call => (Valv.Server.serve be call s).1

end Valv.Server
