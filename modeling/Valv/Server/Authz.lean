import Valv.Server.Schema

/-!
# Grants

`checkGrant` of `core/src/metadata/authz.ts`: walk from a node towards the root until a
grant of the principal is found, one query after another.
-/

namespace Valv.Server

open Valv.Conc Valv.Table

inductive Principal where
  | user (userId : String)
  | device (deviceId : String)
  deriving DecidableEq, Repr

inductive GrantRequirement where
  | read
  | write
  deriving DecidableEq, Repr

inductive DenyReason where
  | noGrant
  | insufficientPermission
  deriving DecidableEq, Repr

def DenyReason.text : DenyReason → String
  | .noGrant => "no_grant"
  | .insufficientPermission => "insufficient_permission"

inductive AuthzResult where
  | granted (grantId scopeNodeId : String) (canWrite : Bool)
  | denied (reason : DenyReason)
  deriving DecidableEq, Repr

/-- `MAX_GRANT_WALK_DEPTH`. -/
def maxGrantWalkDepth : ℕ := 50

/-- An id that JavaScript counts as true: present and not empty. -/
def truthy (id : Option String) : Option String := id.filter fun s => s ≠ ""

/-- `loadDeviceUserId`. -/
def loadDeviceUserId (deviceId : String) : DbProc (Option String) :=
  .read fun s => (lookup DeviceRow.deviceId deviceId s.devices).bind DeviceRow.userId

/-- The `principalCondition` of a grant query. -/
def principalCondition (principal : Principal) (deviceUserId : Option String)
    (g : FolderGrantRow) : Bool :=
  match principal with
  | .user userId => g.userId = some userId
  | .device deviceId =>
    match truthy deviceUserId with
    | some userId => g.deviceId = some deviceId || g.userId = some userId
    | none => g.deviceId = some deviceId

/-- The user behind a device principal; users need no query. -/
def principalUserId : Principal → DbProc (Option String)
  | .user _ => pure none
  | .device deviceId => loadDeviceUserId deviceId

/-- `loadGrant`. -/
def loadGrant (folderId scopeNodeId : String) (principal : Principal) :
    DbProc (Option FolderGrantRow) := do
  let deviceUserId ← principalUserId principal
  .read fun s => s.folderGrants.find? fun g =>
    g.scopeNodeId = scopeNodeId && g.folderId = folderId && principalCondition principal deviceUserId g

/-- `loadNode`. -/
def loadNode (nodeId : String) : DbProc (Option NodeRow) := .read fun s => s.node nodeId

/-- What a grant found on the walk allows. -/
def grantResult (g : FolderGrantRow) : GrantRequirement → AuthzResult
  | .write => if g.canWrite then .granted g.grantId g.scopeNodeId g.canWrite
      else .denied .insufficientPermission
  | .read => if g.canRead || g.canWrite then .granted g.grantId g.scopeNodeId g.canWrite
      else .denied .insufficientPermission

/-- The loop of `checkGrant`; the first argument is the depth that is left. -/
def walkGrants (folderId : String) (principal : Principal) (require : GrantRequirement) :
    ℕ → Option String → Option String → DbProc AuthzResult
  | 0, _, _ => pure (.denied .noGrant)
  | fuel + 1, currentId, parentId =>
    match truthy currentId with
    | none => pure (.denied .noGrant)
    | some current => do
      match ← loadGrant folderId current principal with
      | some g => pure (grantResult g require)
      | none =>
        match truthy parentId with
        | none => pure (.denied .noGrant)
        | some p => do
          let parent ← loadNode p
          walkGrants folderId principal require fuel (parent.map NodeRow.nodeId)
            (parent.bind NodeRow.parentId)

/-- `checkGrant`. -/
def checkGrant (nodeId : String) (principal : Principal) (require : GrantRequirement) :
    DbProc AuthzResult := do
  match ← loadNode nodeId with
  | none => pure (.denied .noGrant)
  | some target =>
    walkGrants target.folderId principal require maxGrantWalkDepth (some target.nodeId) target.parentId

/-! ### The walk only reads -/

theorem loadGrant_readOnly (folderId scopeNodeId : String) (principal : Principal) :
    (loadGrant folderId scopeNodeId principal).ReadOnly := by
  cases principal with
  | user userId => exact Proc.readOnly_read _
  | device deviceId => exact (Proc.readOnly_read _).bind fun _ => Proc.readOnly_read _

theorem walkGrants_readOnly (folderId : String) (principal : Principal)
    (require : GrantRequirement) (fuel : ℕ) (currentId parentId : Option String) :
    (walkGrants folderId principal require fuel currentId parentId).ReadOnly := by
  induction fuel generalizing currentId parentId with
  | zero => exact True.intro
  | succ fuel ih =>
    rw [walkGrants]
    cases truthy currentId with
    | none => exact True.intro
    | some current =>
      refine (loadGrant_readOnly folderId current principal).bind fun g => ?_
      cases g with
      | some g => exact True.intro
      | none =>
        cases truthy parentId with
        | none => exact True.intro
        | some p => exact (Proc.readOnly_read _).bind fun parent => ih _ _

/-- Checking a grant writes nothing. -/
theorem checkGrant_readOnly (nodeId : String) (principal : Principal) (require : GrantRequirement) :
    (checkGrant nodeId principal require).ReadOnly := by
  refine (Proc.readOnly_read _).bind fun target => ?_
  cases target with
  | none => exact True.intro
  | some target => exact walkGrants_readOnly _ _ _ _ _ _

end Valv.Server
