import Valv.Lib.Connection
import Valv.Server.Edit
import Valv.Server.Gc

/-!
# The SQLite server

All requests share the connection that `createDb` opens.  Only the regeneration of a key begins a
transaction on it, and holds it open over several statements and a hook that may fail.

* `ServerCall`: a request or a pass of the collector, and its program.
* `bracketed_program`: brackets match, and nobody goes on behind a rollback.
* `writes_acknowledged`: what lasts, in the order of statements that `Conn.Orderly` allows.
* `write_rolled_back`: a regeneration that fails takes back what others were told is done.
-/

namespace Valv.Server

open Valv.Conc Valv.Table

/-! ### Programs -/

/-- `runChunkGcOnce`, for the chunks it has selected.  The objects are not in the database. -/
def collectChunks : List String → GcPassResult → DbProc GcPassResult
  | [], result => pure result
  | hash :: todo, result => do
    let result ← Proc.attempt (deleteChunkRow hash >>= fun deleted =>
        pure { result with deletedCount := result.deletedCount + if deleted then 1 else 0 })
      fun _ => pure { result with errorCount := result.errorCount + 1 }
    collectChunks todo result

/-- `runChunkGcOnce`. -/
def runChunkGcOnce (args : GcArgs) : DbProc GcPassResult := do
  let g ← (.read (ChunkGc.start args) : DbProc ChunkGc)
  collectChunks g.todo g.result

/-- What the server is called for. -/
inductive ServerCall where
  | request (req : Request)
  | batch (call : BatchCall)
  | collect (args : GcArgs)
  | purge (args : GcArgs)
  | truncate (args : GcArgs)
  deriving DecidableEq, Repr

/-- The program without its result. -/
def discard {α : Type} (p : DbProc α) : DbProc Unit := p >>= fun _ => pure ()

/-- The handler of a request, on SQLite. -/
def Request.program : Request → DbProc Unit
  | .createFolder call => discard (Server.createFolder .sqlite call)
  | .createGrant call => discard (Server.createGrant .sqlite call)
  | .deleteGrant principal grantId => discard (Server.deleteGrant principal grantId)
  | .regenerateGrant call => discard (Server.regenerateGrant call)
  | .createInvite call => Server.createInvite .sqlite call
  | .acceptInvite call => Server.acceptInvite .sqlite call
  | .deleteInvite principal folderId inviteId => Server.deleteInvite principal folderId inviteId
  | .submitOp call => discard (Server.submitOp .sqlite call)

def ServerCall.program : ServerCall → DbProc Unit
  | .request req => req.program
  | .batch call => discard (handleBatch call)
  | .collect args => discard (runChunkGcOnce args)
  | .purge args => discard (runTombstonePurgeOnce args)
  | .truncate args => discard (runOpLogTruncationOnce args)

/-! ### Brackets -/

section Brackets

theorem unbracketed_discard {α : Type} {p : DbProc α} (h : p.Unbracketed) : (discard p).Unbracketed :=
  h.bind fun _ => True.intro

/-- No transaction is begun: `fn(auth.db)`. -/
theorem unbracketed_inTransaction {α : Type} {n : String} {p : DbProc α} (h : p.Unbracketed) :
    (inTransaction .sqlite n p).Unbracketed := h.unprotected _

theorem unbracketed_createFolder (call : FolderCall) : (createFolder .sqlite call).Unbracketed := by
  refine (resolveEffectiveUserId_readOnly call.principal).unbracketed.bind fun owner => ?_
  cases truthy owner with
  | none => exact True.intro
  | some ownerUserId =>
    have hfolder : (insertSharedFolder call.folderId).Unbracketed := .stmt _ _
    have hroot : (insertNode call.root).Unbracketed := .stmt _ _
    have hgrant : (insertFolderGrant (call.ownerGrant ownerUserId)).Unbracketed := .stmt _ _
    exact unbracketed_inTransaction (hfolder.bind fun _ => hroot.bind fun _ => hgrant.bind fun _ => True.intro)

theorem unbracketed_createGrant (call : GrantCall) : (createGrant .sqlite call).Unbracketed := by
  refine (checkGrantRequest_readOnly call).unbracketed.bind fun scope => ?_
  have hdevice : ∀ r, (insertDevice r).Unbracketed := fun r => .stmt _ _
  have hgrant : ∀ g, (insertFolderGrant g).Unbracketed := fun g => .stmt _ _
  have hbody : ∀ g, (createGrantBody call.device g).Unbracketed := fun g =>
    (hdevice _).bind fun _ => (hgrant g).bind fun _ => True.intro
  refine (unbracketed_inTransaction (hbody _)).attempt fun error => ?_
  rw [nameTaken]
  split <;> exact True.intro

theorem unbracketed_deleteGrant (principal : Principal) (grantId : String) :
    (deleteGrant principal grantId).Unbracketed := by
  have hdelete : (deleteFolderGrant grantId).Unbracketed := .stmt _ _
  exact (checkGrantTarget_readOnly principal grantId _).unbracketed.bind fun _ => hdelete.bind fun _ =>
    (unbracketed_revokeToken _ _).bind fun _ => True.intro

theorem unbracketed_regenerateBody (call : RegenerateCall) (createdByUserId : String) :
    (regenerateBody call createdByUserId).Unbracketed := by
  refine (Proc.readOnly_read _).unbracketed.bind fun old => ?_
  cases old with
  | none => exact True.intro
  | some old =>
    dsimp only
    cases truthy old.deviceId with
    | none => exact True.intro
    | some oldDeviceId =>
      have hname : (loadDeviceName oldDeviceId).Unbracketed := (Proc.readOnly_read _).unbracketed
      have hdelete : (deleteFolderGrant call.grantId).Unbracketed := .stmt _ _
      have htoken : (updateTokenHash oldDeviceId (revokedHash call.grantId)).Unbracketed := .stmt _ _
      have hdevice : ∀ r, (insertDevice r).Unbracketed := fun r => .stmt _ _
      have hgrant : (insertFolderGrant (call.row old createdByUserId)).Unbracketed := .stmt _ _
      refine hname.bind fun name => hdelete.bind fun _ => htoken.bind fun _ => (hdevice _).bind fun _ =>
        hgrant.bind fun _ => ?_
      cases call.onBeforeCommit <;> exact True.intro

/-- **The only transaction.** -/
theorem bracketed_regenerateGrant (call : RegenerateCall) : (regenerateGrant call).Bracketed false := by
  refine (checkGrantTarget_readOnly call.principal call.grantId _).unbracketed.bracketed.bind fun target => ?_
  refine (refuseIf_readOnly _ _ _).unbracketed.bracketed.bind fun _ => ?_
  refine (unbracketed_regenerateBody call _).transaction.bind fun grantId => ?_
  cases grantId <;> rfl

theorem unbracketed_createInvite (call : InviteCall) : (createInvite .sqlite call).Unbracketed := by
  refine (checkInviteRequest_readOnly call).unbracketed.bind fun scope => ?_
  have hinsert : ∀ r, (insertFolderInvite r).Unbracketed := fun r => .stmt _ _
  exact unbracketed_inTransaction (hinsert _)

theorem unbracketed_acceptInvite (call : AcceptCall) : (acceptInvite .sqlite call).Unbracketed := by
  rw [acceptInvite]
  cases call.principal with
  | device deviceId => exact True.intro
  | user userId =>
    refine (Proc.readOnly_read _).unbracketed.bind fun invite => ?_
    cases invite with
    | none => exact True.intro
    | some invite =>
      have hgrant : (insertFolderGrant (call.row invite userId)).Unbracketed := .stmt _ _
      have hstatus : (acceptFolderInvite call.inviteToken).Unbracketed := .stmt _ _
      dsimp only
      split
      · exact True.intro
      · split
        · exact True.intro
        · split
          · exact True.intro
          · exact unbracketed_inTransaction (hgrant.bind fun _ => hstatus)

theorem unbracketed_deleteInvite (principal : Principal) (folderId inviteId : String) :
    (deleteInvite principal folderId inviteId).Unbracketed := by
  have hroot : (getFolderRoot folderId).ReadOnly := Proc.readOnly_read _
  have hdelete : (deleteFolderInvite inviteId).Unbracketed := .stmt _ _
  refine hroot.unbracketed.bind fun root => (requireFound_readOnly _ _).unbracketed.bind fun rootNodeId => ?_
  refine (requireUserBackedPrincipal_readOnly _).unbracketed.bind fun u => ?_
  refine (requireWrite_readOnly _ _).unbracketed.bind fun _ => (Proc.readOnly_read _).unbracketed.bind fun invite => ?_
  cases invite with
  | none => exact True.intro
  | some invite =>
    dsimp only
    split
    · exact True.intro
    · split
      · exact True.intro
      · exact hdelete

theorem unbracketed_handleBatch (call : BatchCall) : (handleBatch call).Unbracketed := by
  rw [handleBatch]
  split
  · exact (planUploads_unbracketed call.objects).bind fun plans =>
      (checkQuota_readOnly call _).unbracketed.bind fun _ => handleUploads_unbracketed plans
  · exact (handleDownloads_readOnly call.objects).unbracketed

theorem unbracketed_collectChunks (todo : List String) (result : GcPassResult) :
    (collectChunks todo result).Unbracketed := by
  induction todo generalizing result with
  | nil => exact True.intro
  | cons hash todo ih =>
    have hdelete : (deleteChunkRow hash).Unbracketed := by
      intro v
      dsimp only
      split
      · split <;> exact True.intro
      · exact True.intro
    refine Proc.Unbracketed.bind (Proc.Unbracketed.attempt (hdelete.bind fun deleted => ?_) fun error => ?_)
      fun result => ih result
    · exact True.intro
    · exact True.intro

/-- **Brackets match in every handler**, and nobody goes on behind a rollback. -/
theorem bracketed_program (call : ServerCall) : call.program.Bracketed false := by
  cases call with
  | request req =>
    cases req with
    | createFolder call => exact (unbracketed_discard (unbracketed_createFolder call)).bracketed
    | createGrant call => exact (unbracketed_discard (unbracketed_createGrant call)).bracketed
    | deleteGrant principal grantId => exact (unbracketed_discard (unbracketed_deleteGrant principal grantId)).bracketed
    | regenerateGrant call => exact (bracketed_regenerateGrant call).bind fun _ => rfl
    | createInvite call => exact (unbracketed_createInvite call).bracketed
    | acceptInvite call => exact (unbracketed_acceptInvite call).bracketed
    | deleteInvite principal folderId inviteId => exact (unbracketed_deleteInvite principal folderId inviteId).bracketed
    | submitOp call => exact (unbracketed_discard (direct_submitOp call).unbracketed).bracketed
  | batch call => exact (unbracketed_discard (unbracketed_handleBatch call)).bracketed
  | collect args =>
    have hcollect : (runChunkGcOnce args).Unbracketed :=
      (Proc.readOnly_read _).unbracketed.bind fun g => unbracketed_collectChunks g.todo g.result
    exact (unbracketed_discard hcollect).bracketed
  | purge args =>
    rw [ServerCall.program, runTombstonePurgeOnce_eq]
    exact (unbracketed_discard (unbracketed_runIdBatchPass _ _ args fun _ => .stmt _ _)).bracketed
  | truncate args => exact (unbracketed_discard (unbracketed_runIdBatchPass _ _ args fun _ => .stmt _ _)).bracketed

end Brackets

/-! ### Schedules -/

/-- What a rejected `BEGIN` comes to. -/
def internalError : ApiError := .response 500 "Internal Server Error"

/-- All requests at their first statement. -/
def startCalls (s₀ : Db) (calls : List ServerCall) : Conn Db DbKey ApiError Unit :=
  Conn.start s₀ (calls.map ServerCall.program)

/-- **Acknowledged writes last.**  Any requests and passes of the collector, on one connection, in any order of
their statements in which nobody begins a transaction while one is open, and every transaction that is rolled
back has had the connection to itself. -/
theorem writes_acknowledged (s₀ : Db) (calls : List ServerCall) (schedule : List ℕ)
    (hok : Run.Along (Conn.step internalError) Conn.Orderly (startCalls s₀ calls) schedule) :
    Conn.Durable s₀ (Run.run (Conn.step internalError) (startCalls s₀ calls) schedule) := by
  refine Conn.durable (fun p hp => ?_) schedule hok
  obtain ⟨call, -, rfl⟩ := List.mem_map.mp hp
  exact bracketed_program call

/-! ### Runs -/

/-- A folder of alice's, with an access key. -/
def keyDb : Db where
  sharedFolders := ["f"]
  devices := [{ deviceId := "k", userId := none }]
  nodes := [{ nodeId := "root", folderId := "f", parentId := none, name := "", type := .folder }]
  folderGrants := [
    { grantId := "g", folderId := "f", scopeNodeId := "root", userId := some "alice", deviceId := none, canRead := true,
      canWrite := true },
    { grantId := "gk", folderId := "f", scopeNodeId := "root", userId := none, deviceId := some "k", canRead := true,
      canWrite := true, name := some "Agent", createdByUserId := some "alice" }]

/-- Alice regenerates the key; the hook may fail. -/
def regenerateKey (onBeforeCommit : Option ApiError) (newId : String) : ServerCall :=
  .request (.regenerateGrant { principal := .user "alice", grantId := "gk", onBeforeCommit, deviceId := "d" ++ newId,
                               newGrantId := "g" ++ newId, tokenHash := "h" ++ newId })

/-- Alice invites bob. -/
def inviteBob : ServerCall :=
  .request (.createInvite { principal := .user "alice", folderId := "f", invitedEmail := .string "bob@b",
                            scopeNodeId := .undefined, canWrite := false, now := 0, inviteId := "i",
                            inviteToken := "t" })

/-- A key is regenerated while alice invites bob, and again behind the commit. -/
theorem writes_acknowledged_commit :
    Conn.Durable keyDb (Run.run (Conn.step internalError)
      (startCalls keyDb [regenerateKey none "1", inviteBob, regenerateKey none "2"])
      (List.replicate 8 0 ++ List.replicate 9 1 ++ List.replicate 9 0 ++ List.replicate 9 2)) :=
  writes_acknowledged keyDb [regenerateKey none "1", inviteBob, regenerateKey none "2"] _ (by decide +kernel)

/-- The first regeneration is in its transaction when alice invites bob, and fails behind that. -/
def failingHook : Conn Db DbKey ApiError Unit :=
  Run.run (Conn.step internalError) (startCalls keyDb [regenerateKey (some internalError) "1", inviteBob])
    (List.replicate 8 0 ++ List.replicate 9 1 ++ List.replicate 9 0)

/-- **An invitation is taken back** that alice was told is made: it was part of a transaction that somebody else
has begun, and has rolled back. -/
theorem write_rolled_back : ¬ Conn.Durable keyDb failingHook := by
  have hmade : (failingHook.made.filter fun e => e.author = 1).length = 1 := by decide +kernel
  have hjournal : (failingHook.journal.filter fun e => e.author = 1).length = 0 := by decide +kernel
  have hanswer : failingHook.answer 1 = some (.ok ()) := by decide +kernel
  intro h
  rw [← h.acknowledged 1 () hanswer, hjournal] at hmade
  cases hmade

end Valv.Server
