import Valv.Lib.Effect
import Valv.Server.Walk

/-!
# The blobstore

`POST /objects/batch` of `core/src/blobstore/index.ts`: signed URLs to upload and download chunks.
A chunk is stored once for everybody, under its hash; who may download it is told from the versions
that refer to it.  The hooks `chunkKeyForPrincipal` and `getExistingChunkForPrincipal`, the signature
of a URL and the warning about large scans are left out.

* `handleUploadObject`, `handleDownloadObject`: one object of a batch.
* `handleBatch`: the route.
* `Db.downloadable`: what `canDownloadChunk` answers.
-/

namespace Valv.Server

open Valv.Conc Valv.Table

/-! ### Requests and responses -/

/-- An object of a batch. -/
structure BatchObject where
  oid : String
  size : ℕ
  deriving DecidableEq, Repr

/-- `QuotaInfo`; a period end that is no date counts as none. -/
structure QuotaInfo where
  quotaBytes : Option ℕ
  usageBytes : ℕ
  subscriptionStatus : String
  currentPeriodEnd : Option ℤ
  deriving DecidableEq, Repr

/-- A call of `handleBatch`: its arguments, what `getQuota` returns if there is one, the option
`pastDueGraceDays` and the time. -/
structure BatchCall where
  principal : Principal
  operation : String
  objects : List BatchObject
  quota : Option QuotaInfo := none
  pastDueGraceDays : ℤ := 5
  now : ℤ := 0
  deriving DecidableEq, Repr

/-- The actions of an object: signed URLs to a key of the bucket. -/
inductive BatchAction where
  | upload (key : String)
  | download (key : String)
  deriving DecidableEq, Repr

/-- `BatchResponseObject`. -/
structure BatchResponseObject where
  oid : String
  size : ℕ
  alreadyExists : Option Bool := none
  actions : Option BatchAction := none
  error : Option (ℕ × String) := none
  deriving DecidableEq, Repr

/-- `chunkKey`. -/
def chunkKey (hash : String) : String := "chunks/" ++ hash

/-! ### Quota -/

/-- `withinGracePeriod`. -/
def withinGracePeriod (currentPeriodEnd : Option ℤ) (graceDays now : ℤ) : Bool :=
  currentPeriodEnd.any fun periodEnd => now ≤ periodEnd + max 0 graceDays * 24 * 60 * 60 * 1000

/-- `isBlockedSubscription`. -/
def isBlockedSubscription (quota : QuotaInfo) (graceDays now : ℤ) : Bool :=
  quota.subscriptionStatus ∈ ["none", "incomplete", "canceled", "revoked"] ||
    (quota.subscriptionStatus = "past_due" && !withinGracePeriod quota.currentPeriodEnd graceDays now)

/-- The check of the quota before an upload. -/
def checkQuota (call : BatchCall) (newBytes : ℕ) : DbProc Unit :=
  match call.quota with
  | none => pure ()
  | some quota =>
    if isBlockedSubscription quota call.pastDueGraceDays call.now then
      .fail (.response 402 "subscription_inactive")
    else if quota.quotaBytes.any fun quotaBytes => quotaBytes < quota.usageBytes + newBytes then
      .fail (.response 402 "over_quota")
    else pure ()

/-! ### Uploads -/

/-- `insertChunkIfAbsent`; whether a row was inserted. -/
def insertChunkIfAbsent (oid : String) (sizeBytes : ℕ) : DbProc Bool :=
  .act (fun v s => if (v.chunk oid).isSome then s else
      { s with chunks := s.chunks ++ [{ chunkHash := oid, sizeBytes, createdAt := v.now }] })
    fun v => pure (v.chunk oid).isNone

/-- `getExistingChunk`. -/
def getExistingChunk (oid : String) : DbProc (Option ChunkRow) := .read fun s => s.chunk oid

/-- The signed URL of an upload. -/
def uploadAction (o : BatchObject) : BatchResponseObject :=
  { oid := o.oid, size := o.size, alreadyExists := some false, actions := some (.upload (chunkKey o.oid)) }

/-- `handleUploadObject`. -/
def handleUploadObject (o : BatchObject) (existing : Option ChunkRow) : DbProc BatchResponseObject :=
  match existing with
  | some chunk =>
    if 0 < chunk.refcount then pure { oid := o.oid, size := o.size, alreadyExists := some true }
    else pure (uploadAction o)
  | none => do
    let inserted ← insertChunkIfAbsent o.oid o.size
    if inserted then pure (uploadAction o)
    else pure { oid := o.oid, size := o.size, alreadyExists := some true }

/-- The chunks that a batch of uploads finds. -/
def planUploads : List BatchObject → DbProc (List (BatchObject × Option ChunkRow))
  | [] => pure []
  | o :: os => do
    let existing ← getExistingChunk o.oid
    let plans ← planUploads os
    pure ((o, existing) :: plans)

def handleUploads : List (BatchObject × Option ChunkRow) → DbProc (List BatchResponseObject)
  | [] => pure []
  | plan :: plans => do
    let object ← handleUploadObject plan.1 plan.2
    let objects ← handleUploads plans
    pure (object :: objects)

/-- The bytes of the chunks that are new. -/
def newBytes (plans : List (BatchObject × Option ChunkRow)) : ℕ :=
  ((plans.filter fun plan => plan.2.isNone).map fun plan => plan.1.size).foldl (· + ·) 0

/-! ### Downloads -/

/-- `scopedChunkCandidateNodeIds`. -/
def scopedChunkCandidateNodeIds (oid : String) : DbProc (List String) :=
  .read fun s => ((s.versionChunks.filter fun r => r.chunkHash = oid).map VersionChunkRow.nodeId).eraseDups

/-- `canDownloadFromCandidateNodes`. -/
def canDownloadFromCandidateNodes (principal : Principal) : List String → DbProc Bool
  | [] => pure false
  | nodeId :: nodeIds => do
    match ← checkGrant nodeId principal .read with
    | .granted _ _ _ => pure true
    | .denied _ => canDownloadFromCandidateNodes principal nodeIds

/-- `canDownloadChunk`. -/
def canDownloadChunk (principal : Principal) (oid : String) : DbProc Bool := do
  let nodeIds ← scopedChunkCandidateNodeIds oid
  canDownloadFromCandidateNodes principal nodeIds

/-- `handleDownloadObject`. -/
def handleDownloadObject (principal : Principal) (o : BatchObject) : DbProc BatchResponseObject := do
  let authorized ← canDownloadChunk principal o.oid
  if authorized then pure { oid := o.oid, size := o.size, actions := some (.download (chunkKey o.oid)) }
  else pure { oid := o.oid, size := o.size, error := some (403, "no grant") }

def handleDownloads (principal : Principal) : List BatchObject → DbProc (List BatchResponseObject)
  | [] => pure []
  | o :: os => do
    let object ← handleDownloadObject principal o
    let objects ← handleDownloads principal os
    pure (object :: objects)

/-- `handleBatch`: whatever is not an upload is a download. -/
def handleBatch (call : BatchCall) : DbProc (List BatchResponseObject) :=
  if call.operation = "upload" then do
    let plans ← planUploads call.objects
    checkQuota call (newBytes plans)
    handleUploads plans
  else handleDownloads call.principal call.objects

/-! ### What a batch does -/

section Uploads

/-- Nothing but rows of new chunks. -/
structure AddsChunks (s s' : Db) : Prop where
  same : { s' with chunks := s.chunks } = s
  grows : s.chunks <+: s'.chunks

theorem AddsChunks.refl (s : Db) : AddsChunks s s := ⟨rfl, List.prefix_refl _⟩

instance : Std.Refl AddsChunks := ⟨AddsChunks.refl⟩

instance : IsTrans Db AddsChunks where
  trans s s' s'' h h' := by
    refine ⟨?_, h.grows.trans h'.grows⟩
    rw [← h.same, ← h'.same]

theorem getExistingChunk_writes (oid : String) : (getExistingChunk oid).Writes AddsChunks := Proc.Writes.read _

theorem handleUploadObject_writes (o : BatchObject) (existing : Option ChunkRow) :
    (handleUploadObject o existing).Writes AddsChunks := by
  cases existing with
  | some chunk =>
    rw [handleUploadObject]
    split <;> exact True.intro
  | none =>
    have hinsert : (insertChunkIfAbsent o.oid o.size).Writes AddsChunks := by
      refine ⟨fun v s => ?_, fun v => True.intro⟩
      dsimp only
      split
      · exact AddsChunks.refl s
      · exact ⟨rfl, List.prefix_append _ _⟩
    refine hinsert.bind fun inserted => ?_
    split <;> exact True.intro

theorem planUploads_writes (os : List BatchObject) : (planUploads os).Writes AddsChunks := by
  induction os with
  | nil => exact True.intro
  | cons o os ih => exact (getExistingChunk_writes o.oid).bind fun _ => ih.bind fun _ => True.intro

theorem planUploads_unbracketed (os : List BatchObject) : (planUploads os).Unbracketed := by
  induction os with
  | nil => exact True.intro
  | cons o os ih => exact (Proc.readOnly_read _).unbracketed.bind fun _ => ih.bind fun _ => True.intro

theorem handleUploads_writes (plans : List (BatchObject × Option ChunkRow)) :
    (handleUploads plans).Writes AddsChunks := by
  induction plans with
  | nil => exact True.intro
  | cons plan plans ih => exact (handleUploadObject_writes plan.1 plan.2).bind fun _ => ih.bind fun _ => True.intro

theorem handleUploads_unbracketed (plans : List (BatchObject × Option ChunkRow)) :
    (handleUploads plans).Unbracketed := by
  induction plans with
  | nil => exact True.intro
  | cons plan plans ih =>
    obtain ⟨o, existing⟩ := plan
    have hobject : (handleUploadObject o existing).Unbracketed := by
      cases existing with
      | some chunk =>
        rw [handleUploadObject]
        split <;> exact True.intro
      | none =>
        have hinsert : (insertChunkIfAbsent o.oid o.size).Unbracketed := fun v => True.intro
        refine hinsert.bind fun inserted => ?_
        split <;> exact True.intro
    exact hobject.bind fun _ => ih.bind fun _ => True.intro

end Uploads

section Downloads

variable {s : Db} {principal : Principal} {oid : String}

theorem canDownloadFromCandidateNodes_readOnly (nodeIds : List String) :
    (canDownloadFromCandidateNodes principal nodeIds).ReadOnly := by
  induction nodeIds with
  | nil => exact True.intro
  | cons n nodeIds ih =>
    refine (checkGrant_readOnly n principal .read).bind fun result => ?_
    cases result with
    | granted grantId scopeNodeId canWrite => exact True.intro
    | denied reason => exact ih

theorem canDownloadChunk_readOnly : (canDownloadChunk principal oid).ReadOnly :=
  (Proc.readOnly_read _).bind canDownloadFromCandidateNodes_readOnly

theorem handleDownloads_readOnly (os : List BatchObject) : (handleDownloads principal os).ReadOnly := by
  induction os with
  | nil => exact True.intro
  | cons o os ih =>
    have hobject : (handleDownloadObject principal o).ReadOnly := by
      refine canDownloadChunk_readOnly.bind fun authorized => ?_
      split <;> exact True.intro
    exact hobject.bind fun _ => ih.bind fun _ => True.intro

end Downloads

theorem checkQuota_readOnly (call : BatchCall) (bytes : ℕ) : (checkQuota call bytes).ReadOnly := by
  rw [checkQuota]
  cases call.quota with
  | none => exact True.intro
  | some quota =>
    dsimp only
    split
    · exact True.intro
    · split <;> exact True.intro

/-- **Every write of a batch** adds rows of new chunks. -/
theorem handleBatch_writes (call : BatchCall) : (handleBatch call).Writes AddsChunks := by
  rw [handleBatch]
  split
  · exact (planUploads_writes call.objects).bind fun plans =>
      (checkQuota_readOnly call _).writes.bind fun _ => handleUploads_writes plans
  · exact (handleDownloads_readOnly call.objects).writes

/-! ### Who is given a download -/

/-- The principal may read a node with a version that refers to the chunk. -/
def Db.downloadable (s : Db) (principal : Principal) (oid : String) : Bool :=
  s.versionChunks.any fun r => r.chunkHash = oid && s.grants r.nodeId principal .read

/-- The batch's answer has a download action for the chunk. -/
def givesDownload (r : Except ApiError (List BatchResponseObject)) (oid : String) : Prop :=
  ∃ objects, r = .ok objects ∧ ∃ o ∈ objects, o.oid = oid ∧ ∃ key, o.actions = some (.download key)

section Answers

variable {s : Db} {principal : Principal} {oid : String}

theorem runBody_canDownloadFromCandidateNodes (nodeIds : List String) :
    (canDownloadFromCandidateNodes principal nodeIds).runBody s =
      (s, .ok (nodeIds.any fun n => s.grants n principal .read)) := by
  induction nodeIds with
  | nil => rfl
  | cons n nodeIds ih =>
    rw [canDownloadFromCandidateNodes, Proc.runBody_bind_of_ok (runBody_checkGrant _ _ _), List.any_cons,
      Db.grants, runBody_checkGrant]
    cases s.authz n principal .read with
    | granted grantId scopeNodeId canWrite => rfl
    | denied reason =>
      dsimp only
      rw [ih, Bool.false_or]

theorem runBody_canDownloadChunk :
    (canDownloadChunk principal oid).runBody s = (s, .ok (s.downloadable principal oid)) := by
  rw [canDownloadChunk, scopedChunkCandidateNodeIds, Proc.runBody_bind_of_ok (Proc.runBody_read _ s),
    runBody_canDownloadFromCandidateNodes]
  have hany : ((((s.versionChunks.filter fun r => r.chunkHash = oid).map VersionChunkRow.nodeId).eraseDups).any
      fun n => s.grants n principal .read) = s.downloadable principal oid := by
    rw [Bool.eq_iff_iff, List.any_eq_true, Db.downloadable, List.any_eq_true]
    simp only [List.mem_eraseDups, List.mem_map, List.mem_filter, decide_eq_true_eq, Bool.and_eq_true]
    constructor
    · intro ⟨n, ⟨r, ⟨hr, hhash⟩, hn⟩, hgrant⟩
      exact ⟨r, hr, hhash, by rw [hn]; exact hgrant⟩
    · intro ⟨r, hr, hhash, hgrant⟩
      exact ⟨r.nodeId, ⟨r, ⟨hr, hhash⟩, rfl⟩, hgrant⟩
  rw [hany]

/-- What a download answers for one object. -/
def Db.downloadObject (s : Db) (principal : Principal) (o : BatchObject) : BatchResponseObject :=
  if s.downloadable principal o.oid then
    { oid := o.oid, size := o.size, actions := some (.download (chunkKey o.oid)) }
  else { oid := o.oid, size := o.size, error := some (403, "no grant") }

theorem runBody_handleDownloads (os : List BatchObject) :
    (handleDownloads principal os).runBody s = (s, .ok (os.map (s.downloadObject principal))) := by
  induction os with
  | nil => rfl
  | cons o os ih =>
    have hobject : (handleDownloadObject principal o).runBody s = (s, .ok (s.downloadObject principal o)) := by
      rw [handleDownloadObject, Proc.runBody_bind_of_ok runBody_canDownloadChunk, Db.downloadObject]
      cases s.downloadable principal o.oid <;> rfl
    rw [handleDownloads, Proc.runBody_bind_of_ok hobject, Proc.runBody_bind_of_ok ih]
    rfl

/-- An upload gives no download. -/
theorem handleUploads_actions {plans : List (BatchObject × Option ChunkRow)} {s' : Db}
    {objects : List BatchResponseObject} (h : (handleUploads plans).runBody s = (s', .ok objects)) :
    ∀ o ∈ objects, ∀ key, o.actions ≠ some (.download key) := by
  induction plans generalizing s objects with
  | nil =>
    cases h
    intro o ho
    exact absurd ho List.not_mem_nil
  | cons plan plans ih =>
    obtain ⟨s₁, object, hobject, h₁⟩ := Proc.runBody_bind_ok h
    obtain ⟨s₂, rest, hrest, h₂⟩ := Proc.runBody_bind_ok h₁
    cases h₂
    have hfirst : ∀ key, object.actions ≠ some (.download key) := by
      obtain ⟨o, existing⟩ := plan
      intro key hkey
      cases existing with
      | some chunk =>
        dsimp only [handleUploadObject] at hobject
        split at hobject
        · cases hobject
          cases hkey
        · cases hobject
          cases hkey
      | none =>
        obtain ⟨s₃, inserted, -, h₃⟩ := Proc.runBody_bind_ok hobject
        cases inserted with
        | true =>
          cases h₃
          cases hkey
        | false =>
          cases h₃
          cases hkey
    intro o ho key
    rcases List.mem_cons.mp ho with he | hmem
    · rw [he]
      exact hfirst key
    · exact ih hrest o hmem key

/-- **Downloads are given by grants**: whoever is given one may read a node with the chunk. -/
theorem downloadable_of_handleBatch {call : BatchCall} (h : givesDownload ((handleBatch call).exec s none).2 oid) :
    s.downloadable call.principal oid = true := by
  obtain ⟨objects, hok, o, ho, hoid, key, hkey⟩ := h
  rw [handleBatch] at hok
  split at hok
  · have hplain : (planUploads call.objects >>= fun plans => checkQuota call (newBytes plans) >>= fun _ =>
        handleUploads plans).Unbracketed := by
      refine (planUploads_unbracketed call.objects).bind fun plans => ?_
      exact (checkQuota_readOnly call _).unbracketed.bind fun _ => handleUploads_unbracketed plans
    rw [Proc.exec_eq_runBody hplain] at hok
    obtain ⟨s₁, plans, -, h₁⟩ := Proc.runBody_bind_ok (Prod.ext rfl hok)
    obtain ⟨s₂, _, -, h₂⟩ := Proc.runBody_bind_ok h₁
    exact absurd hkey (handleUploads_actions h₂ o ho key)
  · rw [Proc.exec_eq_runBody (handleDownloads_readOnly call.objects).unbracketed, runBody_handleDownloads] at hok
    cases hok
    obtain ⟨object, -, he⟩ := List.mem_map.mp ho
    rw [← he, Db.downloadObject] at hkey hoid
    split at hkey
    · next hdown =>
      rw [if_pos hdown] at hoid
      have hoid' : object.oid = oid := hoid
      rw [← hoid']
      exact hdown
    · cases hkey

end Answers

end Valv.Server
