import Valv.Server.Blobstore
import Valv.Server.Shape

/-!
# Collecting chunks

`core/src/gc/index.ts`: tombstones are purged and ops of the log are dropped after a retention period, and
chunks that no current version refers to are collected after a grace period, row first and object second.
The hook `resolveChunkDeletionTargets` is left out.

* `Store`: the database and the object store.
* `ChunkGc`: a pass of `runChunkGcOnce` between two of its statements.
* `runTombstonePurgeOnce`: the purge, whose cascade removes versions and their references.
* `runOpLogTruncationOnce`: the truncation, which looks at the age of an op only.
* `Tolerates`, `submitOp_tolerates`: what the statements of an op do to the chunk tables.
-/

namespace Valv.Server

open Valv.Conc Valv.Table

/-! ### Options and results -/

inductive GcMode where
  | audit
  | delete
  deriving DecidableEq, Repr

structure GcPassResult where
  eligibleCount : ℕ := 0
  totalEligibleCount : ℕ := 0
  deletedCount : ℕ := 0
  errorCount : ℕ := 0
  deriving DecidableEq, Repr

/-- `withLimit`; no bound is `UNBOUNDED_BATCH_SIZE`. -/
def withLimit {α : Type} (batchSize : Option ℕ) (rows : List α) : List α := batchSize.elim rows rows.take

theorem withLimit_sublist {α : Type} (batchSize : Option ℕ) (rows : List α) : (withLimit batchSize rows).Sublist rows := by
  cases batchSize with
  | none => exact List.Sublist.refl rows
  | some n => exact List.take_sublist n rows

/-- The options of a pass, with its clock. -/
structure GcArgs where
  now : ℕ
  /-- `gracePeriodMs`, `retentionMs`. -/
  retentionMs : ℕ
  mode : GcMode := .delete
  batchSize : Option ℕ := none
  deriving DecidableEq, Repr

def GcArgs.cutoff (args : GcArgs) : ℕ := args.now - args.retentionMs

/-! ### Chunks -/

/-- The database, and the keys of the objects in the object store. -/
structure Store where
  db : Db := {}
  objects : List String := []
  deriving DecidableEq, Repr

/-- The chunks that a pass finds. -/
def Db.eligibleChunks (s : Db) (cutoff : ℕ) : List String :=
  (s.chunks.filter fun c => c.refcount = 0 && c.createdAt < cutoff).map ChunkRow.chunkHash

theorem chunk_isSome {s : Db} {hash : String} : (s.chunk hash).isSome ↔ ∃ c ∈ s.chunks, c.chunkHash = hash := by
  simp [Db.chunk, lookup]

/-- A version refers to the chunk. -/
def Db.referenced (s : Db) (hash : String) : Bool := s.versionChunks.any fun r => r.chunkHash = hash

/-- The row of a chunk with no reference counted. -/
def Db.uncounted (s : Db) (hash : String) : Bool := s.chunks.any fun c => c.chunkHash = hash && c.refcount = 0

/-- `DELETE FROM chunks WHERE chunk_hash = … AND refcount = 0 RETURNING chunk_hash`. -/
def deleteChunkRow (hash : String) : DbProc Bool :=
  .act (fun v s =>
      if v.uncounted hash && !v.referenced hash then
        { s with chunks := s.chunks.filter fun c => !(c.chunkHash = hash && c.refcount = 0) }
      else s)
    fun v =>
      if v.uncounted hash then
        if v.referenced hash then .fail (.constraint .foreignKey) else pure true
      else pure false

theorem runBody_deleteChunkRow (hash : String) (s : Db) : ((deleteChunkRow hash).runBody s).1 =
    if s.uncounted hash && !s.referenced hash then
      { s with chunks := s.chunks.filter fun c => !(c.chunkHash = hash && c.refcount = 0) }
    else s := by
  rw [deleteChunkRow, Proc.runBody]
  cases s.uncounted hash with
  | false => rfl
  | true => cases s.referenced hash <;> rfl

/-- A pass of `runChunkGcOnce` between two of its statements. -/
structure ChunkGc where
  /-- The chunks that it has selected and not come to. -/
  todo : List String
  /-- The chunk whose row is deleted and whose object is not. -/
  object : Option String := none
  result : GcPassResult := {}
  deriving DecidableEq, Repr

/-- The start of a pass: its two queries. -/
def ChunkGc.start (args : GcArgs) (s : Db) : ChunkGc :=
  let eligible := s.eligibleChunks args.cutoff
  let chunks := withLimit args.batchSize eligible
  { todo := match args.mode with
      | .audit => []
      | .delete => chunks
    result := { eligibleCount := chunks.length, totalEligibleCount := eligible.length } }

/-- The next statement of a pass.  The flag tells whether a `DELETE` of an object succeeds. -/
def ChunkGc.next (g : ChunkGc) (deletes : Bool) (store : Store) : ChunkGc × Store :=
  match g.object with
  | some hash =>
    -- `deleteChunkTargets`
    if deletes then
      ({ g with object := none }, { store with objects := store.objects.filter (· ≠ chunkKey hash) })
    else ({ g with object := none, result.errorCount := g.result.errorCount + 1 }, store)
  | none =>
    match g.todo with
    | [] => (g, store)
    | hash :: todo =>
      match (deleteChunkRow hash).runBody store.db with
      | (db, .ok true) =>
        ({ g with todo, object := some hash, result.deletedCount := g.result.deletedCount + 1 },
          { store with db })
      | (db, .ok false) => ({ g with todo }, { store with db })
      | (db, .error _) => ({ g with todo, result.errorCount := g.result.errorCount + 1 }, { store with db })

/-- The next statement of a pass deletes the row of the chunk. -/
def ChunkGc.collects (g : ChunkGc) (s : Db) (hash : String) : Bool :=
  g.object.isNone && g.todo.head? = some hash && s.uncounted hash && !s.referenced hash

/-! ### Tombstones -/

/-- What still refers to the nodes or to their versions once the cascade has removed the versions. -/
def Db.purgeViolation (s : Db) (ids : List String) : Option ApiError :=
  let gone := (s.versions.filter fun v => v.nodeId ∈ ids).map VersionRow.versionId
  if s.nodes.any fun r => r.nodeId ∉ ids &&
      (r.parentId.any (· ∈ ids) || r.currentVersionId.any (· ∈ gone)) then some (.constraint .foreignKey)
  else if s.versionChunks.any fun r => r.versionId ∉ gone && r.nodeId ∈ ids then some (.constraint .foreignKey)
  else if s.folderGrants.any fun g => g.scopeNodeId ∈ ids then some (.constraint .foreignKey)
  else if s.folderInvites.any fun i => i.scopeNodeId ∈ ids then some (.constraint .foreignKey)
  else none

/-- Why the deletion of the nodes is rejected as a whole: it has a parameter for each id, more than the engine binds,
or a row that stays refers to one of the nodes. -/
def Db.deleteViolation (s : Db) (ids : List String) : Option ApiError :=
  (s.overLimit ids.length).or (s.purgeViolation ids)

/-- `DELETE FROM nodes WHERE node_id IN (…)`: versions go with their nodes, and references to chunks with
their versions. -/
def deleteNodes (ids : List String) : DbProc Unit :=
  .stmt (fun s => s.deleteViolation ids) fun _ s =>
    let gone := (s.versions.filter fun v => v.nodeId ∈ ids).map VersionRow.versionId
    { s with
      nodes := s.nodes.filter fun r => r.nodeId ∉ ids
      versions := s.versions.filter fun v => v.nodeId ∉ ids
      versionChunks := s.versionChunks.filter fun r => r.versionId ∉ gone }

/-- The tombstones that a pass finds. -/
def Db.eligibleNodes (s : Db) (cutoff : ℕ) : List String :=
  (s.nodes.filter fun r => r.deletedAt.any (· < cutoff)).map NodeRow.nodeId

/-- The deletion in `runIdBatchPass`. -/
def purgeNodes (ids : List String) (result : GcPassResult) : DbProc GcPassResult :=
  Proc.attempt (deleteNodes ids >>= fun _ => pure { result with deletedCount := ids.length })
    fun _ => pure { result with errorCount := result.errorCount + 1 }

/-- `runTombstonePurgeOnce`. -/
def runTombstonePurgeOnce (args : GcArgs) : DbProc GcPassResult := do
  let eligible ← (.read fun s => s.eligibleNodes args.cutoff : DbProc _)
  let ids := withLimit args.batchSize eligible
  let result := { eligibleCount := ids.length, totalEligibleCount := eligible.length }
  if args.mode = .audit || ids = [] then pure result else purgeNodes ids result

/-! ### The op log -/

/-- The deletion in `runIdBatchPass`, for the query that deletes by id. -/
def deleteBatch {α : Type} (deleteByIds : List α → DbProc Unit) (ids : List α) (result : GcPassResult) :
    DbProc GcPassResult :=
  Proc.attempt (deleteByIds ids >>= fun _ => pure { result with deletedCount := ids.length })
    fun _ => pure { result with errorCount := result.errorCount + 1 }

/-- `runIdBatchPass`, for its two queries. -/
def runIdBatchPass {α : Type} (eligibleIds : Db → List α) (deleteByIds : List α → DbProc Unit) (args : GcArgs) :
    DbProc GcPassResult := do
  let eligible ← (.read eligibleIds : DbProc _)
  let ids := withLimit args.batchSize eligible
  let result := { eligibleCount := ids.length, totalEligibleCount := eligible.length }
  if args.mode = .audit || ids = [] then pure result else deleteBatch deleteByIds ids result

theorem unbracketed_runIdBatchPass {γ : Type} (eligibleIds : Db → List γ) (deleteByIds : List γ → DbProc Unit)
    (args : GcArgs) (h : ∀ ids, (deleteByIds ids).Unbracketed) :
    (runIdBatchPass eligibleIds deleteByIds args).Unbracketed := by
  refine (Proc.readOnly_read _).unbracketed.bind fun eligible => ?_
  dsimp only
  split
  · exact True.intro
  · refine Proc.Unbracketed.attempt ((h _).bind fun _ => ?_) fun error => ?_
    · exact True.intro
    · exact True.intro

theorem runTombstonePurgeOnce_eq (args : GcArgs) :
    runTombstonePurgeOnce args = runIdBatchPass (fun s => s.eligibleNodes args.cutoff) deleteNodes args := rfl

/-- The ops that a pass finds. -/
def Db.eligibleOps (s : Db) (cutoff : ℕ) : List ℕ :=
  (s.opLog.filter fun e => e.appliedAt < cutoff).map OpLogRow.serverSeq

/-- The log without these ops. -/
def Db.dropOps (s : Db) (seqs : List ℕ) : Db := { s with opLog := s.opLog.filter fun e => e.serverSeq ∉ seqs }

/-- `DELETE FROM op_log WHERE server_seq IN (…)`, with a parameter for each number. -/
def deleteOps (seqs : List ℕ) : DbProc Unit := .stmt (fun s => s.overLimit seqs.length) fun _ s => s.dropOps seqs

/-- `runOpLogTruncationOnce`. -/
def runOpLogTruncationOnce (args : GcArgs) : DbProc GcPassResult :=
  runIdBatchPass (fun s => s.eligibleOps args.cutoff) deleteOps args

/-- The ops that a truncation pass goes on to delete.  With more of them than the engine binds parameters the statement
is rejected, whatever the other ops are, and the pass deletes none. -/
def GcArgs.selectedOps (args : GcArgs) (s : Db) : List ℕ :=
  match args.mode with
  | .audit => []
  | .delete =>
    let seqs := withLimit args.batchSize (s.eligibleOps args.cutoff)
    if s.maxParams < seqs.length then [] else seqs

theorem dropOps_nil (s : Db) : s.dropOps [] = s := by simp [Db.dropOps]

/-- A truncation's statement drops the ops, or it is rejected and nothing changes. -/
theorem runBody_deleteOps (seqs : List ℕ) (s : Db) :
    ((deleteOps seqs).runBody s).1 = s.dropOps seqs ∨ ((deleteOps seqs).runBody s).1 = s := by
  rw [deleteOps, Proc.runBody_stmt]
  cases s.overLimit seqs.length with
  | none => exact .inl rfl
  | some e => exact .inr rfl

/-- **A truncation pass** that runs alone drops the ops it has selected. -/
theorem runBody_runOpLogTruncationOnce (args : GcArgs) (s : Db) :
    ((runOpLogTruncationOnce args).runBody s).1 = s.dropOps (args.selectedOps s) := by
  rw [runOpLogTruncationOnce, runIdBatchPass, Proc.runBody_bind_of_ok (Proc.runBody_read _ s), GcArgs.selectedOps]
  cases hmode : args.mode with
  | audit =>
    show ((pure _ : DbProc GcPassResult).runBody s).1 = _
    rw [dropOps_nil]
    rfl
  | delete =>
    by_cases hids : withLimit args.batchSize (s.eligibleOps args.cutoff) = []
    · simp only [hids, dropOps_nil, ite_self]
      rfl
    · dsimp only
      rw [if_neg (by simp [hids]), deleteBatch, Proc.runBody_attempt, Proc.runBody_bind, deleteOps, Proc.runBody_stmt,
        Db.overLimit]
      split_ifs
      · rw [dropOps_nil]
        rfl
      · rfl

/-! ### What the statements of an op do to the chunks -/

/-- The manifest that an op submits. -/
def SubmitOpRequest.manifest : SubmitOpRequest → List ChunkRef
  | .mutate _ _ m => m.manifest
  | .create _ _ _ _ => []

/-- The relation allows every statement of an op with this manifest. -/
structure Tolerates (manifest : List ChunkRef) (R : Db → Db → Prop) : Prop where
  nodes : ∀ s nodes, R s { s with nodes }
  draw : ∀ s, R s { s with lastSeq := s.lastSeq + 1 }
  append : ∀ s e, R s { s with opLog := s.opLog ++ [e] }
  version : ∀ s row, row.manifest = manifest → R s { s with versions := s.versions ++ [row] }
  refs : ∀ s rows, (∀ r ∈ rows, VersionChunkRow.chunkHash r ∈ chunkHashes manifest) →
    R s { s with versionChunks := s.versionChunks ++ rows }
  counts : ∀ s hashes (f : ℕ → ℕ), (∀ n, 0 < f n → 0 < n) ∨ hashes = chunkHashes manifest → R s { s with
    chunks := s.chunks.map fun c => if c.chunkHash ∈ hashes then { c with refcount := f c.refcount } else c }

section Tolerates

variable {be : Backend} {call : SubmitCall} {deviceId n : String} {manifest : List ChunkRef}
variable {R : Db → Db → Prop} [Std.Refl R] [IsTrans Db R]

theorem Tolerates.insertOpLog (h : Tolerates manifest R) (payload : OpPayload) (b : Option ℕ) :
    (insertOpLog be call n deviceId payload b).Writes R :=
  insertOpLog_writes_of h.draw fun e s _ _ => h.append s e

omit [IsTrans Db R] in
theorem Tolerates.updateNodes (h : Tolerates manifest R) (f : NodeRow → NodeRow) : (updateNodes n f).Writes R :=
  Proc.Writes.stmt fun _ s => h.nodes s _

omit [IsTrans Db R] in
theorem Tolerates.setServerSeq (h : Tolerates manifest R) (folderId : String) : (setServerSeq folderId n).Writes R :=
  setServerSeq_writes_of folderId fun _ => h.updateNodes _

omit [IsTrans Db R] in
theorem Tolerates.insertVersion (h : Tolerates manifest R) (versionId contentHash : String) (sizeBytes : ℕ)
    (isConflictCopy : Bool) :
    (insertVersion be n deviceId versionId contentHash sizeBytes manifest isConflictCopy).Writes R := by
  have hprevious : (previousManifest n isConflictCopy).Writes R := by
    rw [previousManifest]
    split
    · exact True.intro
    · exact Proc.Writes.read _
  have hrow : ∀ row : VersionRow, row.manifest = manifest → (insertVersionRow row).Writes R :=
    fun row hrow => Proc.Writes.stmt fun _ s => h.version s row hrow
  have hcounts : ∀ hashes (f : ℕ → ℕ), (∀ n, 0 < f n → 0 < n) ∨ hashes = chunkHashes manifest →
      (updateRefcounts hashes f).Writes R :=
    fun hashes f hf => Proc.Writes.stmt fun _ s => h.counts s hashes f hf
  have hreference : (referenceChunks versionId n (chunkHashes manifest)).Writes R := by
    rw [referenceChunks]
    split
    · exact True.intro
    · refine Proc.Writes.bind (Proc.Writes.stmt fun _ s => h.refs s _ fun r hr => ?_) fun _ => hcounts _ _ (.inr rfl)
      obtain ⟨hash, hmem, heq⟩ := List.mem_map.mp hr
      rw [← heq]
      exact hmem
  have hreplace : ∀ previous, (replaceCurrent n versionId previous isConflictCopy).Writes R := by
    intro previous
    rw [replaceCurrent]
    split
    · exact True.intro
    · have hrelease : (releaseChunks (chunkHashes previous)).Writes R := by
        rw [releaseChunks]
        split
        · exact True.intro
        · exact hcounts _ _ (.inl fun n hn => by omega)
      exact hrelease.bind fun _ => h.updateNodes _
  exact hprevious.bind fun previous => (lockKey_writes _).bind fun _ => (hrow _ rfl).bind fun _ =>
    hreference.bind fun _ => hreplace previous

theorem Tolerates.insertVersionAndOp {m : Mutation} (h : Tolerates m.manifest R) (b : ℕ) (isConflictCopy : Bool) :
    (insertVersionAndOp be call n deviceId b m isConflictCopy).Writes R := by
  cases m with
  | newVersion versionId contentHash sizeBytes manifest =>
    exact (h.insertVersion _ _ _ _).bind fun _ => (h.insertOpLog _ _).bind fun _ => True.intro
  | rename newName => exact (h.insertOpLog _ _).bind fun _ => True.intro
  | move newParentId => exact (h.insertOpLog _ _).bind fun _ => True.intro
  | delete => exact (h.insertOpLog _ _).bind fun _ => True.intro

omit [IsTrans Db R] in
theorem Tolerates.applyMetadataMutation (h : Tolerates manifest R) (now : ℕ) (m : Mutation) :
    (applyMetadataMutation be n now m).Writes R := by
  cases m with
  | newVersion versionId contentHash sizeBytes manifest => exact True.intro
  | rename newName => exact updateNamed_writes (h.updateNodes _)
  | move newParentId => exact updateNamed_writes (h.updateNodes _)
  | delete => exact updateNamed_writes (h.updateNodes _)

theorem Tolerates.mutateBody {m : Mutation} (h : Tolerates m.manifest R) (b : ℕ) :
    (mutateBody be call deviceId n b m).Writes R := by
  have hload : (loadNode n).Writes R := Proc.Writes.read _
  refine (lockKey_writes _).bind fun _ => hload.bind fun row => ?_
  cases row with
  | none => exact True.intro
  | some r =>
    dsimp only
    split
    · exact (checkCollision_readOnly call.folderId n m).writes.bind fun _ =>
        (previousParentId_readOnly n m).writes.bind fun _ => (h.applyMetadataMutation call.now m).bind fun _ =>
          (h.insertVersionAndOp b false).bind fun _ => (h.setServerSeq call.folderId).bind fun _ => True.intro
    · cases m with
      | newVersion versionId contentHash sizeBytes manifest =>
        exact (h.insertVersionAndOp b true).bind fun _ => (h.setServerSeq call.folderId).bind fun _ => True.intro
      | rename newName => exact True.intro
      | move newParentId => exact True.intro
      | delete => exact True.intro

theorem Tolerates.createBody (h : Tolerates manifest R) (parentId name : String) (type : NodeType) :
    (createBody be call deviceId n parentId name type).Writes R := by
  have hinsert : (insertNode (call.createdRow n parentId name type)).Writes R :=
    Proc.Writes.stmt fun _ s => h.nodes s _
  exact (lockKey_writes _).bind fun _ => (lockKey_writes _).bind fun _ => hinsert.bind fun _ =>
    (h.insertOpLog _ _).bind fun _ => (h.setServerSeq call.folderId).bind fun _ => True.intro

/-- **Every write of a call** is one that the relation allows. -/
theorem submitOp_tolerates (h : Tolerates call.op.manifest R) : (submitOp be call).Writes R := by
  rw [submitOp]
  cases hp : call.principal with
  | user userId => exact True.intro
  | device deviceId =>
    cases hop : call.op with
    | create nodeId parentId name type =>
      rw [hop] at h
      refine (requireWrite_readOnly parentId (.device deviceId)).writes.bind fun _ => ?_
      refine (inTransaction_writes (h.createBody _ _ _)).attempt fun e => ?_
      refine (Proc.Writes.read _).bind fun winner => ?_
      cases winner <;> exact True.intro
    | mutate nodeId b m =>
      rw [hop] at h
      exact (requireWrite_readOnly nodeId (.device deviceId)).writes.bind fun _ =>
        (checkMoveTarget_readOnly call.folderId m).writes.bind fun _ =>
          inTransaction_writes (Tolerates.mutateBody (m := m) h b)

end Tolerates

end Valv.Server
