import Valv.Client.Compose
import Valv.Lib.Effect

/-!
# What a push sends

A relation between two states of a pass that is kept by what sends nothing, and by the requests that are
sent, is kept by the pass.

* `Sends`: the relation is kept by all but moves, renames and deletes.
* `SendsMoves`: it is kept by moves and renames as well.
* `pushTree_sends`: then the walk keeps it.
-/

namespace Valv.Client

open Valv.Conc Valv.Table Valv.Server Valv.Files

/-- What a property of the sent requests must be kept by: steps that send nothing, and the creates and new versions
of a pass. -/
structure Sends (R : Pass → Pass → Prop) : Prop where
  quiet (s s' : Pass) (hsent : s'.sent = s.sent) : R s s'
  create (nodeId parentId name : String) (type : NodeType) (s : Pass) (e : Sent)
    (he : e.op = .create nodeId parentId name type) : R s { s with sent := s.sent ++ [e] }
  version (nodeId versionId contentHash : String) (basedOnSeq sizeBytes : ℕ) (chunks : List ChunkRef) (s : Pass)
    (e : Sent) (he : e.op = .mutate nodeId basedOnSeq (.newVersion versionId contentHash sizeBytes chunks)) :
    R s { s with sent := s.sent ++ [e] }

/-- What a property must be kept by in addition, for the parts of a pass that move and rename. -/
structure SendsMoves (R : Pass → Pass → Prop) : Prop extends Sends R where
  rename (nodeId : String) (basedOnSeq : ℕ) (name : String) (s : Pass) (e : Sent)
    (he : e.op = .mutate nodeId basedOnSeq (.rename name)) : R s { s with sent := s.sent ++ [e] }
  move (nodeId : String) (basedOnSeq : ℕ) (parentId : String) (s : Pass) (e : Sent)
    (he : e.op = .mutate nodeId basedOnSeq (.move parentId)) : R s { s with sent := s.sent ++ [e] }

variable {env : PushEnv} {R : Pass → Pass → Prop}

/-- A request that `R` tolerates. -/
theorem pushOp_sends {path : Path} {op : SubmitOpRequest}
    (hop : ∀ (s : Pass) (e : Sent), e.op = op → R s { s with sent := s.sent ++ [e] }) : (pushOp env path op).Writes R :=
  ⟨fun _ s => hop s _ rfl, fun _ => True.intro⟩

section Sends

variable (h : Sends R)
include h

theorem Sends.composes : Composes fun _ p => p.Writes R where
  done _ := True.intro
  fail _ := True.intro
  bind hp hf := hp.bind hf
  quiet _ hsent hnext := ⟨fun v s => h.quiet s _ (hsent v s), hnext⟩

theorem updateMirror_sends (f : Mirror → Mirror) : (updateMirror f).Writes R :=
  ⟨fun _ s => h.quiet s _ rfl, fun _ => True.intro⟩

theorem uploadChunks_sends (chunks : List ChunkRef) : (uploadChunks env chunks).Writes R := by
  refine (read_composes h.composes _).bind fun pending => ?_
  split
  · exact True.intro
  · exact (read_composes h.composes _).bind fun result => (updateMirror_sends h _).bind fun _ => True.intro

theorem uploadThenSubmitNewVersion_sends (nodeId : String) (basedOnSeq : ℕ) (path : Path) :
    (uploadThenSubmitNewVersion env nodeId basedOnSeq path).Writes R := by
  refine (fsCall_composes h.composes _).bind fun chunks => ?_
  cases chunks with
  | none => exact True.intro
  | some chunks =>
    refine (uploadChunks_sends h chunks).bind fun error => ?_
    cases error with
    | some e => exact True.intro
    | none =>
      refine (read_composes h.composes _).bind fun versionId => ?_
      refine (pushOp_sends (h.version _ _ _ _ _ _)).bind fun result => ?_
      have hrecord : ∀ result : SubmitResult, (updateMirror (fun m => result.response.elim m
          (m.applySubmittedNewVersion env.folderId nodeId (.mutate nodeId basedOnSeq (.newVersion versionId
            (env.contentHash chunks) ((chunks.map ChunkRef.length).foldl (· + ·) 0) chunks)))) >>= fun _ =>
          copyOnConflict env path result).Writes R :=
        fun result => (updateMirror_sends h _).bind fun _ => copyOnConflict_composes h.composes path result
      cases result with
      | error e => exact True.intro
      | applied serverSeq nodeId => exact hrecord _
      | conflictCopy serverSeq nodeId conflictVersionId => exact hrecord _
      | superseded currentSeq => exact hrecord _
      | conflict => exact hrecord _

theorem finishVersion_sends (nodeId : String) (stat : ℕ × ℕ) (error : Option SubmitError) :
    (finishVersion nodeId stat error).Writes R := by
  cases error with
  | none => exact (updateSummary_composes h.composes _).bind fun _ => updateMirror_sends h _
  | some e => exact recordError_composes h.composes e

theorem finishMove_sends (entry : EntryInfo) (nodeType : NodeType) (node : LocalNode) :
    (finishMove entry nodeType node).Writes R :=
  (updateMirror_sends h _).bind fun _ => (enqueueFolder_composes h.composes _ _ _).bind fun _ =>
    updateSummary_composes h.composes _

theorem createEntry_sends (entry : EntryInfo) (parentNodeId : String) (nodeType : NodeType) :
    (createEntry env entry parentNodeId nodeType).Writes R := by
  refine (ensureNotUpdateRequired_composes h.composes).bind fun _ => (read_composes h.composes _).bind fun nodeId => ?_
  refine (pushOp_sends (h.create _ _ _ _)).bind fun result => ?_
  cases result with
  | error e => exact recordError_composes h.composes e
  | applied serverSeq nodeId =>
    refine (updateMirror_sends h _).bind fun _ => (updateSummary_composes h.composes _).bind fun _ => ?_
    cases nodeType with
    | folder => exact enqueue_composes h.composes _ _
    | file =>
      refine (fsCall_composes h.composes _).bind fun stat => ?_
      cases stat with
      | none => exact updateSummary_composes h.composes _
      | some stat => exact (uploadThenSubmitNewVersion_sends h _ _ _).bind fun _ => finishVersion_sends h _ _ _
  | superseded currentSeq => exact updateSummary_composes h.composes _
  | conflictCopy serverSeq nodeId conflictVersionId => exact True.intro
  | conflict => exact True.intro

theorem processExistingFile_sends (path : Path) (node : LocalNode) :
    (processExistingFile env path node).Writes R := by
  refine (ensureNotUpdateRequired_composes h.composes).bind fun _ => (fsCall_composes h.composes _).bind fun stat => ?_
  cases stat with
  | none => exact updateSummary_composes h.composes _
  | some stat =>
    dsimp only
    split
    · exact updateSummary_composes h.composes _
    · refine (read_composes h.composes _).bind fun stored => ?_
      refine (sameContent_composes h.composes path stat.1 stored).bind fun same => ?_
      cases same with
      | none => exact updateSummary_composes h.composes _
      | some same =>
        cases same with
        | true => exact (updateSummary_composes h.composes _).bind fun _ => updateMirror_sends h _
        | false => exact (uploadThenSubmitNewVersion_sends h _ _ _).bind fun _ => finishVersion_sends h _ _ _

end Sends

/-! ### Moves -/

section Moves

variable (h : SendsMoves R)
include h

theorem renameMoved_sends (entry : EntryInfo) (nodeType : NodeType) (node : LocalNode) :
    (renameMoved env entry nodeType node).Writes R := by
  rw [renameMoved]
  split
  · exact finishMove_sends h.toSends _ _ _
  · refine (pushOp_sends (h.rename _ _ _)).bind fun result => ?_
    have hskip : countSkipped.Writes R := updateSummary_composes h.composes _
    cases result with
    | error e =>
      exact (propagateUpdateRequired_composes h.composes e).bind fun _ => (updateMirror_sends h.toSends _).bind fun _ =>
        (updateSummary_composes h.composes _).bind fun _ => deferDelete_composes h.composes _
    | applied serverSeq nodeId => exact finishMove_sends h.toSends _ _ _
    | conflictCopy serverSeq nodeId conflictVersionId => exact hskip
    | superseded currentSeq => exact hskip
    | conflict => exact hskip

theorem moveEntry_sends (entry : EntryInfo) (parentNodeId : String) (nodeType : NodeType) (node : LocalNode) :
    (moveEntry env entry parentNodeId nodeType node).Writes R := by
  rw [moveEntry]
  split
  · exact renameMoved_sends h _ _ _
  · refine (pushOp_sends (h.move _ _ _)).bind fun result => ?_
    have hskip : countSkipped.Writes R := updateSummary_composes h.composes _
    cases result with
    | error e =>
      exact (propagateUpdateRequired_composes h.composes e).bind fun _ =>
        (updateSummary_composes h.composes _).bind fun _ => deferDelete_composes h.composes _
    | applied serverSeq nodeId => exact renameMoved_sends h _ _ _
    | conflictCopy serverSeq nodeId conflictVersionId => exact hskip
    | superseded currentSeq => exact hskip
    | conflict => exact hskip

theorem processMovedEntry_sends (entry : EntryInfo) (parentNodeId : String) (nodeType : NodeType) :
    (processMovedEntry env entry parentNodeId nodeType).Writes R := by
  refine (findMissingMoveCandidate_composes h.composes entry parentNodeId nodeType).bind fun node => ?_
  cases node with
  | none => exact True.intro
  | some node => exact (moveEntry_sends h _ _ _ _).bind fun _ => True.intro

theorem processNewEntry_sends (entry : EntryInfo) (parentNodeId : String) (nodeType : NodeType) :
    (processNewEntry env entry parentNodeId nodeType).Writes R := by
  refine (processMovedEntry_sends h _ _ _).bind fun moved => ?_
  split
  · exact True.intro
  · exact createEntry_sends h.toSends _ _ _

theorem processEntry_sends (parentNodeId : String) (entry : EntryInfo) :
    (processEntry env parentNodeId entry).Writes R := by
  refine (ensureNotUpdateRequired_composes h.composes).bind fun _ => ?_
  split
  · exact updateSummary_composes h.composes _
  · refine (read_composes h.composes _).bind fun node => ?_
    split
    · exact updateSummary_composes h.composes _
    · split
      · exact enqueue_composes h.composes _ _
      · exact processNewEntry_sends h _ _ _
      · exact processExistingFile_sends h.toSends _ _
      · exact processNewEntry_sends h _ _ _
      · exact updateSummary_composes h.composes _

/-- **The walk keeps the relation.** -/
theorem pushTree_sends : (pushTree env).Writes R := pushTree_composes h.composes (processEntry_sends h)

end Moves

end Valv.Client
