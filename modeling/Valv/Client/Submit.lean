import Valv.Client.Pull
import Valv.Lib.Replica

/-!
# Recording submissions

What the client writes into its mirror when one of its own ops is answered:
`apply_submitted_new_version` of `sync_engine/op_submit.rs` and the success paths of creates,
moves, renames and deletes in `sync_engine/local_push.rs`, `watch/mod.rs` and `valvd/src/fp.rs`.

* `Mirror.record`: the answer to a request, recorded.
* `Field`, `OpPayload.writes`: the columns of a node, and those an op writes.
* `copy_applyOpLogEntry`: a pulled op writes them into the mirror's row.
* `copy_record`: so does a recorded answer.
-/

namespace Valv.Client

open Valv.Table Valv.Server Valv.Replica

/-! ### Answers -/

/-- A request of the device and its answer.  `row` is the row that a rename or a move holds in
memory, with the answer already in it. -/
structure Reply where
  op : SubmitOpRequest
  row : Option LocalNode
  answer : Except ApiError SubmitOpResponse
  deriving DecidableEq

/-- The row in memory after an applied rename or move of it. -/
def LocalNode.submitted (m : Mutation) (serverSeq : ℕ) (r : LocalNode) : LocalNode :=
  match m with
  | .rename newName => { r with name := newName, serverSeq }
  | .move newParentId => { r with parentId := some newParentId, serverSeq }
  | _ => r

/-- The row in memory after the answer, if there is one to be recorded. -/
def submittedRow (op : SubmitOpRequest) (row : Option LocalNode) :
    Except ApiError SubmitOpResponse → Option LocalNode
  | .ok (.applied serverSeq _) =>
    match op with
    | .mutate _ _ m => row.map (LocalNode.submitted m serverSeq)
    | .create _ _ _ _ => none
  | _ => none

/-- `apply_submitted_new_version`. -/
def Mirror.applySubmittedNewVersion (m : Mirror) (folderId nodeId : String) (op : SubmitOpRequest)
    (response : SubmitOpResponse) : Mirror :=
  match op with
  | .mutate _ _ (.newVersion versionId contentHash sizeBytes manifest) =>
    match response with
    | .applied serverSeq _ =>
      (m.upsertVersion { versionId, nodeId, folderId, contentHash, sizeBytes, manifest })
        |>.recordVersion nodeId versionId serverSeq false
    | .conflictCopy serverSeq _ conflictVersionId =>
      (m.upsertVersion
        { versionId := conflictVersionId, nodeId, folderId, contentHash, sizeBytes, manifest })
        |>.recordVersion nodeId conflictVersionId serverSeq true
    | .superseded _ => m
  | _ => m

/-- The row of a created node. -/
def createdNode (folderId nodeId parentId name : String) (nodeType : NodeType) (serverSeq : ℕ) :
    LocalNode :=
  { nodeId, folderId, parentId := some parentId, name, nodeType, serverSeq }

/-- What the client records of an answer. -/
def Mirror.record (m : Mirror) (folderId : String) (now : ℕ) (reply : Reply) : Mirror :=
  match reply.answer with
  | .error _ => m
  | .ok response =>
    match reply.op with
    | .mutate nodeId _ (.newVersion _ _ _ _) =>
      m.applySubmittedNewVersion folderId nodeId reply.op response
    | .create _ parentId name nodeType =>
      match response with
      | .applied serverSeq nodeId =>
        m.upsertNode (createdNode folderId nodeId parentId name nodeType serverSeq)
      | _ => m
    | .mutate nodeId _ .delete =>
      match response with
      | .applied serverSeq _ => m.markDeleted nodeId serverSeq now
      | _ => m
    | .mutate _ _ _ =>
      match response with
      | .applied _ _ => reply.row.elim m m.upsertNode
      | _ => m

/-! ### Columns -/

/-- The columns of a node that ops write, next to `server_seq`. -/
inductive Field where
  | parentId
  | name
  | deleted
  | currentVersionId
  deriving DecidableEq, Repr

/-- What a column holds. -/
def Field.Value : Field → Type
  | .parentId => Option String
  | .name => String
  | .deleted => Bool
  | .currentVersionId => Option String

/-- The columns of a row. -/
def columns (parentId : Option String) (name : String) (deleted : Bool)
    (currentVersionId : Option String) : (f : Field) → f.Value
  | .parentId => parentId
  | .name => name
  | .deleted => deleted
  | .currentVersionId => currentVersionId

/-- The server's row. -/
def serverCopy (r : NodeRow) : Copy Field.Value where
  seq := r.serverSeq
  value := columns r.parentId r.name r.deletedAt.isSome r.currentVersionId

/-- The mirror's row. -/
def mirrorCopy (r : LocalNode) : Copy Field.Value where
  seq := r.serverSeq
  value := columns r.parentId r.name r.deletedAt.isSome r.currentVersionId

/-- What an op writes into each column. -/
def writes : OpPayload → (f : Field) → Option f.Value
  | .create _ parentId name _, f => some (columns (some parentId) name false none f)
  | .rename newName, .name => some newName
  | .move newParentId, .parentId => some (some newParentId)
  | .delete, .deleted => some true
  | .newVersion versionId _ _ _ false, .currentVersionId => some (some versionId)
  | _, _ => none

/-- The columns an op writes. -/
def fields : OpPayload → List Field
  | .create _ _ _ _ => [.parentId, .name, .deleted, .currentVersionId]
  | .rename _ => [.name]
  | .move _ => [.parentId]
  | .delete => [.deleted]
  | .newVersion _ _ _ _ isConflictCopy => if isConflictCopy then [] else [.currentVersionId]

theorem writes_isSome (p : OpPayload) (f : Field) : (writes p f).isSome ↔ f ∈ fields p := by
  rcases p with _ | _ | _ | _ | ⟨_, _, _, _, _ | _⟩ <;> cases f <;> simp [writes, fields] <;> rfl

/-- What an op of the log writes, and its number. -/
def entrySeq (e : OpLogRow) : ℕ := e.serverSeq

def entryWrites (e : OpLogRow) : (f : Field) → Option f.Value := writes e.payload

/-- A copy after an op of the log. -/
def putEntry (x : Copy Field.Value) (e : OpLogRow) : Copy Field.Value := x.put entrySeq entryWrites e

theorem full_iff (e : OpLogRow) : Full entryWrites e ↔ isCreate e.entry = true := by
  have hrhs : isCreate e.entry = true ↔ ∃ n p name type, e.payload = .create n p name type := by
    rw [isCreate, OpLogRow.entry]
    split
    · next h => exact ⟨fun _ => ⟨_, _, _, _, h⟩, fun _ => rfl⟩
    · next h =>
      constructor
      · exact nofun
      · rintro ⟨n, p, name, type, hp⟩
        exact absurd hp (h n p name type)
  rw [hrhs]
  constructor
  · intro h
    have hparent := (writes_isSome e.payload .parentId).mp (h .parentId)
    have hname := (writes_isSome e.payload .name).mp (h .name)
    cases hp : e.payload with
    | create n p name type => exact ⟨n, p, name, type, rfl⟩
    | newVersion v c s m b => cases b <;> simp [hp, fields] at hname
    | _ => simp [hp, fields] at hparent hname
  · rintro ⟨n, p, name, type, hp⟩ f
    rw [entryWrites, hp]
    rfl

/-- Two copies with the same columns. -/
theorem copy_ext {x y : Copy Field.Value} (hseq : x.seq = y.seq)
    (hparent : x.value .parentId = y.value .parentId) (hname : x.value .name = y.value .name)
    (hdeleted : x.value .deleted = y.value .deleted)
    (hversion : x.value .currentVersionId = y.value .currentVersionId) : x = y := by
  refine Copy.ext hseq (funext fun f => ?_)
  cases f with
  | parentId => exact hparent
  | name => exact hname
  | deleted => exact hdeleted
  | currentVersionId => exact hversion

/-! ### The server's row -/

/-- An applied mutation writes its columns. -/
theorem serverCopy_applied (m : Mutation) (newId : String) (now : ℕ) (r : NodeRow) (e : OpLogRow)
    (hp : e.payload = m.logged newId false) :
    serverCopy { m.applyRow now r with serverSeq := e.serverSeq } = putEntry (serverCopy r) e := by
  cases m <;> exact copy_ext rfl (by rw [putEntry, put_value, entryWrites, hp]; rfl)
    (by rw [putEntry, put_value, entryWrites, hp]; rfl) (by rw [putEntry, put_value, entryWrites, hp]; rfl)
    (by rw [putEntry, put_value, entryWrites, hp]; rfl)

/-- A conflict copy writes none. -/
theorem serverCopy_conflict (r : NodeRow) (e : OpLogRow) (hp : fields e.payload = []) :
    serverCopy { r with serverSeq := e.serverSeq } = putEntry (serverCopy r) e := by
  refine Copy.ext rfl (funext fun f => ?_)
  have hnone : writes e.payload f = none := by
    rw [← Option.not_isSome_iff_eq_none, writes_isSome, hp]
    exact List.not_mem_nil
  rw [putEntry, put_value, entryWrites, hnone]
  rfl

/-- A create writes all of them. -/
theorem serverCopy_created (call : SubmitCall) (n parentId name : String) (type : NodeType) (e : OpLogRow)
    (hp : e.payload = .create n parentId name type) (z : Copy Field.Value) :
    serverCopy { call.createdRow n parentId name type with serverSeq := e.serverSeq } = putEntry z e := by
  refine Copy.ext rfl (funext fun f => ?_)
  rw [putEntry, put_value, entryWrites, hp]
  rfl

/-! ### The mirror's row -/

section Rows

variable {m m' : Mirror} {now : ℕ} {e : OpLogRow} {r : LocalNode}

/-- The mirror's copy of a node. -/
def Mirror.copy (m : Mirror) (n : String) : Option (Copy Field.Value) := (m.getNode n).map mirrorCopy

theorem copy_upsertNode (r : LocalNode) : (m.upsertNode r).copy r.nodeId = some (mirrorCopy r) := by
  rw [Mirror.copy, getNode_upsertNode_self]
  cases m.getNode r.nodeId <;> rfl

theorem copy_updateNode {n : String} {f : LocalNode → LocalNode} {g : Copy Field.Value → Copy Field.Value}
    (hf : ∀ r, (f r).nodeId = r.nodeId) (hg : ∀ r, mirrorCopy (f r) = g (mirrorCopy r)) :
    (m.updateNode n f).copy n = (m.copy n).map g := by
  rw [Mirror.copy, getNode_updateNode_self hf, Mirror.copy, Option.map_map, Option.map_map]
  exact Option.map_congr fun r _ => hg r

/-- A version that is pulled or recorded writes its columns. -/
theorem copy_recordVersion {n versionId contentHash : String} {sizeBytes : ℕ} {manifest : List ChunkRef}
    {isConflictCopy : Bool}
    (hp : e.payload = .newVersion versionId contentHash sizeBytes manifest isConflictCopy) :
    (m.recordVersion n versionId e.serverSeq isConflictCopy).copy n =
      (m.copy n).map fun x => putEntry x e := by
  rw [Mirror.recordVersion]
  cases isConflictCopy with
  | true =>
    rw [if_pos rfl]
    refine copy_updateNode (fun _ => rfl) fun r => Copy.ext rfl (funext fun f => ?_)
    rw [putEntry, put_value, entryWrites, hp]
    cases f <;> rfl
  | false =>
    rw [if_neg (by simp)]
    refine copy_updateNode (fun _ => rfl) fun r => Copy.ext rfl (funext fun f => ?_)
    rw [putEntry, put_value, entryWrites, hp]
    cases f <;> rfl

theorem copy_markDeleted {n : String} (hp : e.payload = .delete) :
    (m.markDeleted n e.serverSeq now).copy n = (m.copy n).map fun x => putEntry x e := by
  refine copy_updateNode (fun _ => rfl) fun r => Copy.ext rfl (funext fun f => ?_)
  rw [putEntry, put_value, entryWrites, hp]
  cases f <;> rfl

/-- An applied rename or move of a row in memory writes its column. -/
theorem mirrorCopy_submitted {mu : Mutation} {newId : String} (hp : e.payload = mu.logged newId false)
    (hmu : (∃ newName, mu = .rename newName) ∨ ∃ newParentId, mu = .move newParentId) :
    mirrorCopy (r.submitted mu e.serverSeq) = putEntry (mirrorCopy r) e := by
  rcases hmu with ⟨newName, rfl⟩ | ⟨newParentId, rfl⟩
  · refine Copy.ext rfl (funext fun f => ?_)
    rw [putEntry, put_value, entryWrites, hp]
    cases f <;> rfl
  · refine Copy.ext rfl (funext fun f => ?_)
    rw [putEntry, put_value, entryWrites, hp]
    cases f <;> rfl

theorem mirrorCopy_created {n parentId name : String} {type : NodeType} (folderId : String)
    (hp : e.payload = .create n parentId name type) (z : Copy Field.Value) :
    mirrorCopy (createdNode folderId e.nodeId parentId name type e.serverSeq) = putEntry z e := by
  refine Copy.ext rfl (funext fun f => ?_)
  rw [putEntry, put_value, entryWrites, hp]
  rfl

/-- The columns of a pulled op that is not a create. -/
theorem copy_applyPayload (hc : isCreate e.entry = false) (h : m.applyPayload now e.entry = .ok m') :
    m'.copy e.nodeId = (m.copy e.nodeId).map fun x => putEntry x e := by
  rw [Mirror.applyPayload] at h
  split at h
  · next hp =>
    rw [isCreate, hp] at hc
    cases hc
  · next newName hp =>
    cases h
    have hp' : e.payload = .rename newName := hp
    refine copy_updateNode (fun _ => rfl) fun r => Copy.ext rfl (funext fun f => ?_)
    rw [putEntry, put_value, entryWrites, hp']
    cases f <;> rfl
  · next newParentId hp =>
    cases h
    have hp' : e.payload = .move newParentId := hp
    refine copy_updateNode (fun _ => rfl) fun r => Copy.ext rfl (funext fun f => ?_)
    rw [putEntry, put_value, entryWrites, hp']
    cases f <;> rfl
  · next hp =>
    cases h
    exact copy_markDeleted hp
  · next hp =>
    rw [Mirror.applyNewVersion] at h
    split at h
    · cases h
    · cases h
      exact copy_recordVersion hp

/-- **A pulled op** that is not a create: it is received by the node's row, if there is one. -/
theorem copy_applyOpLogEntry (hc : isCreate e.entry = false)
    (h : m.applyOpLogEntry now e.entry = .ok m') :
    m'.copy e.nodeId = (m.copy e.nodeId).map fun x => x.receive entrySeq entryWrites e := by
  have hstale : m.stale e.entry = (m.getNode e.nodeId).any fun r => e.serverSeq ≤ r.serverSeq := by
    rw [Mirror.stale, hc, Bool.not_false, Bool.true_and]
    rfl
  rw [Mirror.applyOpLogEntry, hstale] at h
  cases hr : m.getNode e.nodeId with
  | none =>
    rw [hr] at h
    have hcopy : m.copy e.nodeId = none := by rw [Mirror.copy, hr]; rfl
    rw [copy_applyPayload hc h, hcopy]
    rfl
  | some r =>
    have hcopy : m.copy e.nodeId = some (mirrorCopy r) := by rw [Mirror.copy, hr]; rfl
    rw [hr] at h
    rw [hcopy, Option.map_some, Copy.receive]
    split at h
    · next hle =>
      cases h
      have hle' : entrySeq e ≤ (mirrorCopy r).seq := of_decide_eq_true hle
      rw [if_pos hle', hcopy]
    · next hlt =>
      have hlt' : ¬ entrySeq e ≤ (mirrorCopy r).seq := fun hle => hlt (decide_eq_true hle)
      rw [if_neg hlt', copy_applyPayload hc h, hcopy]
      rfl

/-- **A pulled create** resets the node's row. -/
theorem copy_applyOpLogEntry_create (hc : isCreate e.entry = true)
    (h : m.applyOpLogEntry now e.entry = .ok m') (z : Copy Field.Value) :
    m'.copy e.nodeId = some (putEntry z e) := by
  have hstale : m.stale e.entry = false := by rw [Mirror.stale, hc, Bool.not_true, Bool.false_and]
  rw [Mirror.applyOpLogEntry, hstale, if_neg (by simp), Mirror.applyPayload] at h
  split at h
  · next n parentId name type hp =>
    have hp' : e.payload = .create n parentId name type := hp
    rw [Mirror.applyCreate] at h
    split at h
    · cases h
    · next parent _ =>
      cases h
      rw [← mirrorCopy_created parent.folderId hp' z]
      exact copy_upsertNode (createdNode parent.folderId e.nodeId parentId name type e.serverSeq)
  all_goals
    next hp =>
    rw [isCreate, hp] at hc
    cases hc

/-! ### What a recorded answer leaves alone -/

theorem copy_record_ne {folderId k : String} {reply : Reply} (hk : k ≠ reply.op.nodeId)
    (hrow : ∀ r ∈ reply.row, r.nodeId = reply.op.nodeId)
    (hanswer : ∀ seq n, reply.answer = .ok (.applied seq n) → n = reply.op.nodeId) :
    (m.record folderId now reply).copy k = m.copy k := by
  have hframe : (m.record folderId now reply).getNode k = m.getNode k := by
    rw [Mirror.record]
    cases hans : reply.answer with
    | error err => rfl
    | ok response =>
      cases hop : reply.op with
      | create n parentId name type =>
        cases response with
        | applied seq n' =>
          have hn : n' = reply.op.nodeId := hanswer seq n' hans
          exact getNode_upsertNode_ne _ fun h => hk (h.trans hn)
        | conflictCopy seq n' v => rfl
        | superseded seq => rfl
      | mutate n b mu =>
        have hn : k ≠ n := by rw [hop] at hk; exact hk
        have hupsert : (reply.row.elim m m.upsertNode).getNode k = m.getNode k := by
          cases hr : reply.row with
          | none => rfl
          | some r =>
            have hrn : r.nodeId = reply.op.nodeId := hrow r hr
            exact getNode_upsertNode_ne _ fun h => hk (h.trans hrn)
        cases mu with
        | newVersion v c sz mf =>
          cases response with
          | applied seq n' => exact getNode_recordVersion_ne hn
          | conflictCopy seq n' v => exact getNode_recordVersion_ne hn
          | superseded seq => rfl
        | delete =>
          cases response with
          | applied seq n' => exact getNode_updateNode_ne (fun _ => rfl) hn
          | conflictCopy seq n' v => rfl
          | superseded seq => rfl
        | rename newName =>
          cases response with
          | applied seq n' => exact hupsert
          | conflictCopy seq n' v => rfl
          | superseded seq => rfl
        | move newParentId =>
          cases response with
          | applied seq n' => exact hupsert
          | conflictCopy seq n' v => rfl
          | superseded seq => rfl
  rw [Mirror.copy, hframe, Mirror.copy]

end Rows

end Valv.Client
