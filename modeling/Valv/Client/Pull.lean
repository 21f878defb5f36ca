import Valv.Client.Mirror
import Valv.Server.Commit

/-!
# Pulling

`pull_delta` and `tree_resync` of `sync_engine/delta_pull.rs`, page by page.

* `applyOps`: the ops of a page, one after the other; an op that cannot be applied ends the
  page and leaves the ones before it applied.
* `applyPage`, `pullPage`, `treeResync`: a page or a tree of the server's answer.
-/

namespace Valv.Client

open Valv.Table Valv.Server

/-- `PulledNode`: what the file system steps are told about an op that was applied, that is, the node's row before
it and after it. -/
structure PulledNode where
  nodeId : String
  opType : String
  isConflictCopy : Bool
  actorDeviceId : String
  appliedAt : ℕ
  oldName : Option String
  oldParentId : Option String
  oldVersionId : Option String
  newName : String
  newParentId : Option String
  newVersionId : Option String
  nodeType : NodeType
  deriving DecidableEq, Repr

/-- `op_type`. -/
def opType : OpPayload → String
  | .create _ _ _ _ => "create"
  | .rename _ => "rename"
  | .move _ => "move"
  | .delete => "delete"
  | .newVersion _ _ _ _ _ => "new_version"

/-- `build_pulled_node`, from the node's rows after and before the op. -/
def buildPulledNode (op : OpLogEntry) (postOp preOp : Option LocalNode) :
    Except MirrorError PulledNode :=
  match postOp.or preOp with
  | none => .error (.unknownNodeAfterApply (opType op.payload) op.nodeId)
  | some state => .ok
    { nodeId := op.nodeId
      opType := opType op.payload
      isConflictCopy := op.payload.isConflict
      actorDeviceId := op.actorDeviceId
      appliedAt := op.appliedAt
      oldName := preOp.map LocalNode.name
      oldParentId := preOp.bind LocalNode.parentId
      oldVersionId := preOp.bind LocalNode.currentVersionId
      newName := match op.payload with
        | .create _ _ name _ => name
        | .rename newName => newName
        | _ => state.name
      newParentId := match op.payload with
        | .create _ parentId _ _ => some parentId
        | .move newParentId => some newParentId
        | _ => postOp.bind LocalNode.parentId
      newVersionId := match op.payload with
        | .newVersion versionId _ _ _ _ => some versionId
        | _ => postOp.bind LocalNode.currentVersionId
      nodeType := match op.payload with
        | .create _ _ _ nodeType => nodeType
        | _ => state.nodeType }

/-- The ops of a page, in their order. -/
def Mirror.applyOps (now : ℕ) : Mirror → List OpLogEntry → Mirror × Except MirrorError (List PulledNode)
  | m, [] => (m, .ok [])
  | m, op :: ops =>
    match m.applyOpLogEntry now op with
    | .error e => (m, .error e)
    | .ok m' =>
      match buildPulledNode op (m'.getNode op.nodeId) (m.getNode op.nodeId) with
      | .error e => (m', .error e)
      | .ok node =>
        match m'.applyOps now ops with
        | (m'', .ok pulled) => (m'', .ok (node :: pulled))
        | (m'', .error e) => (m'', .error e)

/-- One turn of the loop in `pull_delta`. -/
def Mirror.applyPage (m : Mirror) (now : ℕ) (folderId : String) (delta : DeltaPullResponse) :
    Mirror × Except MirrorError (List PulledNode) :=
  if delta.upToSeq < m.getCursor folderId then
    (m, .error (.regressed delta.upToSeq (m.getCursor folderId)))
  else
    match m.applyOps now delta.ops with
    | (m', .ok pulled) => (m'.setCursor folderId delta.upToSeq, .ok pulled)
    | (m', .error e) => (m', .error e)

/-- The server's answer to `GET /ops`, its two queries at one moment. -/
def deltaPage (s : Db) (folderId scopeNodeId : String) (since : ℕ) : DeltaPullResponse :=
  deltaResponse (s.deltaRows folderId scopeNodeId since) (s.folderHeadSeq folderId)

/-- The server's answer to `GET /tree`, its two queries at one moment. -/
def treePage (s : Db) (folderId scopeNodeId : String) : FolderTreeResponse :=
  treeResponse scopeNodeId (s.treeRows folderId scopeNodeId) (s.folderHeadSeq folderId)

/-- A page pulled from the server. -/
def Mirror.pullPage (m : Mirror) (now : ℕ) (s : Db) (folderId scopeNodeId : String) :
    Mirror × Except MirrorError (List PulledNode) :=
  m.applyPage now folderId (deltaPage s folderId scopeNodeId (m.getCursor folderId))

/-- `tree_resync`. -/
def Mirror.treeResync (m : Mirror) (s : Db) (folderId scopeNodeId : String) : Mirror :=
  m.applyTreeSnapshot folderId (treePage s folderId scopeNodeId)

/-! ### Cursors -/

section Cursor

variable {m m' : Mirror} {folderId : String}

theorem mounts_applyOpLogEntry {now : ℕ} {entry : OpLogEntry} (h : m.applyOpLogEntry now entry = .ok m') :
    m'.mounts = m.mounts := by
  rw [Mirror.applyOpLogEntry] at h
  split at h
  · cases h
    rfl
  rw [Mirror.applyPayload] at h
  split at h
  · rw [Mirror.applyCreate] at h
    split at h
    · cases h
    · cases h
      rfl
  · cases h
    rfl
  · cases h
    rfl
  · cases h
    rfl
  · rw [Mirror.applyNewVersion] at h
    split at h
    · cases h
    · cases h
      rw [Mirror.recordVersion]
      split <;> rfl

theorem mounts_applyOps (now : ℕ) (ops : List OpLogEntry) (m : Mirror) :
    (m.applyOps now ops).1.mounts = m.mounts := by
  induction ops generalizing m with
  | nil => rfl
  | cons op ops ih =>
    rw [Mirror.applyOps]
    split
    · rfl
    next m' hm =>
    have hmounts := mounts_applyOpLogEntry hm
    split
    · exact hmounts
    have htail := (ih m').trans hmounts
    split
    · next hrest =>
      rw [hrest] at htail
      exact htail
    · next hrest =>
      rw [hrest] at htail
      exact htail

theorem getCursor_setCursor (m : Mirror) {seq : ℕ}
    (h : (lookup LocalMount.folderId folderId m.mounts).isSome) :
    (m.setCursor folderId seq).getCursor folderId = seq := by
  obtain ⟨r, hr⟩ := Option.isSome_iff_exists.mp h
  have hself : lookup LocalMount.folderId folderId (m.setCursor folderId seq).mounts =
      (lookup LocalMount.folderId folderId m.mounts).map fun r => { r with cursor := seq } :=
    lookup_update_self fun r hr => hr
  rw [Mirror.getCursor, hself, hr]
  rfl

theorem mounted_setCursor (m : Mirror) {seq : ℕ}
    (h : (lookup LocalMount.folderId folderId m.mounts).isSome) :
    (lookup LocalMount.folderId folderId (m.setCursor folderId seq).mounts).isSome := by
  have hself : lookup LocalMount.folderId folderId (m.setCursor folderId seq).mounts =
      (lookup LocalMount.folderId folderId m.mounts).map fun r => { r with cursor := seq } :=
    lookup_update_self fun r hr => hr
  rw [hself, Option.isSome_map]
  exact h

theorem applyOpLogEntry_regressed {now : ℕ} {entry : OpLogEntry} (upToSeq cursor : ℕ) :
    m.applyOpLogEntry now entry ≠ .error (.regressed upToSeq cursor) := by
  intro h
  rw [Mirror.applyOpLogEntry] at h
  split at h
  · cases h
  rw [Mirror.applyPayload] at h
  split at h
  · rw [Mirror.applyCreate] at h
    split at h <;> cases h
  · cases h
  · cases h
  · cases h
  · rw [Mirror.applyNewVersion] at h
    split at h <;> cases h

theorem applyOps_regressed (now : ℕ) (ops : List OpLogEntry) (m : Mirror) (upToSeq cursor : ℕ) :
    (m.applyOps now ops).2 ≠ .error (.regressed upToSeq cursor) := by
  induction ops generalizing m with
  | nil => exact fun h => by cases h
  | cons op ops ih =>
    intro h
    rw [Mirror.applyOps] at h
    split at h
    · next e he =>
      cases h
      exact applyOpLogEntry_regressed upToSeq cursor he
    next m' hm =>
    split at h
    · next e he =>
      cases h
      rw [buildPulledNode] at he
      split at he <;> cases he
    · split at h
      · cases h
      · next m'' e hrest =>
        cases h
        exact ih m' (by rw [hrest])

/-- **A page that does not end below the cursor** leaves the cursor at or above where it was, and is not
taken for a regression. -/
theorem applyPage_cursor {now : ℕ} {delta : DeltaPullResponse} (h : m.getCursor folderId ≤ delta.upToSeq) :
    m.getCursor folderId ≤ (m.applyPage now folderId delta).1.getCursor folderId ∧
      ∀ upToSeq cursor, (m.applyPage now folderId delta).2 ≠ .error (.regressed upToSeq cursor) := by
  have hmounts := mounts_applyOps now delta.ops m
  have hregressed := applyOps_regressed now delta.ops m
  rw [Mirror.applyPage, if_neg (Nat.not_lt.mpr h)]
  cases hops : m.applyOps now delta.ops with
  | mk m' res =>
    rw [hops] at hmounts hregressed
    have hcursor : m'.getCursor folderId = m.getCursor folderId := by
      rw [Mirror.getCursor, hmounts, Mirror.getCursor]
    cases res with
    | error e => exact ⟨hcursor.ge, hregressed⟩
    | ok pulled =>
      refine ⟨?_, fun _ _ hres => by cases hres⟩
      by_cases hmounted : (lookup LocalMount.folderId folderId m'.mounts).isSome
      · show m.getCursor folderId ≤ (m'.setCursor folderId delta.upToSeq).getCursor folderId
        rw [getCursor_setCursor m' hmounted]
        exact h
      · have hnone := Option.not_isSome_iff_eq_none.mp hmounted
        have hzero : m.getCursor folderId = 0 := by
          rw [← hcursor, Mirror.getCursor, hnone]
          rfl
        rw [hzero]
        exact Nat.zero_le _

end Cursor

/-! ### Sequences of a mirror -/

/-- No row is ahead of the server. -/
def Mirror.Bounded (m : Mirror) (top : ℕ) : Prop := ∀ r ∈ m.nodes, r.serverSeq ≤ top

section Bounded

variable {m m' : Mirror} {top : ℕ}

theorem Mirror.Bounded.mono (h : m.Bounded top) {top' : ℕ} (hle : top ≤ top') : m.Bounded top' :=
  fun r hr => (h r hr).trans hle

theorem Mirror.Bounded.getNode (h : m.Bounded top) {k : String} {r : LocalNode}
    (hr : m.getNode k = some r) : r.serverSeq ≤ top :=
  h r (mem_of_lookup hr)

theorem bounded_updateNode {nodeId : String} {f : LocalNode → LocalNode} (h : m.Bounded top)
    (hf : ∀ r, r.serverSeq ≤ top → (f r).serverSeq ≤ top) : (m.updateNode nodeId f).Bounded top := by
  intro r hr
  obtain ⟨r', hr', rfl⟩ := mem_update.mp hr
  have hle := h r' hr'
  split
  · exact hf r' hle
  · exact hle

theorem bounded_upsertNode {r : LocalNode} (h : m.Bounded top) (hr : r.serverSeq ≤ top) :
    (m.upsertNode r).Bounded top := by
  intro r' hr'
  rcases mem_upsert hr' with hold | rfl | ⟨old, -, rfl⟩
  · exact h r' hold
  · exact hr
  · exact hr

theorem bounded_recordVersion {nodeId versionId : String} {seq : ℕ} {isConflictCopy : Bool}
    (h : m.Bounded top) (hseq : seq ≤ top) :
    (m.recordVersion nodeId versionId seq isConflictCopy).Bounded top := by
  rw [Mirror.recordVersion]
  split
  · exact bounded_updateNode h fun _ _ => hseq
  · exact bounded_updateNode h fun _ _ => hseq

theorem bounded_applyOpLogEntry {now : ℕ} {entry : OpLogEntry} (h : m.Bounded top)
    (hseq : entry.serverSeq ≤ top) (hm : m.applyOpLogEntry now entry = .ok m') : m'.Bounded top := by
  rw [Mirror.applyOpLogEntry] at hm
  split at hm
  · cases hm
    exact h
  rw [Mirror.applyPayload] at hm
  split at hm
  · rw [Mirror.applyCreate] at hm
    split at hm
    · cases hm
    · cases hm
      exact bounded_upsertNode h hseq
  · cases hm
    exact bounded_updateNode h fun _ _ => hseq
  · cases hm
    exact bounded_updateNode h fun _ _ => hseq
  · cases hm
    exact bounded_updateNode h fun _ _ => hseq
  · rw [Mirror.applyNewVersion] at hm
    split at hm
    · cases hm
    · cases hm
      exact bounded_recordVersion h hseq

theorem bounded_applyOps (now : ℕ) (ops : List OpLogEntry) (h : m.Bounded top)
    (hseq : ∀ op ∈ ops, op.serverSeq ≤ top) : (m.applyOps now ops).1.Bounded top := by
  induction ops generalizing m with
  | nil => exact h
  | cons op ops ih =>
    rw [Mirror.applyOps]
    split
    · exact h
    next m' hm =>
    have h' : m'.Bounded top := bounded_applyOpLogEntry h (hseq op (by simp)) hm
    have htail := ih h' fun op' hop => hseq op' (List.mem_cons_of_mem op hop)
    split
    · exact h'
    · split
      · next hrest =>
        rw [hrest] at htail
        exact htail
      · next hrest =>
        rw [hrest] at htail
        exact htail

theorem mem_deltaPage {s : Db} {folderId scopeNodeId : String} {since : ℕ} {op : OpLogEntry}
    (h : op ∈ (deltaPage s folderId scopeNodeId since).ops) : ∃ e ∈ s.opLog, e.entry = op := by
  obtain ⟨e, he, rfl⟩ := List.mem_map.mp h
  exact ⟨e, (mem_deltaRows he).1, rfl⟩

/-- **Pulling a page** leaves every row at or below the server's last `server_seq`. -/
theorem bounded_pullPage {now : ℕ} {s : Db} {folderId scopeNodeId : String} (h : m.Bounded s.lastSeq)
    (hd : s.SeqsDrawn) : (m.pullPage now s folderId scopeNodeId).1.Bounded s.lastSeq := by
  have hops := bounded_applyOps now
    (deltaPage s folderId scopeNodeId (m.getCursor folderId)).ops h fun op hop => by
      obtain ⟨e, he, rfl⟩ := mem_deltaPage hop
      exact hd.le e he
  rw [Mirror.pullPage, Mirror.applyPage]
  split
  · exact h
  · split
    · next hrest =>
      rw [hrest] at hops
      exact hops
    · next hrest =>
      rw [hrest] at hops
      exact hops

theorem bounded_insertSnapshotNodes {folderId : String} {nodes : List NodeSnapshot} (h : m.Bounded top)
    (hseq : ∀ n ∈ nodes, n.serverSeq ≤ top) :
    (nodes.foldl (Mirror.insertSnapshotNode folderId) m).Bounded top := by
  induction nodes generalizing m with
  | nil => exact h
  | cons n nodes ih =>
    exact ih (bounded_upsertNode h (hseq n (by simp))) fun n' hn => hseq n' (List.mem_cons_of_mem n hn)

/-- **A resync** does so too. -/
theorem bounded_treeResync {s : Db} {folderId scopeNodeId : String} (h : m.Bounded s.lastSeq)
    (hc : s.Consistent) : (m.treeResync s folderId scopeNodeId).Bounded s.lastSeq := by
  have hkept : Mirror.Bounded { m with
      versions := m.versions.filter fun r => r.folderId ≠ folderId
      nodes := m.nodes.filter fun r => r.folderId ≠ folderId } s.lastSeq :=
    fun r hr => h r (List.mem_filter.mp hr).1
  refine bounded_insertSnapshotNodes hkept fun n hn => ?_
  obtain ⟨r, hr, rfl⟩ := List.mem_map.mp hn
  exact hc.mem_rows (mem_treeRows.mp hr).1

end Bounded

end Valv.Client
