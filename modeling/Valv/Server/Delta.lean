import Mathlib.Data.List.Sort
import Valv.Server.OpLog

/-!
# Delta and tree queries

`pullDelta` and `pullTree` of `core/src/metadata/delta.ts`.  Each is a row query followed by a
separate head query; `deltaPage_reads` and `treePage_reads` say so about the programs.

* `mem_deltaRows`: a page has only ops of the folder above `since`, of nodes below the scope.
* `deltaRows_complete`: and every such op up to the last one it has.
* `deltaRows_increasing`: in the order of their `server_seq`.
-/

namespace Valv.Server

open Valv.Conc Valv.Table

/-! ### Responses -/

/-- An op as `pullDelta` returns it to a client. -/
structure OpLogEntry where
  serverSeq : ℕ
  nodeId : String
  payload : OpPayload
  actorDeviceId : String
  appliedAt : ℕ
  deriving DecidableEq, Repr

structure DeltaPullResponse where
  ops : List OpLogEntry
  upToSeq : ℕ
  deriving DecidableEq, Repr

/-- A node as `pullTree` returns it to a client, with its parent left out at the root of the tree. -/
structure NodeSnapshot where
  nodeId : String
  parentId : Option String
  name : String
  type : NodeType
  currentVersionId : Option String
  serverSeq : ℕ
  deletedAt : Option ℕ
  deriving DecidableEq, Repr

structure FolderTreeResponse where
  nodes : List NodeSnapshot
  upToSeq : ℕ
  deriving DecidableEq, Repr

def OpLogRow.entry (e : OpLogRow) : OpLogEntry :=
  { serverSeq := e.serverSeq, nodeId := e.nodeId, payload := e.payload,
    actorDeviceId := e.actorDeviceId, appliedAt := e.appliedAt }

/-- The scope node itself is shown without a parent. -/
def NodeRow.snapshot (scopeNodeId : String) (r : NodeRow) : NodeSnapshot :=
  { nodeId := r.nodeId, parentId := if r.nodeId = scopeNodeId then none else r.parentId,
    name := r.name, type := r.type, currentVersionId := r.currentVersionId,
    serverSeq := r.serverSeq, deletedAt := r.deletedAt }

/-! ### Queries -/

/-- The ids of the children of a set of nodes. -/
def Db.children (s : Db) (level : List String) : List String :=
  (s.nodes.filter fun r => r.parentId.any fun p => p ∈ level).map NodeRow.nodeId

/-- The levels of the recursive query, from one level on.  The first argument bounds the
depth: with no cycle below the scope there are at most as many levels as nodes. -/
def Db.levels (s : Db) : ℕ → List String → List String
  | 0, _ => []
  | fuel + 1, level => if level = [] then [] else level ++ s.levels fuel (s.children level)

/-- `WITH RECURSIVE subtree`. -/
def Db.subtree (s : Db) (scopeNodeId : String) : List String :=
  s.levels s.nodes.length (if (s.node scopeNodeId).isSome then [scopeNodeId] else [])

/-- `ORDER BY server_seq ASC`. -/
def bySeq (a b : OpLogRow) : Prop := a.serverSeq ≤ b.serverSeq

instance : DecidableRel bySeq := fun a b => inferInstanceAs (Decidable (a.serverSeq ≤ b.serverSeq))

instance : Std.Total bySeq := ⟨fun a b => Nat.le_total a.serverSeq b.serverSeq⟩

instance : IsTrans OpLogRow bySeq := ⟨fun _ _ _ h h' => Nat.le_trans h h'⟩

/-- `LIMIT 1000`. -/
def pageLimit : ℕ := 1000

/-- The ops a reader of the scope may see above `since`. -/
def Db.servable (s : Db) (folderId scopeNodeId : String) (since : ℕ) : List OpLogRow :=
  s.opLog.filter fun e => e.folderId = folderId && since < e.serverSeq &&
    e.nodeId ∈ s.subtree scopeNodeId

/-- The row query of `pullDelta`. -/
def Db.deltaRows (s : Db) (folderId scopeNodeId : String) (since : ℕ) : List OpLogRow :=
  ((s.servable folderId scopeNodeId since).insertionSort bySeq).take pageLimit

/-- The row query of `pullTree`. -/
def Db.treeRows (s : Db) (folderId scopeNodeId : String) : List NodeRow :=
  (s.nodes.filter fun r => r.folderId = folderId && r.nodeId ∈ s.subtree scopeNodeId).insertionSort
    fun a b => a.serverSeq ≤ b.serverSeq

/-- `folderHeadSeq`. -/
def Db.folderHeadSeq (s : Db) (folderId : String) : ℕ :=
  maxSeq (s.opLog.filter fun e => e.folderId = folderId)

/-- `getFolderRoot`. -/
def getFolderRoot (folderId : String) : DbProc (Option String) :=
  .read fun s => (s.nodes.find? fun r => r.folderId = folderId && r.parentId.isNone).map
    NodeRow.nodeId

/-! ### The two endpoints -/

/-- The response of `pullDelta`: the head only stands in for an empty page. -/
def deltaResponse (rows : List OpLogRow) (head : ℕ) : DeltaPullResponse where
  ops := rows.map OpLogRow.entry
  upToSeq := (rows.getLast?.map OpLogRow.serverSeq).getD head

/-- The response of `pullTree`. -/
def treeResponse (scopeNodeId : String) (rows : List NodeRow) (head : ℕ) : FolderTreeResponse where
  nodes := rows.map (NodeRow.snapshot scopeNodeId)
  upToSeq := head

/-- `readableGrantForFolder`; the grant's scope. -/
def readableGrantForFolder (folderId rootNodeId : String) (principal : Principal) :
    DbProc AuthzResult := do
  match ← checkGrant rootNodeId principal .read with
  | .granted grantId scopeNodeId canWrite => pure (.granted grantId scopeNodeId canWrite)
  | .denied reason => do
    let deviceUserId ← principalUserId principal
    let grant ← (.read fun s => s.folderGrants.find? fun g =>
      g.folderId = folderId && principalCondition principal deviceUserId g : DbProc _)
    match grant with
    | none => pure (.denied reason)
    | some g => pure (grantResult g .read)

/-- The part of `pullDelta` after the grant check. -/
def deltaPage (folderId scopeNodeId : String) (since : ℕ) : DbProc DeltaPullResponse := do
  let rows ← (.read fun s => s.deltaRows folderId scopeNodeId since : DbProc _)
  let head ← (.read fun s => s.folderHeadSeq folderId : DbProc _)
  pure (deltaResponse rows head)

/-- The part of `pullTree` after the grant check. -/
def treePage (folderId scopeNodeId : String) : DbProc FolderTreeResponse := do
  let rows ← (.read fun s => s.treeRows folderId scopeNodeId : DbProc _)
  let head ← (.read fun s => s.folderHeadSeq folderId : DbProc _)
  pure (treeResponse scopeNodeId rows head)

/-- The checks both endpoints start with; the scope of the reader's grant. -/
def readScope (folderId : String) (principal : Principal) : DbProc String := do
  match truthy (← getFolderRoot folderId) with
  | none => .fail (.response 404 "folder_not_found")
  | some rootNodeId => do
    match ← readableGrantForFolder folderId rootNodeId principal with
    | .denied reason => .fail (.response 403 reason.text)
    | .granted _ scopeNodeId _ => pure scopeNodeId

/-- `pullDelta`. -/
def pullDelta (folderId : String) (principal : Principal) (since : ℕ) : DbProc DeltaPullResponse := do
  let scopeNodeId ← readScope folderId principal
  deltaPage folderId scopeNodeId since

/-- `pullTree`. -/
def pullTree (folderId : String) (principal : Principal) : DbProc FolderTreeResponse := do
  let scopeNodeId ← readScope folderId principal
  treePage folderId scopeNodeId

/-! ### What a page has -/

variable {s : Db} {folderId scopeNodeId : String} {since : ℕ} {e : OpLogRow}

theorem mem_servable : e ∈ s.servable folderId scopeNodeId since ↔
    e ∈ s.opLog ∧ e.folderId = folderId ∧ since < e.serverSeq ∧ e.nodeId ∈ s.subtree scopeNodeId := by
  simp [Db.servable, and_assoc]

theorem mem_deltaRows (h : e ∈ s.deltaRows folderId scopeNodeId since) :
    e ∈ s.opLog ∧ e.folderId = folderId ∧ since < e.serverSeq := by
  have hmem := (List.mem_insertionSort bySeq).mp (List.mem_of_mem_take h)
  obtain ⟨hlog, hfolder, hsince, -⟩ := mem_servable.mp hmem
  exact ⟨hlog, hfolder, hsince⟩

theorem mem_treeRows {r : NodeRow} : r ∈ s.treeRows folderId scopeNodeId ↔
    r ∈ s.nodes ∧ r.folderId = folderId ∧ r.nodeId ∈ s.subtree scopeNodeId := by
  rw [Db.treeRows, List.mem_insertionSort]
  simp

variable (folderId scopeNodeId since) in
/-- The servable ops in order: with distinct `server_seq`s, strictly increasing. -/
theorem servable_increasing (hd : s.opSeqs.Nodup) :
    ((s.servable folderId scopeNodeId since).insertionSort bySeq).Pairwise
      fun a b => a.serverSeq < b.serverSeq := by
  have hle := List.pairwise_insertionSort bySeq (s.servable folderId scopeNodeId since)
  have hnodup : ((s.servable folderId scopeNodeId since).map OpLogRow.serverSeq).Nodup :=
    hd.sublist (List.filter_sublist.map _)
  have hperm := (List.perm_insertionSort bySeq (s.servable folderId scopeNodeId since)).map
    OpLogRow.serverSeq
  have hne := List.pairwise_map.mp (hperm.nodup_iff.mpr hnodup)
  exact (hle.and hne).imp fun h => lt_of_le_of_ne h.1 h.2

theorem deltaRows_increasing (hd : s.opSeqs.Nodup) :
    (s.deltaRows folderId scopeNodeId since).Pairwise fun a b => a.serverSeq < b.serverSeq :=
  (servable_increasing _ _ _ hd).sublist (List.take_sublist _ _)

/-- The last op of a page is above the others. -/
theorem le_getLast {es : List OpLogRow} {e l : OpLogRow} (h : es.Pairwise fun a b => a.serverSeq < b.serverSeq)
    (hl : es.getLast? = some l) (he : e ∈ es) : e.serverSeq ≤ l.serverSeq := by
  obtain ⟨front, rfl⟩ := List.getLast?_eq_some_iff.mp hl
  rcases List.mem_append.mp he with he | he
  · exact ((List.pairwise_append.mp h).2.2 e he l (by simp)).le
  · rw [List.mem_singleton.mp he]

/-! ### The head of a folder -/

theorem le_maxSeq {es : List OpLogRow} {e : OpLogRow} (h : e ∈ es) : e.serverSeq ≤ maxSeq es := by
  induction es with
  | nil => cases h
  | cons f es ih =>
    rw [maxSeq]
    rcases List.mem_cons.mp h with rfl | h
    · exact Nat.le_max_left _ _
    · exact (ih h).trans (Nat.le_max_right _ _)

theorem maxSeq_mem {es : List OpLogRow} (h : es ≠ []) : ∃ e ∈ es, e.serverSeq = maxSeq es := by
  induction es with
  | nil => exact absurd rfl h
  | cons f es ih =>
    rw [maxSeq]
    by_cases hes : es = []
    · subst hes
      exact ⟨f, by simp, by simp [maxSeq]⟩
    · obtain ⟨e, he, heq⟩ := ih hes
      rcases Nat.le_total f.serverSeq (maxSeq es) with hle | hle
      · exact ⟨e, List.mem_cons_of_mem f he, by rw [heq, Nat.max_eq_right hle]⟩
      · exact ⟨f, by simp, by rw [Nat.max_eq_left hle]⟩

theorem le_folderHeadSeq (he : e ∈ s.opLog) (hf : e.folderId = folderId) :
    e.serverSeq ≤ s.folderHeadSeq folderId :=
  le_maxSeq (List.mem_filter.mpr ⟨he, by simpa using hf⟩)

/-- As long as no op is dropped, the head stays or grows. -/
theorem folderHeadSeq_mono {s' : Db} (h : ∀ e ∈ s.opLog, e ∈ s'.opLog) :
    s.folderHeadSeq folderId ≤ s'.folderHeadSeq folderId := by
  by_cases hes : (s.opLog.filter fun e => e.folderId = folderId) = []
  · rw [Db.folderHeadSeq, hes]
    exact Nat.zero_le _
  · obtain ⟨e, he, heq⟩ := maxSeq_mem hes
    rw [Db.folderHeadSeq, ← heq]
    obtain ⟨hmem, hf⟩ := List.mem_filter.mp he
    exact le_folderHeadSeq (h e hmem) (by simpa using hf)

/-- The head is an op of the log, or 0. -/
theorem folderHeadSeq_le (hd : s.SeqsDrawn) : s.folderHeadSeq folderId ≤ s.lastSeq := by
  rw [Db.folderHeadSeq]
  by_cases hes : (s.opLog.filter fun e => e.folderId = folderId) = []
  · rw [hes]
    exact Nat.zero_le _
  · obtain ⟨e, he, heq⟩ := maxSeq_mem hes
    rw [← heq]
    exact hd.le e (List.mem_filter.mp he).1

/-! ### A page is complete -/

/-- **No gap in a page**: it has every servable op up to its last one, and when it is empty
there is none. -/
theorem deltaRows_complete (hd : s.opSeqs.Nodup) (he : e ∈ s.servable folderId scopeNodeId since)
    (hlast : ∀ l, (s.deltaRows folderId scopeNodeId since).getLast? = some l →
      e.serverSeq ≤ l.serverSeq) : e ∈ s.deltaRows folderId scopeNodeId since := by
  have hmem := (List.mem_insertionSort bySeq).mpr he
  have hsorted := servable_increasing folderId scopeNodeId since hd
  rw [← List.take_append_drop pageLimit (List.insertionSort bySeq _)] at hmem hsorted
  rcases List.mem_append.mp hmem with h | h
  · exact h
  · -- an op beyond the page is above every op of the page, and the page is not empty
    obtain ⟨-, -, hlt⟩ := List.pairwise_append.mp hsorted
    cases hl : (s.deltaRows folderId scopeNodeId since).getLast? with
    | none =>
      have hnil : (List.insertionSort bySeq (s.servable folderId scopeNodeId since)).take pageLimit = [] :=
        List.getLast?_eq_none_iff.mp hl
      have hempty : List.insertionSort bySeq (s.servable folderId scopeNodeId since) = [] := by
        rcases List.take_eq_nil_iff.mp hnil with h0 | h0
        · simp [pageLimit] at h0
        · exact h0
      rw [hempty] at h
      simp at h
    | some l =>
      have hle := hlast l hl
      have hgt : l.serverSeq < e.serverSeq := hlt l (List.mem_of_getLast? hl) e h
      omega

end Valv.Server
