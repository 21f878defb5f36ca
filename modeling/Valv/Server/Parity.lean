import Valv.Server.Refs
import Valv.Server.Sqlite

/-!
# The index of chunks

Who may download a chunk is looked up in `version_chunks`.  The table repeats what the manifests of the
versions say: every new version writes its rows, the cascade removes them, and
`core/src/db/version-chunks-backfill.ts` adds those that are missing.

* `canDownloadChunkScopedForParity`, `canDownloadChunkUnscopedForParity`: by the index, and by all manifests.
* `backfillVersionChunks`: the backfill, page after page.
* `Indexed`: the rows of the index are those of the manifests.
* `chunk_auth_parity`: the two answers are the same.
-/

namespace Valv.Server

open Valv.Conc Valv.Table

/-! ### The two answers -/

/-- `canDownloadChunkScopedForParity`. -/
def canDownloadChunkScopedForParity (principal : Principal) (oid : String) : DbProc Bool := do
  let nodeIds ← scopedChunkCandidateNodeIds oid
  canDownloadFromCandidateNodes principal nodeIds

/-- `unscopedChunkCandidateNodeIds`. -/
def unscopedChunkCandidateNodeIds (oid : String) : DbProc (List String) :=
  .read fun s => s.nodes.flatMap fun r =>
    (s.versions.filter fun v => v.nodeId = r.nodeId && v.manifest.any fun c => c.chunkHash = oid).map fun _ => r.nodeId

/-- `canDownloadChunkUnscopedForParity`. -/
def canDownloadChunkUnscopedForParity (principal : Principal) (oid : String) : DbProc Bool := do
  let nodeIds ← unscopedChunkCandidateNodeIds oid
  canDownloadFromCandidateNodes principal nodeIds

theorem canDownloadChunk_eq : canDownloadChunk = canDownloadChunkScopedForParity := rfl

/-! ### The backfill -/

structure VersionChunksBackfillResult where
  versionsScanned : ℕ := 0
  rowsAttempted : ℕ := 0
  deriving DecidableEq, Repr

/-- The rows of a version. -/
def VersionRow.chunkRows (v : VersionRow) : List VersionChunkRow :=
  ((v.manifest.map ChunkRef.chunkHash).filter (· ≠ "")).eraseDups.map fun chunkHash =>
    { versionId := v.versionId, nodeId := v.nodeId, chunkHash }

/-- The row's primary key is taken. -/
def Db.keyTaken (s : Db) (row : VersionChunkRow) : Bool :=
  s.versionChunks.any fun r => r.versionId = row.versionId && r.chunkHash = row.chunkHash

/-- `INSERT INTO version_chunks … ON CONFLICT DO NOTHING`, one statement with three parameters for each row. -/
def insertMissingChunkRows (rows : List VersionChunkRow) : DbProc Unit :=
  .stmt (fun s =>
      if s.maxParams < 3 * rows.length then some .tooManyParams
      else if rows.any fun row => !s.keyTaken row && ((s.version row.versionId).isNone || (s.node row.nodeId).isNone ||
        (s.chunk row.chunkHash).isNone) then some (.constraint .foreignKey) else none)
    fun _ s => rows.foldl (fun s row =>
      if s.keyTaken row then s else { s with versionChunks := s.versionChunks ++ [row] }) s

/-- `selectVersionPage`: a last id that is empty is none. -/
def selectVersionPage (pageSize : ℕ) (lastSeenVersionId : Option String) (s : Db) : List VersionRow :=
  let rows : List VersionRow := match truthy lastSeenVersionId with
    | some last => s.versions.filter fun v => last < v.versionId
    | none => s.versions
  (rows.insertionSort fun a b => a.versionId ≤ b.versionId).take pageSize

/-- The insert of a page, if it has rows. -/
def insertPage (values : List VersionChunkRow) : DbProc Unit :=
  if values = [] then pure () else insertMissingChunkRows values

/-- The loop of `backfillVersionChunks`; the first argument bounds it, and there is no result when it does not
end in time. -/
def backfillPages (pageSize : ℕ) :
    ℕ → Option String → VersionChunksBackfillResult → DbProc (Option VersionChunksBackfillResult)
  | 0, _, _ => pure none
  | left + 1, lastSeenVersionId, result => do
    let versions ← (.read (selectVersionPage pageSize lastSeenVersionId) : DbProc _)
    match versions.getLast? with
    | none => pure (some result)
    | some last => do
      let values := versions.flatMap VersionRow.chunkRows
      insertPage values
      backfillPages pageSize left (some last.versionId)
        ⟨result.versionsScanned + versions.length, result.rowsAttempted + values.length⟩

/-- `backfillVersionChunks`. -/
def backfillVersionChunks (pageSize fuel : ℕ) : DbProc (Option VersionChunksBackfillResult) :=
  backfillPages pageSize fuel none {}

/-! ### The rows of the index -/

/-- The row repeats what the version's manifest says. -/
def VersionChunkRow.Repeats (r : VersionChunkRow) (v : VersionRow) : Prop :=
  r.versionId = v.versionId ∧ r.nodeId = v.nodeId ∧ r.chunkHash ∈ chunkHashes v.manifest

/-- The index has a row for each chunk of each version, and no other; each version has its node. -/
structure Indexed (s : Db) : Prop where
  rows : ∀ r, r ∈ s.versionChunks ↔ ∃ v ∈ s.versions, r.Repeats v
  keys : (s.versions.map VersionRow.versionId).Nodup
  owned : ∀ v ∈ s.versions, v.nodeId ∈ s.nodes.map NodeRow.nodeId

section Indexed

variable {be : Backend} {s s' : Db} {principal : Principal} {oid : String}

theorem Indexed.start (devices : List DeviceRow) : Indexed { devices } where
  rows r := by simp
  keys := List.nodup_nil
  owned v hv := absurd hv List.not_mem_nil

/-- What leaves versions and index, and no fewer nodes. -/
theorem Indexed.same (h : Indexed s) (hsame : SameVersions s s')
    (hnodes : s.nodes.map NodeRow.nodeId ⊆ s'.nodes.map NodeRow.nodeId) : Indexed s' where
  rows r := by
    rw [hsame.versions, hsame.versionChunks]
    exact h.rows r
  keys := by
    rw [hsame.versions]
    exact h.keys
  owned v hv := by
    rw [hsame.versions] at hv
    exact hnodes (h.owned v hv)

theorem SameContent.nodeIds (h : SameContent s s') : s.nodes.map NodeRow.nodeId ⊆ s'.nodes.map NodeRow.nodeId := by
  obtain ⟨ids, hids⟩ := h.current
  have hfirst := congrArg (List.map Prod.fst) hids
  simp only [List.map_map, List.map_append] at hfirst
  intro n hn
  have hmem : n ∈ s'.nodes.map (Prod.fst ∘ fun r => (r.nodeId, r.currentVersionId)) := by
    rw [hfirst]
    exact List.mem_append_left _ hn
  exact hmem

theorem Indexed.withVersion (h : Indexed s) {row : VersionRow} (hrow : s.Stores row) : Indexed (s.withVersion row) where
  rows r := by
    have hnew : r ∈ (chunkHashes row.manifest).map (fun chunkHash => (⟨row.versionId, row.nodeId, chunkHash⟩ : VersionChunkRow)) ↔
        r.Repeats row := by
      rw [List.mem_map]
      constructor
      · intro hmem
        obtain ⟨hash, hhash, rfl⟩ := hmem
        exact ⟨rfl, rfl, hhash⟩
      · intro hrepeats
        obtain ⟨hid, hnode, hhash⟩ := hrepeats
        exact ⟨r.chunkHash, hhash, by rw [← hid, ← hnode]⟩
    show r ∈ s.versionChunks ++ _ ↔ ∃ v ∈ s.versions ++ [row], r.Repeats v
    rw [List.mem_append, h.rows r, hnew]
    simp only [List.mem_append, List.mem_singleton, or_and_right, exists_or, exists_eq_left]
  keys := by
    refine nodup_append h.keys fun v hv he => ?_
    have hfound := lookup_of_mem h.keys hv
    rw [he] at hfound
    cases hfound.symm.trans hrow.fresh
  owned v hv := by
    have hids : (s.withVersion row).nodes.map NodeRow.nodeId = s.nodes.map NodeRow.nodeId := by
      rw [Db.withVersion]
      dsimp only
      split
      · rfl
      · have hid : ∀ r : NodeRow, r.nodeId = row.nodeId →
            ({ r with currentVersionId := some row.versionId } : NodeRow).nodeId = row.nodeId := fun _ hr => hr
        exact map_key_update hid
    rw [hids]
    rcases List.mem_append.mp hv with hold | hnew
    · exact h.owned v hold
    · rw [List.mem_singleton.mp hnew]
      obtain ⟨r, hr⟩ := Option.isSome_iff_exists.mp hrow.node
      exact List.mem_map.mpr ⟨r, mem_of_lookup hr, lookup_key hr⟩

/-- A purge takes the rows of a version with it. -/
theorem Indexed.dropNodes (h : Indexed s) (ids : List String) : Indexed (s.dropNodes ids) where
  rows r := by
    rw [mem_dropNodes_versionChunks, h.rows r]
    constructor
    · intro hr
      obtain ⟨⟨v, hv, hrepeats⟩, hstays⟩ := hr
      exact ⟨v, mem_dropNodes_versions.mpr ⟨hv, hstays v hv hrepeats.1.symm⟩, hrepeats⟩
    · intro hr
      obtain ⟨v, hv, hrepeats⟩ := hr
      obtain ⟨hold, hnode⟩ := mem_dropNodes_versions.mp hv
      refine ⟨⟨v, hold, hrepeats⟩, fun v' hv' hid => ?_⟩
      rw [List.inj_on_of_nodup_map h.keys hv' hold (hid.trans hrepeats.1)]
      exact hnode
  keys := h.keys.sublist (List.filter_sublist.map _)
  owned v hv := by
    obtain ⟨hold, hnode⟩ := mem_dropNodes_versions.mp hv
    obtain ⟨r, hr, hid⟩ := List.mem_map.mp (h.owned v hold)
    rw [← hid] at hnode
    exact List.mem_map.mpr ⟨r, mem_dropNodes_nodes.mpr ⟨hr, hnode⟩, hid⟩

/-- The rows that a backfill adds are there. -/
theorem Indexed.keyTaken (h : Indexed s) {v : VersionRow} (hv : v ∈ s.versions) {row : VersionChunkRow}
    (hrow : row ∈ v.chunkRows) : s.keyTaken row = true := by
  obtain ⟨hash, hhash, rfl⟩ := List.mem_map.mp hrow
  have hmanifest : hash ∈ chunkHashes v.manifest := by
    simp only [List.mem_eraseDups, List.mem_filter] at hhash
    rw [chunkHashes, List.mem_eraseDups]
    exact hhash.1
  have hthere := (h.rows ⟨v.versionId, v.nodeId, hash⟩).mpr ⟨v, hv, rfl, rfl, hmanifest⟩
  rw [Db.keyTaken, List.any_eq_true]
  exact ⟨_, hthere, by simp⟩

/-- An insert of rows that are there leaves the database as it is, also when the statement is rejected. -/
theorem runBody_insertMissingChunkRows {rows : List VersionChunkRow} (h : ∀ row ∈ rows, s.keyTaken row = true) :
    ((insertMissingChunkRows rows).runBody s).1 = s := by
  have hsame : rows.foldl (fun s row => if s.keyTaken row then s
      else { s with versionChunks := s.versionChunks ++ [row] }) s = s := by
    induction rows with
    | nil => rfl
    | cons row rows ih =>
      rw [List.foldl_cons, if_pos (h row List.mem_cons_self)]
      exact ih fun r hr => h r (List.mem_cons_of_mem _ hr)
  rw [insertMissingChunkRows, Proc.runBody_stmt]
  split_ifs
  · rfl
  · rfl
  · exact hsame

theorem runBody_insertPage {rows : List VersionChunkRow} (h : ∀ row ∈ rows, s.keyTaken row = true) :
    ((insertPage rows).runBody s).1 = s := by
  rw [insertPage]
  split
  · rfl
  · exact runBody_insertMissingChunkRows h

theorem mem_selectVersionPage {pageSize : ℕ} {last : Option String} {v : VersionRow}
    (h : v ∈ selectVersionPage pageSize last s) : v ∈ s.versions := by
  rw [selectVersionPage] at h
  have hrows := (List.mem_insertionSort _).mp (List.mem_of_mem_take h)
  split at hrows
  · exact (List.mem_filter.mp hrows).1
  · exact hrows

/-- **A backfill** finds every row there. -/
theorem Indexed.backfillPages (h : Indexed s) (pageSize fuel : ℕ) (last : Option String)
    (result : VersionChunksBackfillResult) : ((backfillPages pageSize fuel last result).runBody s).1 = s := by
  induction fuel generalizing last result with
  | zero => rfl
  | succ fuel ih =>
    rw [Server.backfillPages, Proc.runBody_bind_of_ok (Proc.runBody_read _ s)]
    cases hlast : (selectVersionPage pageSize last s).getLast? with
    | none => rfl
    | some v =>
      dsimp only
      have htaken : ∀ row ∈ (selectVersionPage pageSize last s).flatMap VersionRow.chunkRows, s.keyTaken row = true := by
        intro row hrow
        obtain ⟨v, hv, hmem⟩ := List.mem_flatMap.mp hrow
        exact h.keyTaken (mem_selectVersionPage hv) hmem
      have hpage := runBody_insertPage htaken
      rw [Proc.runBody_bind]
      generalize (insertPage ((selectVersionPage pageSize last s).flatMap VersionRow.chunkRows)).runBody s = run at hpage
      obtain ⟨s', e | a⟩ := run
      · exact hpage
      · obtain rfl : s' = s := hpage
        exact ih _ _

/-- **One answer**: the loop over candidates asks for any, and the candidates are the same. -/
theorem Indexed.parity (h : Indexed s) : (canDownloadChunkScopedForParity principal oid).exec s none =
    (canDownloadChunkUnscopedForParity principal oid).exec s none := by
  have hscoped : (canDownloadChunkScopedForParity principal oid).ReadOnly := canDownloadChunk_readOnly
  have hunscoped : (canDownloadChunkUnscopedForParity principal oid).ReadOnly :=
    (Proc.readOnly_read _).bind canDownloadFromCandidateNodes_readOnly
  rw [Proc.exec_eq_runBody hscoped.unbracketed, Proc.exec_eq_runBody hunscoped.unbracketed, ← canDownloadChunk_eq,
    runBody_canDownloadChunk, canDownloadChunkUnscopedForParity, unscopedChunkCandidateNodeIds,
    Proc.runBody_bind_of_ok (Proc.runBody_read _ s), runBody_canDownloadFromCandidateNodes]
  have hany : s.downloadable principal oid = (s.nodes.flatMap fun r => (s.versions.filter fun v =>
      v.nodeId = r.nodeId && v.manifest.any fun c => c.chunkHash = oid).map fun _ => r.nodeId).any
        fun n => s.grants n principal .read := by
    have hmanifest : ∀ v : VersionRow, (∃ c ∈ v.manifest, c.chunkHash = oid) ↔ oid ∈ chunkHashes v.manifest := by
      intro v
      rw [chunkHashes, List.mem_eraseDups, List.mem_map]
    rw [Bool.eq_iff_iff, Db.downloadable, List.any_eq_true, List.any_eq_true]
    simp only [List.mem_flatMap, List.mem_map, List.mem_filter, Bool.and_eq_true, decide_eq_true_eq, List.any_eq_true,
      hmanifest]
    constructor
    · intro hrow
      obtain ⟨r, hr, rfl, hgrant⟩ := hrow
      obtain ⟨v, hv, -, hnode, hhash⟩ := (h.rows r).mp hr
      obtain ⟨node, hnodes, hid⟩ := List.mem_map.mp (h.owned v hv)
      exact ⟨r.nodeId, ⟨node, hnodes, v, ⟨hv, hid.symm, hhash⟩, hid.trans hnode.symm⟩, hgrant⟩
    · intro hnode
      obtain ⟨n, ⟨node, -, v, ⟨hv, hown, hhash⟩, rfl⟩, hgrant⟩ := hnode
      refine ⟨⟨v.versionId, v.nodeId, oid⟩, (h.rows _).mpr ⟨v, hv, rfl, rfl, hhash⟩, rfl, ?_⟩
      rw [← hown] at hgrant
      exact hgrant
  rw [hany]

end Indexed

/-! ### Histories -/

/-- What happens to versions and their index. -/
inductive IndexEvent where
  /-- A request, a restore, a batch or a tombstone purge. -/
  | refs (e : RefsEvent)
  | collect (args : GcArgs)
  | truncate (args : GcArgs)
  | backfill (pageSize fuel : ℕ)
  deriving DecidableEq, Repr

def IndexEvent.step (be : Backend) (s : Db) : IndexEvent → Option Db
  | .refs e => e.step be s
  | .collect args => some ((runChunkGcOnce args).exec s none).1
  | .truncate args => some ((runOpLogTruncationOnce args).exec s none).1
  | .backfill pageSize fuel => some ((backfillVersionChunks pageSize fuel).exec s none).1

/-- Versions, index and nodes stay. -/
structure KeepsIndex (s s' : Db) : Prop extends SameVersions s s' where
  nodes : s'.nodes = s.nodes

instance : Std.Refl KeepsIndex := ⟨fun _ => ⟨⟨rfl, rfl⟩, rfl⟩⟩

instance : IsTrans Db KeepsIndex where
  trans _ _ _ h h' := ⟨⟨h'.versions.trans h.versions, h'.versionChunks.trans h.versionChunks⟩, h'.nodes.trans h.nodes⟩

section Histories

variable {be : Backend} {s s' : Db}

theorem Indexed.keeps (h : Indexed s) (hkeeps : KeepsIndex s s') : Indexed s' :=
  h.same hkeeps.toSameVersions (by rw [hkeeps.nodes]; exact List.Subset.refl _)

theorem keepsIndex_handleBatch (call : BatchCall) (s : Db) : KeepsIndex s ((handleBatch call).exec s none).1 := by
  have hadds : AddsChunks s ((handleBatch call).exec s none).1 :=
    (handleBatch_writes call).exec s fun _ hu => absurd hu (Option.not_mem_none _)
  have hsame := hadds.same
  generalize ((handleBatch call).exec s none).1 = s' at hsame
  have hversions := congrArg Db.versions hsame
  have hchunks := congrArg Db.versionChunks hsame
  have hnodes := congrArg Db.nodes hsame
  exact ⟨⟨hversions, hchunks⟩, hnodes⟩

theorem keepsIndex_runChunkGcOnce (args : GcArgs) : (runChunkGcOnce args).Writes KeepsIndex := by
  have hdelete : ∀ hash, (deleteChunkRow hash).Writes KeepsIndex := by
    intro hash
    refine ⟨fun v s => ?_, fun v => ?_⟩
    · dsimp only
      split <;> exact ⟨⟨rfl, rfl⟩, rfl⟩
    · dsimp only
      split
      · split <;> exact True.intro
      · exact True.intro
  have hcollect : ∀ todo result, (collectChunks todo result).Writes KeepsIndex := by
    intro todo
    induction todo with
    | nil => exact fun _ => True.intro
    | cons hash todo ih =>
      intro result
      refine (Proc.Writes.attempt ((hdelete hash).bind fun deleted => ?_) fun error => ?_).bind fun result => ih result
      · exact True.intro
      · exact True.intro
  exact (Proc.Writes.read _).bind fun g => hcollect g.todo g.result

theorem keepsIndex_runOpLogTruncationOnce (args : GcArgs) : (runOpLogTruncationOnce args).Writes KeepsIndex := by
  refine (Proc.Writes.read _).bind fun eligible => ?_
  dsimp only
  split
  · exact True.intro
  · refine Proc.Writes.attempt (Proc.Writes.bind (Proc.Writes.stmt fun _ s => ⟨⟨rfl, rfl⟩, rfl⟩) fun _ => ?_) fun error => ?_
    · exact True.intro
    · exact True.intro

theorem exec_backfillVersionChunks (h : Indexed s) (pageSize fuel : ℕ) :
    ((backfillVersionChunks pageSize fuel).exec s none).1 = s := by
  have hdirect : ∀ fuel last result, (backfillPages pageSize fuel last result).Unbracketed := by
    intro fuel
    induction fuel with
    | zero => exact fun _ _ => True.intro
    | succ fuel ih =>
      intro last result
      refine (Proc.readOnly_read _).unbracketed.bind fun versions => ?_
      cases versions.getLast? with
      | none => exact True.intro
      | some v =>
        have hpage : (insertPage (versions.flatMap VersionRow.chunkRows)).Unbracketed := by
          rw [insertPage]
          split
          · exact True.intro
          · exact .stmt _ _
        exact hpage.bind fun _ => ih _ _
  rw [backfillVersionChunks, Proc.exec_eq_runBody (hdirect _ _ _)]
  exact h.backfillPages pageSize fuel none {}

/-- **One event.** -/
theorem Indexed.step (h : Indexed s) {e : IndexEvent} (hs : e.step be s = some s') : Indexed s' := by
  have hkeeps : ∀ {α : Type} {p : DbProc α}, p.Writes KeepsIndex → Indexed (p.exec s none).1 :=
    fun hp => h.keeps (hp.exec s fun _ hu => absurd hu (Option.not_mem_none _))
  cases e with
  | refs e =>
    rcases RefsEvent.step_cases hs with ⟨haccounted, -⟩ | ⟨call, -, rfl⟩ | ⟨args, -, rfl⟩
    · cases haccounted with
      | same hsame => exact h.same hsame.toSameVersions hsame.nodeIds
      | stored row hrow hsame => exact (h.withVersion hrow).same hsame.toSameVersions hsame.nodeIds
    · exact h.keeps (keepsIndex_handleBatch call s)
    · exact h.dropNodes _
  | collect args =>
    cases hs
    exact hkeeps (keepsIndex_runChunkGcOnce args)
  | truncate args =>
    cases hs
    exact hkeeps (keepsIndex_runOpLogTruncationOnce args)
  | backfill pageSize fuel =>
    cases hs
    rw [exec_backfillVersionChunks h]
    exact h

end Histories

/-- **The index answers as the manifests do**, in every state that requests, restores, batches, purges, passes of the
collector, truncations and backfills lead to. -/
theorem chunk_auth_parity (be : Backend) (devices : List DeviceRow) (es : List IndexEvent) (principal : Principal)
    (oid : String) : let s := Run.run (IndexEvent.step be) { devices } es
    (canDownloadChunkScopedForParity principal oid).exec s none =
      (canDownloadChunkUnscopedForParity principal oid).exec s none := by
  have hstep : ∀ s e s', Indexed s → True → IndexEvent.step be s e = some s' → Indexed s' :=
    fun _ _ _ h _ hs => h.step hs
  have hall : Run.Along (IndexEvent.step be) (fun _ _ => True) { devices } es :=
    Run.Along.of_forall (fun _ _ => True.intro) es _
  exact (Run.run_invariant hstep (Indexed.start devices) hall).parity

end Valv.Server
