import Valv.Server.Gc
import Valv.Server.Issue

/-!
# Reference counts

The refcount of a chunk says how many current versions and conflict copies refer to it.  A new version
counts its own chunks and releases those of the version that it replaces; a purge removes both and counts
nothing.

* `Db.holders`: what a refcount stands for.
* `Db.withVersion`, `runBody_insertVersion_stored`: what a stored version leaves, its counts included.
* `Accounted`: a call changes none of this, or stores one version.
* `RefsInv`: the counts are right, along with what that rests on.
* `refcounts_exact`: they stay right as long as no purge removes a counted version.
* `refcount_leaks`: a purged file goes on being counted.
-/

namespace Valv.Server

open Valv.Conc Valv.Table

/-! ### What is counted -/

namespace Db

/-- The chunks of the version that a row names as its current one. -/
def hashesOf (s : Db) (versionId : Option String) : List String :=
  chunkHashes ((versionId.bind s.version).elim [] VersionRow.manifest)

/-- The nodes whose current version has the chunk, and the conflict copies that have it. -/
def holders (s : Db) (hash : String) : ℕ :=
  s.nodes.countP (fun r => hash ∈ s.hashesOf r.currentVersionId) +
    s.versions.countP fun v => v.isConflictCopy && hash ∈ chunkHashes v.manifest

end Db

/-- **The refcounts are right.**  They never rest on the clamp at 0, and a chunk that no version refers to
can be collected. -/
structure Db.RefsExact (s : Db) : Prop where
  counts : ∀ c ∈ s.chunks, c.refcount = s.holders c.chunkHash
  unclamped : ∀ r ∈ s.nodes, ∀ hash ∈ s.hashesOf r.currentVersionId, ∃ c, s.chunk hash = some c ∧ 0 < c.refcount
  collectable : ∀ c ∈ s.chunks, (∀ v ∈ s.versions, c.chunkHash ∉ chunkHashes v.manifest) →
    c.refcount = 0 ∧ ((deleteChunkRow c.chunkHash).runBody s).2 = .ok true

/-! ### One version -/

/-- `UPDATE chunks SET refcount = … WHERE chunk_hash IN (…)`, on the rows. -/
def recount (hashes : List String) (f : ℕ → ℕ) (cs : List ChunkRow) : List ChunkRow :=
  cs.map fun c => if c.chunkHash ∈ hashes then { c with refcount := f c.refcount } else c

/-- The chunks that a version releases: those of the one it replaces. -/
def Db.released (s : Db) (row : VersionRow) : List String :=
  if row.isConflictCopy then [] else s.hashesOf ((s.node row.nodeId).bind NodeRow.currentVersionId)

/-- The database with a version more. -/
def Db.withVersion (s : Db) (row : VersionRow) : Db :=
  { s with
    nodes := if row.isConflictCopy then s.nodes else
      update NodeRow.nodeId row.nodeId (fun r => { r with currentVersionId := some row.versionId }) s.nodes
    versions := s.versions ++ [row]
    versionChunks := s.versionChunks ++ (chunkHashes row.manifest).map fun chunkHash =>
      { versionId := row.versionId, nodeId := row.nodeId, chunkHash }
    chunks := recount (s.released row) (· - 1) (recount (chunkHashes row.manifest) (· + 1) s.chunks) }

/-- The version can be stored. -/
structure Db.Stores (s : Db) (row : VersionRow) : Prop where
  fresh : s.version row.versionId = none
  node : (s.node row.nodeId).isSome
  present : ∀ hash ∈ chunkHashes row.manifest, (s.chunk hash).isSome

section Version

variable {be : Backend} {s s' : Db}

theorem recount_nil (f : ℕ → ℕ) (cs : List ChunkRow) : recount [] f cs = cs := by simp [recount]

theorem runBody_releaseChunks_counts {hashes : List String} {u : Unit}
    (h : (releaseChunks hashes).runBody s = (s', .ok u)) :
    s' = { s with chunks := recount hashes (· - 1) s.chunks } := by
  rw [releaseChunks] at h
  split at h
  · next hnil =>
    cases h
    rw [hnil, recount_nil]
  · exact (Proc.runBody_stmt_ok h).2

theorem runBody_referenceChunks_ok {versionId nodeId : String} {hashes : List String} {u : Unit}
    (h : (referenceChunks versionId nodeId hashes).runBody s = (s', .ok u)) :
    (∀ hash ∈ hashes, (s.chunk hash).isSome) ∧ s' = { s with
      versionChunks := s.versionChunks ++ hashes.map fun chunkHash => { versionId, nodeId, chunkHash }
      chunks := recount hashes (· + 1) s.chunks } := by
  rw [referenceChunks] at h
  split at h
  · next hnil =>
    subst hnil
    cases h
    refine ⟨fun hash hmem => ?_, by simp [recount_nil]⟩
    cases hmem
  · obtain ⟨s₁, _, hinsert, hcount⟩ := Proc.runBody_bind_ok h
    obtain ⟨hcheck, rfl⟩ := Proc.runBody_stmt_ok hinsert
    obtain ⟨-, rfl⟩ := Proc.runBody_stmt_ok hcount
    refine ⟨fun hash hmem => ?_, rfl⟩
    -- otherwise the foreign key of its row had been violated
    by_contra habsent
    have hnone := Option.not_isSome_iff_eq_none.mp habsent
    split_ifs at hcheck with hlimit hkey hforeign
    refine hforeign (List.any_eq_true.mpr ⟨_, List.mem_map_of_mem hmem, ?_⟩)
    simp [hnone]

/-- **A stored version**, with the counts of its chunks and of those it releases. -/
theorem runBody_insertVersion_stored (row : VersionRow) {u : Unit}
    (h : (insertVersion be row.nodeId row.authorDeviceId row.versionId row.contentHash row.sizeBytes
      row.manifest row.isConflictCopy).runBody s = (s', .ok u)) : s.Stores row ∧ s' = s.withVersion row := by
  rw [insertVersion] at h
  have hprevious : (previousManifest row.nodeId row.isConflictCopy).ReadOnly := by
    rw [previousManifest]
    split
    · exact True.intro
    · exact Proc.readOnly_read _
  obtain ⟨previous, hprev, h⟩ := hprevious.runBody_bind_ok h
  rw [Proc.runBody_bind_of_ok (runBody_lockKey _)] at h
  obtain ⟨s₁, _, hrow, h⟩ := Proc.runBody_bind_ok h
  have hinsert : (insertVersionRow row).runBody s = (s₁, .ok _) := hrow
  obtain ⟨hcheck, rfl⟩ := Proc.runBody_stmt_ok hinsert
  obtain ⟨s₂, _, href, h⟩ := Proc.runBody_bind_ok h
  obtain ⟨hpresent, rfl⟩ := runBody_referenceChunks_ok href
  have hstores : s.Stores row := by
    split_ifs at hcheck with hkey hnode hdevice
    refine ⟨Option.not_isSome_iff_eq_none.mp hkey, ?_, hpresent⟩
    exact Option.isSome_iff_ne_none.mpr fun hnone => hnode (Option.isNone_iff_eq_none.mpr hnone)
  refine ⟨hstores, ?_⟩
  rw [replaceCurrent] at h
  cases hconf : row.isConflictCopy with
  | true =>
    rw [hconf, if_pos rfl] at h
    cases h
    simp [Db.withVersion, Db.released, hconf, recount_nil]
  | false =>
    rw [hconf, if_neg (by simp)] at h
    obtain ⟨s₃, _, hrelease, hcurrent⟩ := Proc.runBody_bind_ok h
    obtain rfl := runBody_releaseChunks_counts hrelease
    obtain ⟨-, rfl⟩ := Proc.runBody_stmt_ok hcurrent
    rw [hconf] at hprev
    cases hprev
    simp [Db.withVersion, Db.released, hconf, Db.hashesOf]

end Version

/-! ### One call -/

/-- What a call leaves of the version tables and of the rows' current versions: the same, but for new
nodes without a version. -/
structure SameContent (s s' : Db) : Prop extends SameVersions s s' where
  chunks : s'.chunks = s.chunks
  current : ∃ ids : List String, s'.nodes.map (fun r => (r.nodeId, r.currentVersionId)) =
    s.nodes.map (fun r => (r.nodeId, r.currentVersionId)) ++ ids.map fun n => (n, none)

theorem SameContent.of_same {s s' : Db} (hv : SameVersions s s') (hc : s'.chunks = s.chunks)
    (hn : s'.nodes = s.nodes) : SameContent s s' :=
  ⟨hv, hc, [], by rw [hn, List.map_nil, List.append_nil]⟩

instance : Std.Refl SameContent := ⟨fun s => .of_same (SameVersions.refl s) rfl rfl⟩

instance : IsTrans Db SameContent where
  trans s s' s'' h h' := by
    obtain ⟨ids, hids⟩ := h.current
    obtain ⟨ids', hids'⟩ := h'.current
    refine ⟨IsTrans.trans _ _ _ h.toSameVersions h'.toSameVersions, h'.chunks.trans h.chunks, ids ++ ids', ?_⟩
    rw [hids', hids, List.map_append, List.append_assoc]

/-- **What a call does** to the versions and the counts: nothing, or it stores one version. -/
inductive Accounted (s s' : Db) : Prop
  | same : SameContent s s' → Accounted s s'
  | stored (row : VersionRow) : s.Stores row → SameContent (s.withVersion row) s' → Accounted s s'

section Call

variable {be : Backend} {call : SubmitCall} {deviceId n : String} {s s' : Db} {α : Type}

theorem updateNodes_sameContent {f : NodeRow → NodeRow} (hid : ∀ r, (f r).nodeId = r.nodeId)
    (hcurrent : ∀ r, (f r).currentVersionId = r.currentVersionId) : (updateNodes n f).Writes SameContent := by
  refine Proc.Writes.stmt fun _ s => ⟨⟨rfl, rfl⟩, rfl, [], ?_⟩
  show (update NodeRow.nodeId n f s.nodes).map _ = _
  rw [update, List.map_map, List.map_nil, List.append_nil]
  refine List.map_congr_left fun r _ => ?_
  simp only [Function.comp]
  split <;> simp [hid, hcurrent]

theorem insertNode_sameContent {r : NodeRow} (hr : r.currentVersionId = none) :
    (insertNode r).Writes SameContent := by
  refine Proc.Writes.stmt fun _ s => ⟨⟨rfl, rfl⟩, rfl, [r.nodeId], ?_⟩
  show (s.nodes ++ [r]).map _ = _
  simp [hr]

theorem insertOpLog_sameContent (payload : OpPayload) (b : Option ℕ) :
    (insertOpLog be call n deviceId payload b).Writes SameContent :=
  insertOpLog_writes_of (fun _ => .of_same ⟨rfl, rfl⟩ rfl rfl) fun _ _ _ _ => .of_same ⟨rfl, rfl⟩ rfl rfl

theorem setServerSeq_sameContent (folderId : String) : (setServerSeq folderId n).Writes SameContent :=
  setServerSeq_writes_of folderId fun _ => updateNodes_sameContent (fun _ => rfl) fun _ => rfl

theorem applyMetadataMutation_sameContent (now : ℕ) (m : Mutation) :
    (applyMetadataMutation be n now m).Writes SameContent := by
  cases m with
  | newVersion versionId contentHash sizeBytes manifest => exact True.intro
  | rename newName => exact updateNamed_writes (updateNodes_sameContent (fun _ => rfl) fun _ => rfl)
  | move newParentId => exact updateNamed_writes (updateNodes_sameContent (fun _ => rfl) fun _ => rfl)
  | delete => exact updateNamed_writes (updateNodes_sameContent (fun _ => rfl) fun _ => rfl)

theorem createBody_sameContent (parentId name : String) (type : NodeType) :
    (createBody be call deviceId n parentId name type).Writes SameContent := by
  have hinsert : (insertNode (call.createdRow n parentId name type)).Writes SameContent :=
    insertNode_sameContent rfl
  exact (lockKey_writes _).bind fun _ => (lockKey_writes _).bind fun _ => hinsert.bind fun _ =>
    (insertOpLog_sameContent _ _).bind fun _ => (setServerSeq_sameContent _).bind fun _ => True.intro

/-- A rename, a move and a delete only go into the log. -/
theorem insertVersionAndOp_sameContent (b : ℕ) (m : Mutation) (isConflictCopy : Bool) :
    (insertVersionAndOp be call n deviceId b m isConflictCopy).Writes SameContent ∨
      ∃ versionId contentHash sizeBytes manifest, m = .newVersion versionId contentHash sizeBytes manifest := by
  have hlog : ∀ payload, (insertOpLog be call n deviceId payload (some b) >>= fun _ =>
      (pure "" : DbProc String)).Writes SameContent := fun payload =>
    (insertOpLog_sameContent payload _).bind fun _ => True.intro
  cases m with
  | newVersion versionId contentHash sizeBytes manifest => exact .inr ⟨_, _, _, _, rfl⟩
  | rename newName => exact .inl (hlog _)
  | move newParentId => exact .inl (hlog _)
  | delete => exact .inl (hlog _)

/-- The end of every callback that stores a version. -/
theorem accounted_answer {b : ℕ} {versionId contentHash : String} {sizeBytes : ℕ} {manifest : List ChunkRef}
    {isConflictCopy : Bool} (answer : String → ℕ → SubmitOpResponse) {a : SubmitOpResponse} (h : (do
      let versionId ← insertVersionAndOp be call n deviceId b
        (.newVersion versionId contentHash sizeBytes manifest) isConflictCopy
      let serverSeq ← setServerSeq call.folderId n
      pure (answer versionId serverSeq) : DbProc SubmitOpResponse).runBody s = (s', .ok a)) : Accounted s s' := by
  obtain ⟨s₁, stored, hop, hend⟩ := Proc.runBody_bind_ok h
  obtain ⟨s₂, _, hversion, hlog⟩ := Proc.runBody_bind_ok hop
  let row := call.versionRow deviceId n versionId contentHash sizeBytes manifest isConflictCopy
  have hrow : (insertVersion be row.nodeId row.authorDeviceId row.versionId row.contentHash row.sizeBytes
      row.manifest row.isConflictCopy).runBody s = (s₂, .ok _) := hversion
  obtain ⟨hstores, rfl⟩ := runBody_insertVersion_stored row hrow
  obtain ⟨s₃, _, hinsert, hdone⟩ := Proc.runBody_bind_ok hlog
  cases hdone
  obtain ⟨s₄, serverSeq, hset, hdone⟩ := Proc.runBody_bind_ok hend
  cases hdone
  have hlogged := (insertOpLog_sameContent _ _).of_runBody hinsert
  have hbumped := (setServerSeq_sameContent _).of_runBody hset
  exact .stored row hstores (IsTrans.trans _ _ _ hlogged hbumped)

theorem accounted_mutateBody {b : ℕ} {m : Mutation} {a : SubmitOpResponse}
    (h : (mutateBody be call deviceId n b m).runBody s = (s', .ok a)) : Accounted s s' := by
  rw [mutateBody, Proc.runBody_bind_of_ok (runBody_lockKey _), loadNode,
    Proc.runBody_bind_of_ok (Proc.runBody_read _ s)] at h
  cases hr : s.node n with
  | none =>
    rw [hr] at h
    cases h
  | some r =>
    rw [hr] at h
    dsimp only at h
    split at h
    · rw [applyOp] at h
      obtain ⟨_, -, h⟩ := (checkCollision_readOnly call.folderId n m).runBody_bind_ok h
      obtain ⟨_, -, h⟩ := (previousParentId_readOnly n m).runBody_bind_ok h
      have hcases : (insertVersionAndOp be call n deviceId b m false).Writes SameContent ∨ _ :=
        insertVersionAndOp_sameContent b m false
      rcases hcases with hinsert | ⟨versionId, contentHash, sizeBytes, manifest, rfl⟩
      · obtain ⟨s₁, _, happly, h⟩ := Proc.runBody_bind_ok h
        obtain ⟨s₂, _, hop, h⟩ := Proc.runBody_bind_ok h
        obtain ⟨s₃, serverSeq, hset, hdone⟩ := Proc.runBody_bind_ok h
        cases hdone
        have hmutated := (applyMetadataMutation_sameContent call.now m).of_runBody happly
        have hlogged := hinsert.of_runBody hop
        have hbumped := (setServerSeq_sameContent call.folderId).of_runBody hset
        exact .same (IsTrans.trans _ _ _ hmutated (IsTrans.trans _ _ _ hlogged hbumped))
      · exact accounted_answer (fun _ serverSeq => .applied serverSeq n) h
    · cases m with
      | newVersion versionId contentHash sizeBytes manifest =>
        exact accounted_answer (fun versionId serverSeq => .conflictCopy serverSeq n versionId) h
      | rename newName =>
        cases h
        exact .same (refl s)
      | move newParentId =>
        cases h
        exact .same (refl s)
      | delete =>
        cases h
        exact .same (refl s)

/-- **A call that succeeds** changes neither versions nor counts, or stores one version. -/
theorem serve_accounted {a : SubmitOpResponse} (h : serve be call s = (s', .ok a)) : Accounted s s' := by
  rw [serve, submitOp] at h
  cases hp : call.principal with
  | user userId =>
    rw [hp] at h
    cases h
  | device deviceId =>
    rw [hp] at h
    cases hop : call.op with
    | create n parentId name type =>
      rw [hop] at h
      obtain ⟨_, -, h⟩ := (requireWrite_readOnly parentId (.device deviceId)).exec_bind_ok h
      have htx : SameContent s
          ((inTransaction be n (createBody be call deviceId n parentId name type)).exec s none).1 :=
        state_inTransaction (callback_createBody be call deviceId n parentId name type)
          ((createBody_sameContent parentId name type).runBody s) fun k => .of_same ⟨rfl, rfl⟩ rfl rfl
      rcases exec_createNode be call deviceId n parentId name type s with
        ⟨s₁, a₁, hrun, hexec⟩ | ⟨s₁, e, r, hrun, hexec, -⟩
      · rw [hrun] at htx
        cases h.symm.trans hexec
        exact .same htx
      · rw [hrun] at htx
        cases h.symm.trans hexec
        exact .same htx
    | mutate n b m =>
      rw [hop] at h
      obtain ⟨_, -, h⟩ := (requireWrite_readOnly n (.device deviceId)).exec_bind_ok h
      obtain ⟨_, -, h⟩ := (checkMoveTarget_readOnly call.folderId m).exec_bind_ok h
      rcases exec_inTransaction (n := n) (callback_mutateBody be call deviceId n b m) s with
        ⟨s₁, a₁, hrun, hexec⟩ | ⟨s₁, s₂, e, -, hexec, -⟩
      · cases h.symm.trans hexec
        exact accounted_mutateBody hrun
      · cases h.symm.trans hexec

end Call

/-! ### The invariant -/

/-- The counts are right, and what that rests on: the keys; a current version is one of its node; the chunks
of a version have rows, and its references are its own. -/
structure RefsInv (s : Db) : Prop where
  nodeKeys : s.NodeKeys
  versionKeys : (s.versions.map VersionRow.versionId).Nodup
  chunkKeys : (s.chunks.map ChunkRow.chunkHash).Nodup
  current : ∀ r ∈ s.nodes, ∀ v, r.currentVersionId = some v → ∃ row, s.version v = some row ∧ row.nodeId = r.nodeId
  present : ∀ v ∈ s.versions, ∀ hash ∈ chunkHashes v.manifest, ∃ c ∈ s.chunks, c.chunkHash = hash
  refs : ∀ r ∈ s.versionChunks, ∃ v ∈ s.versions, v.versionId = r.versionId ∧ r.chunkHash ∈ chunkHashes v.manifest
  counts : ∀ c ∈ s.chunks, c.refcount = s.holders c.chunkHash

section Invariant

variable {s s' : Db} {hash : String}

theorem mem_hashesOf {versionId : Option String} (h : hash ∈ s.hashesOf versionId) :
    ∃ v, versionId.bind s.version = some v ∧ hash ∈ chunkHashes v.manifest := by
  rw [Db.hashesOf] at h
  cases hv : versionId.bind s.version with
  | none =>
    rw [hv] at h
    cases h
  | some v =>
    rw [hv] at h
    exact ⟨v, rfl, h⟩

theorem mem_versions_of_bind {versionId : Option String} {v : VersionRow}
    (h : versionId.bind s.version = some v) : v ∈ s.versions := by
  obtain ⟨k, -, hv⟩ := Option.bind_eq_some_iff.mp h
  exact mem_of_lookup hv

/-- A chunk that no version refers to is counted nowhere. -/
theorem holders_eq_zero (h : ∀ v ∈ s.versions, hash ∉ chunkHashes v.manifest) : s.holders hash = 0 := by
  have hnodes : s.nodes.countP (fun r => hash ∈ s.hashesOf r.currentVersionId) = 0 := by
    refine List.countP_eq_zero.mpr fun r _ hr => ?_
    obtain ⟨v, hv, hmem⟩ := mem_hashesOf (of_decide_eq_true hr)
    exact h v (mem_versions_of_bind hv) hmem
  have hcopies : s.versions.countP (fun v => v.isConflictCopy && hash ∈ chunkHashes v.manifest) = 0 := by
    refine List.countP_eq_zero.mpr fun v hv hr => h v hv ?_
    simp only [Bool.and_eq_true, decide_eq_true_eq] at hr
    exact hr.2
  rw [Db.holders, hnodes, hcopies]

/-- **The invariant says what the refcounts should**. -/
theorem RefsInv.exact (h : RefsInv s) : s.RefsExact where
  counts := h.counts
  unclamped r hr hash hmem := by
    obtain ⟨v, hv, hhash⟩ := mem_hashesOf hmem
    obtain ⟨c, hc, rfl⟩ := h.present v (mem_versions_of_bind hv) hash hhash
    have hpos : 0 < s.nodes.countP fun r => c.chunkHash ∈ s.hashesOf r.currentVersionId :=
      List.countP_pos_iff.mpr ⟨r, hr, decide_eq_true hmem⟩
    have hcount := h.counts c hc
    rw [Db.holders] at hcount
    exact ⟨c, lookup_of_mem h.chunkKeys hc, by omega⟩
  collectable c hc hnone := by
    have hzero : c.refcount = 0 := (h.counts c hc).trans (holders_eq_zero hnone)
    refine ⟨hzero, ?_⟩
    have huncounted : s.uncounted c.chunkHash = true :=
      List.any_eq_true.mpr ⟨c, hc, by simp [hzero]⟩
    have hreferenced : s.referenced c.chunkHash = false := by
      refine List.any_eq_false.mpr fun r hr he => ?_
      obtain ⟨v, hv, -, hmem⟩ := h.refs r hr
      exact hnone v hv (of_decide_eq_true he ▸ hmem)
    rw [deleteChunkRow, Proc.runBody]
    simp only [huncounted, hreferenced, if_true]
    rfl

/-- The counts of what is the same are the same. -/
theorem SameContent.holders (h : SameContent s s') (hash : String) : s'.holders hash = s.holders hash := by
  obtain ⟨ids, hids⟩ := h.current
  have hversion : s'.version = s.version := by
    funext v
    rw [Db.version, Db.version, h.versions]
  have hpairs : ∀ rows : List NodeRow, rows.countP (fun r => hash ∈ s.hashesOf r.currentVersionId) =
      (rows.map fun r => (r.nodeId, r.currentVersionId)).countP fun x => hash ∈ s.hashesOf x.2 := by
    intro rows
    rw [List.countP_map]
    rfl
  have hnew : (ids.map fun n => (n, (none : Option String))).countP (fun x => hash ∈ s.hashesOf x.2) = 0 := by
    refine List.countP_eq_zero.mpr fun x hx hmem => ?_
    obtain ⟨n, -, rfl⟩ := List.mem_map.mp hx
    obtain ⟨v, hv, -⟩ := mem_hashesOf (of_decide_eq_true hmem)
    cases hv
  have hhashes : s'.hashesOf = s.hashesOf := by
    funext v
    rw [Db.hashesOf, Db.hashesOf, hversion]
  rw [Db.holders, Db.holders, h.versions, hhashes, hpairs, hids, List.countP_append, hnew, ← hpairs, Nat.add_zero]

theorem RefsInv.same (h : RefsInv s) (hsame : SameContent s s') (hkeys : s'.NodeKeys) : RefsInv s' where
  nodeKeys := hkeys
  versionKeys := by
    rw [hsame.versions]
    exact h.versionKeys
  chunkKeys := by
    rw [hsame.chunks]
    exact h.chunkKeys
  current r hr v hv := by
    obtain ⟨ids, hids⟩ := hsame.current
    have hmem : (r.nodeId, r.currentVersionId) ∈ s'.nodes.map fun r => (r.nodeId, r.currentVersionId) :=
      List.mem_map_of_mem hr
    rw [hids] at hmem
    rcases List.mem_append.mp hmem with hold | hnew
    · obtain ⟨r₀, hr₀, he⟩ := List.mem_map.mp hold
      obtain ⟨hid, hcurrent⟩ := Prod.mk.inj he
      obtain ⟨row, hrow, hnode⟩ := h.current r₀ hr₀ v (hcurrent.trans hv)
      exact ⟨row, by rw [Db.version, hsame.versions]; exact hrow, hnode.trans hid⟩
    · obtain ⟨n, -, he⟩ := List.mem_map.mp hnew
      have hnone := (Prod.mk.inj he).2
      rw [hv] at hnone
      cases hnone
  present := by
    rw [hsame.versions, hsame.chunks]
    exact h.present
  refs := by
    rw [hsame.versions, hsame.versionChunks]
    exact h.refs
  counts c hc := by
    rw [hsame.chunks] at hc
    rw [hsame.holders]
    exact h.counts c hc

/-! ### A version more -/

theorem version_withVersion {row v : VersionRow} {versionId : String} (h : s.version versionId = some v) :
    (s.withVersion row).version versionId = some v := by
  show lookup VersionRow.versionId versionId (s.versions ++ [row]) = some v
  rw [lookup_append]
  exact Option.or_eq_some_iff.mpr (.inl h)

theorem version_withVersion_self {row : VersionRow} (h : s.version row.versionId = none) :
    (s.withVersion row).version row.versionId = some row := by
  show lookup VersionRow.versionId row.versionId (s.versions ++ [row]) = some row
  rw [lookup_append, lookup_cons, if_pos rfl]
  exact Option.or_eq_some_iff.mpr (.inr ⟨h, rfl⟩)

/-- The rows that were there still name the same chunks. -/
theorem RefsInv.hashesOf_withVersion (h : RefsInv s) {row : VersionRow} {r : NodeRow} (hr : r ∈ s.nodes) :
    (s.withVersion row).hashesOf r.currentVersionId = s.hashesOf r.currentVersionId := by
  cases hv : r.currentVersionId with
  | none => rfl
  | some v =>
    obtain ⟨v', hv', -⟩ := h.current r hr v hv
    rw [Db.hashesOf, Db.hashesOf, Option.bind_some, Option.bind_some, hv', version_withVersion hv']

theorem mem_recount {hashes : List String} {f : ℕ → ℕ} {cs : List ChunkRow} {c : ChunkRow}
    (h : c ∈ recount hashes f cs) : ∃ c₀ ∈ cs, c.chunkHash = c₀.chunkHash ∧
      c.refcount = if c₀.chunkHash ∈ hashes then f c₀.refcount else c₀.refcount := by
  obtain ⟨c₀, hc₀, rfl⟩ := List.mem_map.mp h
  refine ⟨c₀, hc₀, ?_⟩
  split <;> exact ⟨rfl, rfl⟩

theorem map_chunkHash_recount (hashes : List String) (f : ℕ → ℕ) (cs : List ChunkRow) :
    (recount hashes f cs).map ChunkRow.chunkHash = cs.map ChunkRow.chunkHash := map_chunkHash_refcounts hashes f cs

/-- **The counts after a version is stored**: what it adds to them, less what it releases. -/
theorem RefsInv.holders_withVersion (h : RefsInv s) {row : VersionRow} (hrow : s.Stores row) (hash : String) :
    (s.withVersion row).holders hash + (if hash ∈ s.released row then 1 else 0) =
      s.holders hash + if hash ∈ chunkHashes row.manifest then 1 else 0 := by
  have hnodes : s.nodes.countP (fun r => hash ∈ (s.withVersion row).hashesOf r.currentVersionId) =
      s.nodes.countP fun r => hash ∈ s.hashesOf r.currentVersionId := by
    refine List.countP_congr fun r hr => ?_
    rw [h.hashesOf_withVersion hr]
  have hcopies : (s.withVersion row).versions.countP (fun v => v.isConflictCopy && hash ∈ chunkHashes v.manifest) =
      s.versions.countP (fun v => v.isConflictCopy && hash ∈ chunkHashes v.manifest) +
        if row.isConflictCopy && hash ∈ chunkHashes row.manifest then 1 else 0 := by
    show (s.versions ++ [row]).countP _ = _
    rw [List.countP_append, List.countP_singleton]
  rw [Db.holders, Db.holders, hcopies]
  cases hconf : row.isConflictCopy with
  | true =>
    have hsame : (s.withVersion row).nodes = s.nodes := by simp [Db.withVersion, hconf]
    rw [hsame, hnodes, Db.released, hconf]
    simp
    omega
  | false =>
    obtain ⟨r, hr⟩ := Option.isSome_iff_exists.mp hrow.node
    have hupdate : (s.withVersion row).nodes = update NodeRow.nodeId row.nodeId
        (fun r => { r with currentVersionId := some row.versionId }) s.nodes := by simp [Db.withVersion, hconf]
    have hcount := countP_update (f := fun r : NodeRow => { r with currentVersionId := some row.versionId })
      h.nodeKeys hr fun r => hash ∈ (s.withVersion row).hashesOf r.currentVersionId
    have hnew : (s.withVersion row).hashesOf (some row.versionId) = chunkHashes row.manifest := by
      rw [Db.hashesOf, Option.bind_some, version_withVersion_self hrow.fresh]
      rfl
    have hreleased : s.released row = s.hashesOf r.currentVersionId := by
      rw [Db.released, hconf, if_neg (by simp), hr, Option.bind_some]
    rw [hnew, h.hashesOf_withVersion (mem_of_lookup hr), ← hreleased, hnodes] at hcount
    simp only [decide_eq_true_eq] at hcount
    rw [hupdate]
    simp only [Bool.false_and, Bool.false_eq_true, if_false]
    omega

variable (s) in
/-- What is released is counted. -/
theorem released_le (row : VersionRow) (hash : String) :
    (if hash ∈ s.released row then 1 else 0) ≤ s.holders hash := by
  split
  · next hmem =>
    rw [Db.released] at hmem
    split at hmem
    · cases hmem
    · obtain ⟨v, hv, -⟩ := mem_hashesOf hmem
      obtain ⟨k, hk, -⟩ := Option.bind_eq_some_iff.mp hv
      obtain ⟨r, hr, hcurrent⟩ := Option.bind_eq_some_iff.mp hk
      rw [hr, Option.bind_some] at hmem
      have hpos : 0 < s.nodes.countP fun r => hash ∈ s.hashesOf r.currentVersionId :=
        List.countP_pos_iff.mpr ⟨r, mem_of_lookup hr, decide_eq_true hmem⟩
      rw [Db.holders]
      omega
  · omega

theorem chunks_withVersion (row : VersionRow) : (s.withVersion row).chunks =
    recount (s.released row) (· - 1) (recount (chunkHashes row.manifest) (· + 1) s.chunks) := rfl

/-- **One version more** keeps the invariant. -/
theorem RefsInv.withVersion (h : RefsInv s) {row : VersionRow} (hrow : s.Stores row) : RefsInv (s.withVersion row) where
  nodeKeys := by
    rw [Db.NodeKeys, Db.withVersion]
    dsimp only
    split
    · exact h.nodeKeys
    · have hid : ∀ r : NodeRow, r.nodeId = row.nodeId →
          ({ r with currentVersionId := some row.versionId } : NodeRow).nodeId = row.nodeId := fun _ hr => hr
      rw [map_key_update hid]
      exact h.nodeKeys
  versionKeys := by
    refine nodup_append h.versionKeys fun v hv he => ?_
    have hfound := lookup_of_mem h.versionKeys hv
    rw [he] at hfound
    cases hfound.symm.trans hrow.fresh
  chunkKeys := by
    rw [chunks_withVersion, map_chunkHash_recount, map_chunkHash_recount]
    exact h.chunkKeys
  current r hr v hv := by
    have hold : r ∈ s.nodes → ∃ row', (s.withVersion row).version v = some row' ∧ row'.nodeId = r.nodeId := by
      intro hr
      obtain ⟨row', hrow', hnode⟩ := h.current r hr v hv
      exact ⟨row', version_withVersion hrow', hnode⟩
    rw [Db.withVersion] at hr
    dsimp only at hr
    split at hr
    · exact hold hr
    · obtain ⟨r₀, hr₀, rfl⟩ := mem_update.mp hr
      split at hv
      · next hid =>
        cases hv
        rw [if_pos hid]
        exact ⟨row, version_withVersion_self hrow.fresh, hid.symm⟩
      · next hid =>
        rw [if_neg hid] at hold ⊢
        exact hold hr₀
  present v hv hash hmem := by
    have hold : ∃ c ∈ s.chunks, c.chunkHash = hash := by
      rcases List.mem_append.mp hv with hv | hv
      · exact h.present v hv hash hmem
      · rw [List.mem_singleton.mp hv] at hmem
        exact chunk_isSome.mp (hrow.present hash hmem)
    have hkeys : hash ∈ (s.withVersion row).chunks.map ChunkRow.chunkHash := by
      rw [chunks_withVersion, map_chunkHash_recount, map_chunkHash_recount]
      exact List.mem_map.mpr hold
    exact List.mem_map.mp hkeys
  refs r hr := by
    rcases List.mem_append.mp hr with hr | hr
    · obtain ⟨v, hv, hid, hmem⟩ := h.refs r hr
      exact ⟨v, List.mem_append_left _ hv, hid, hmem⟩
    · obtain ⟨hash, hmem, rfl⟩ := List.mem_map.mp hr
      exact ⟨row, List.mem_append_right _ (List.mem_singleton.mpr rfl), rfl, hmem⟩
  counts c hc := by
    rw [chunks_withVersion] at hc
    obtain ⟨c₁, hc₁, hkey₁, hcount₁⟩ := mem_recount hc
    obtain ⟨c₀, hc₀, hkey₀, hcount₀⟩ := mem_recount hc₁
    have hbefore := h.counts c₀ hc₀
    have hafter := h.holders_withVersion hrow c₀.chunkHash
    have hreleased := released_le s row c₀.chunkHash
    rw [hkey₁, hkey₀, hcount₁, hkey₀, hcount₀]
    split_ifs at hafter hreleased ⊢ <;> omega

/-! ### Tombstones -/

/-- The tombstones that a purge removes. -/
def GcArgs.purged (args : GcArgs) (s : Db) : List String :=
  match args.mode with
  | .audit => []
  | .delete =>
    let ids := withLimit args.batchSize (s.eligibleNodes args.cutoff)
    if (s.deleteViolation ids).isNone then ids else []

/-- The database without these nodes, their versions and the references of those. -/
def Db.dropNodes (s : Db) (ids : List String) : Db :=
  let gone := (s.versions.filter fun v => v.nodeId ∈ ids).map VersionRow.versionId
  { s with
    nodes := s.nodes.filter fun r => r.nodeId ∉ ids
    versions := s.versions.filter fun v => v.nodeId ∉ ids
    versionChunks := s.versionChunks.filter fun r => r.versionId ∉ gone }

/-- **The purge leaves the counts as they are**, so none of these nodes may be counted: not for its current
version, and not for a conflict copy. -/
structure Db.Uncounted (s : Db) (ids : List String) : Prop where
  current : ∀ r ∈ s.nodes, r.nodeId ∈ ids → s.hashesOf r.currentVersionId = []
  copies : ∀ v ∈ s.versions, v.nodeId ∈ ids → v.isConflictCopy = true → chunkHashes v.manifest = []

instance (s : Db) (ids : List String) : Decidable (s.Uncounted ids) :=
  decidable_of_iff ((∀ r ∈ s.nodes, r.nodeId ∈ ids → s.hashesOf r.currentVersionId = []) ∧
    ∀ v ∈ s.versions, v.nodeId ∈ ids → v.isConflictCopy = true → chunkHashes v.manifest = [])
    ⟨fun h => ⟨h.1, h.2⟩, fun h => ⟨h.current, h.copies⟩⟩

theorem dropNodes_nil (s : Db) : s.dropNodes [] = s := by simp [Db.dropNodes]

theorem mem_dropNodes_versions {s : Db} {ids : List String} {v : VersionRow} :
    v ∈ (s.dropNodes ids).versions ↔ v ∈ s.versions ∧ v.nodeId ∉ ids := by
  simp [Db.dropNodes]

theorem mem_dropNodes_nodes {s : Db} {ids : List String} {r : NodeRow} :
    r ∈ (s.dropNodes ids).nodes ↔ r ∈ s.nodes ∧ r.nodeId ∉ ids := by
  simp [Db.dropNodes]

theorem mem_dropNodes_versionChunks {s : Db} {ids : List String} {r : VersionChunkRow} :
    r ∈ (s.dropNodes ids).versionChunks ↔
    r ∈ s.versionChunks ∧ ∀ v ∈ s.versions, v.versionId = r.versionId → v.nodeId ∉ ids := by
  simp only [Db.dropNodes, List.mem_filter, List.mem_map, decide_eq_true_eq]
  grind

theorem runBody_purgeNodes (ids : List String) (result : GcPassResult) (s : Db) :
    ((purgeNodes ids result).runBody s).1 = if (s.deleteViolation ids).isNone then s.dropNodes ids else s := by
  rw [purgeNodes, Proc.runBody_attempt, Proc.runBody_bind, deleteNodes, Proc.runBody_stmt]
  cases s.deleteViolation ids with
  | some e => rfl
  | none => rfl

/-- **A purge** that runs alone removes the tombstones it selects, unless something refers to them. -/
theorem runBody_runTombstonePurgeOnce (args : GcArgs) (s : Db) :
    ((runTombstonePurgeOnce args).runBody s).1 = s.dropNodes (args.purged s) := by
  rw [runTombstonePurgeOnce, Proc.runBody_bind_of_ok (Proc.runBody_read _ s), GcArgs.purged]
  cases hmode : args.mode with
  | audit =>
    show ((pure _ : DbProc GcPassResult).runBody s).1 = _
    rw [dropNodes_nil]
    rfl
  | delete =>
    dsimp only
    by_cases hids : withLimit args.batchSize (s.eligibleNodes args.cutoff) = []
    · have hnil : ∀ c : Prop, [Decidable c] → (if c then ([] : List String) else []) = [] := fun c _ => by simp
      simp only [hids, hnil, dropNodes_nil]
      rfl
    · simp only [hids, reduceCtorEq]
      show ((purgeNodes _ _).runBody s).1 = _
      rw [runBody_purgeNodes]
      split
      · rfl
      · rw [dropNodes_nil]

theorem exec_runTombstonePurgeOnce (args : GcArgs) (s : Db) :
    ((runTombstonePurgeOnce args).exec s none).1 = s.dropNodes (args.purged s) := by
  have hdirect : (runTombstonePurgeOnce args).Unbracketed := by
    rw [runTombstonePurgeOnce_eq]
    exact unbracketed_runIdBatchPass _ _ args fun _ => .stmt _ _
  rw [Proc.exec_eq_runBody hdirect, runBody_runTombstonePurgeOnce]

section Purge

variable {s : Db} {ids : List String}

/-- A version of a node that stays is found as before. -/
theorem RefsInv.version_dropNodes (h : RefsInv s) {versionId : String} {v : VersionRow}
    (hv : s.version versionId = some v) (hnode : v.nodeId ∉ ids) : (s.dropNodes ids).version versionId = some v := by
  have hmem : v ∈ (s.dropNodes ids).versions :=
    List.mem_filter.mpr ⟨mem_of_lookup hv, by simpa using hnode⟩
  have hkeys : ((s.dropNodes ids).versions.map VersionRow.versionId).Nodup :=
    h.versionKeys.sublist (List.filter_sublist.map _)
  have hfound := lookup_of_mem hkeys hmem
  rw [lookup_key hv] at hfound
  exact hfound

theorem RefsInv.hashesOf_dropNodes (h : RefsInv s) {r : NodeRow} (hr : r ∈ s.nodes) (hnode : r.nodeId ∉ ids) :
    (s.dropNodes ids).hashesOf r.currentVersionId = s.hashesOf r.currentVersionId := by
  cases hv : r.currentVersionId with
  | none => rfl
  | some v =>
    obtain ⟨row, hrow, hown⟩ := h.current r hr v hv
    have hstays : row.nodeId ∉ ids := by
      rw [hown]
      exact hnode
    rw [Db.hashesOf, Db.hashesOf, Option.bind_some, Option.bind_some, hrow, h.version_dropNodes hrow hstays]

/-- Nodes that are not counted take nothing from the counts. -/
theorem RefsInv.holders_dropNodes (h : RefsInv s) (hids : s.Uncounted ids) (hash : String) :
    (s.dropNodes ids).holders hash = s.holders hash := by
  have hnodes : (s.dropNodes ids).nodes.countP (fun r => hash ∈ (s.dropNodes ids).hashesOf r.currentVersionId) =
      s.nodes.countP fun r => hash ∈ s.hashesOf r.currentVersionId := by
    show (s.nodes.filter _).countP _ = _
    rw [List.countP_filter]
    refine List.countP_congr fun r hr => ?_
    by_cases hmem : r.nodeId ∈ ids
    · simp [hmem, hids.current r hr hmem]
    · simp [hmem, h.hashesOf_dropNodes hr hmem]
  have hcopies : (s.dropNodes ids).versions.countP (fun v => v.isConflictCopy && hash ∈ chunkHashes v.manifest) =
      s.versions.countP fun v => v.isConflictCopy && hash ∈ chunkHashes v.manifest := by
    show (s.versions.filter _).countP _ = _
    rw [List.countP_filter]
    refine List.countP_congr fun v hv => ?_
    by_cases hmem : v.nodeId ∈ ids
    · cases hconf : v.isConflictCopy with
      | true => simp [hmem, hids.copies v hv hmem hconf]
      | false => simp
    · simp [hmem]
  rw [Db.holders, Db.holders, hnodes, hcopies]

/-- **A purge of uncounted nodes** keeps the invariant. -/
theorem RefsInv.dropNodes (h : RefsInv s) (hids : s.Uncounted ids) : RefsInv (s.dropNodes ids) where
  nodeKeys := h.nodeKeys.sublist (List.filter_sublist.map _)
  versionKeys := h.versionKeys.sublist (List.filter_sublist.map _)
  chunkKeys := h.chunkKeys
  current r hr v hv := by
    obtain ⟨hold, hstays⟩ := List.mem_filter.mp hr
    obtain ⟨row, hrow, hown⟩ := h.current r hold v hv
    refine ⟨row, h.version_dropNodes hrow ?_, hown⟩
    rw [hown]
    simpa using hstays
  present v hv := h.present v (List.mem_filter.mp hv).1
  refs r hr := by
    obtain ⟨hold, hstays⟩ := List.mem_filter.mp hr
    obtain ⟨v, hv, hid, hmem⟩ := h.refs r hold
    refine ⟨v, List.mem_filter.mpr ⟨hv, ?_⟩, hid, hmem⟩
    -- otherwise the reference had gone with its version
    by_contra hgone
    have hnode : v.nodeId ∈ ids := by simpa using hgone
    have hlisted : r.versionId ∈ (s.versions.filter fun v => v.nodeId ∈ ids).map VersionRow.versionId :=
      List.mem_map.mpr ⟨v, List.mem_filter.mpr ⟨hv, decide_eq_true hnode⟩, hid⟩
    exact of_decide_eq_true hstays hlisted
  counts c hc := by
    rw [h.holders_dropNodes hids]
    exact h.counts c hc

end Purge

/-! ### Batches -/

/-- New chunks, with no reference counted. -/
structure AddsUncounted (s s' : Db) : Prop where
  same : { s' with chunks := s.chunks } = s
  chunks : ∃ new : List ChunkRow, s'.chunks = s.chunks ++ new ∧ ∀ c ∈ new, c.refcount = 0
  keys : (s.chunks.map ChunkRow.chunkHash).Nodup → (s'.chunks.map ChunkRow.chunkHash).Nodup

theorem AddsUncounted.refl (s : Db) : AddsUncounted s s :=
  ⟨rfl, ⟨[], (List.append_nil _).symm, fun _ hc => absurd hc List.not_mem_nil⟩, id⟩

instance : Std.Refl AddsUncounted := ⟨AddsUncounted.refl⟩

instance : IsTrans Db AddsUncounted where
  trans s s' s'' h h' := by
    obtain ⟨new, hnew, hzero⟩ := h.chunks
    obtain ⟨new', hnew', hzero'⟩ := h'.chunks
    refine ⟨?_, ⟨new ++ new', ?_, fun c hc => ?_⟩, fun hk => h'.keys (h.keys hk)⟩
    · rw [← h.same, ← h'.same]
    · rw [hnew', hnew, List.append_assoc]
    · rcases List.mem_append.mp hc with hc | hc
      · exact hzero c hc
      · exact hzero' c hc

theorem insertChunkIfAbsent_direct (oid : String) (sizeBytes : ℕ) :
    (insertChunkIfAbsent oid sizeBytes).Direct AddsUncounted := by
  refine ⟨fun s => ?_, fun s => True.intro⟩
  dsimp only
  split
  · exact AddsUncounted.refl s
  · next habsent =>
    have hfresh : ∀ c ∈ s.chunks, c.chunkHash ≠ oid := fun c hc he => habsent (chunk_isSome.mpr ⟨c, hc, he⟩)
    refine ⟨rfl, ⟨_, rfl, fun c hc => ?_⟩, fun hk => nodup_append hk hfresh⟩
    rw [List.mem_singleton.mp hc]

theorem handleUploads_direct (plans : List (BatchObject × Option ChunkRow)) :
    (handleUploads plans).Direct AddsUncounted := by
  induction plans with
  | nil => exact True.intro
  | cons plan plans ih =>
    obtain ⟨o, existing⟩ := plan
    have hobject : (handleUploadObject o existing).Direct AddsUncounted := by
      cases existing with
      | some chunk =>
        rw [handleUploadObject]
        split <;> exact True.intro
      | none =>
        refine (insertChunkIfAbsent_direct o.oid o.size).bind fun inserted => ?_
        split <;> exact True.intro
    exact hobject.bind fun _ => ih.bind fun _ => True.intro

theorem handleBatch_direct (call : BatchCall) : (handleBatch call).Direct AddsUncounted := by
  have hplan : ∀ os, (planUploads os).ReadOnly := by
    intro os
    induction os with
    | nil => exact True.intro
    | cons o os ih => exact (Proc.readOnly_read _).bind fun _ => ih.bind fun _ => True.intro
  rw [handleBatch]
  split
  · exact ((hplan call.objects).direct AddsUncounted.refl).bind fun plans =>
      ((checkQuota_readOnly call _).direct AddsUncounted.refl).bind fun _ => handleUploads_direct plans
  · exact (handleDownloads_readOnly call.objects).direct AddsUncounted.refl

/-- **A batch** keeps the invariant: nothing refers to a chunk without a row. -/
theorem RefsInv.batch (h : RefsInv s) (hadds : AddsUncounted s s') : RefsInv s' := by
  obtain ⟨new, hnew, hzero⟩ := hadds.chunks
  have hkeys := hadds.keys h.chunkKeys
  have hs' : s' = { s with chunks := s'.chunks } := by
    rw [← hadds.same]
  rw [hs']
  refine ⟨h.nodeKeys, h.versionKeys, hkeys, h.current, fun v hv hash hmem => ?_, h.refs, fun c hc => ?_⟩
  · obtain ⟨c, hc, he⟩ := h.present v hv hash hmem
    refine ⟨c, ?_, he⟩
    show c ∈ s'.chunks
    rw [hnew]
    exact List.mem_append_left _ hc
  · have hold : ∀ hash, Db.holders { s with chunks := s'.chunks } hash = s.holders hash := fun _ => rfl
    rw [hold]
    have hmem : c ∈ s.chunks ++ new := by
      rw [← hnew]
      exact hc
    rcases List.mem_append.mp hmem with hc | hfresh
    · exact h.counts c hc
    · rw [hzero c hfresh, holders_eq_zero]
      intro v hv hhash
      obtain ⟨c₀, hc₀, he⟩ := h.present v hv c.chunkHash hhash
      rw [hnew, List.map_append, List.nodup_append] at hkeys
      exact hkeys.2.2 _ (List.mem_map_of_mem hc₀) _ (List.mem_map_of_mem hfresh) he

end Invariant

/-! ### Restoring a version -/

/-- A call of `POST …/versions/:versionId/restore`, with what `randomUUID()`, `newId()` and `new Date()` return. -/
structure RestoreCall where
  folderId : String
  principal : Principal
  nodeId : String
  versionId : String
  basedOnSeq : ℕ
  newVersionId : String
  newId : String
  now : ℕ
  request : ℕ
  deriving DecidableEq, Repr

/-- The call of `submitOp` that puts an old version on top. -/
def RestoreCall.submits (call : RestoreCall) (version : VersionRow) : SubmitCall where
  folderId := call.folderId
  principal := call.principal
  op := .mutate call.nodeId call.basedOnSeq
    (.newVersion call.newVersionId version.contentHash version.sizeBytes version.manifest)
  newId := call.newId
  now := call.now
  request := call.request

/-- The version to restore. -/
def loadVersion (call : RestoreCall) : DbProc VersionRow := do
  let version ← (.read fun s => s.version call.versionId : DbProc (Option VersionRow))
  match version with
  | none => .fail (.response 404 "version_not_found")
  | some version =>
    if version.nodeId ≠ call.nodeId then .fail (.response 404 "version_not_found")
    else pure version

/-- The route that restores a version. -/
def restoreVersion (be : Backend) (call : RestoreCall) : DbProc SubmitOpResponse := do
  requireWrite call.nodeId call.principal
  let version ← loadVersion call
  match ← loadNode call.nodeId with
  | none => .fail (.response 404 "node_not_found")
  | some _ => submitOp be (call.submits version)

theorem restoreVersion_accounted {be : Backend} {call : RestoreCall} {s s' : Db} {a : SubmitOpResponse}
    (h : (restoreVersion be call).exec s none = (s', .ok a)) : ∃ call', serve be call' s = (s', .ok a) := by
  have hversion : (loadVersion call).ReadOnly := by
    refine (Proc.readOnly_read _).bind fun version => ?_
    cases version with
    | none => exact True.intro
    | some version =>
      dsimp only
      split <;> exact True.intro
  have hnode : (loadNode call.nodeId).ReadOnly := Proc.readOnly_read _
  obtain ⟨_, -, h⟩ := (requireWrite_readOnly call.nodeId call.principal).exec_bind_ok h
  obtain ⟨version, -, h⟩ := hversion.exec_bind_ok h
  obtain ⟨row, -, h⟩ := hnode.exec_bind_ok h
  cases row with
  | none => cases h
  | some r => exact ⟨call.submits version, h⟩

/-! ### Histories -/

/-- What happens to the chunks' counts: requests, restores, batches of uploads and purges. -/
inductive RefsEvent where
  | request (req : Request)
  | restore (call : RestoreCall)
  | batch (call : BatchCall)
  | purge (args : GcArgs)
  deriving DecidableEq, Repr

/-- The state that an answered call leaves; a call that fails is no event. -/
def whenOk {α : Type} (r : Db × Except ApiError α) : Option Db :=
  match r.2 with
  | .ok _ => some r.1
  | .error _ => none

/-- One event. -/
def RefsEvent.step (be : Backend) (s : Db) : RefsEvent → Option Db
  | .request (.submitOp call) => whenOk (serve be call s)
  | .request req => some (req.serve be s)
  | .restore call => whenOk ((restoreVersion be call).exec s none)
  | .batch call => some ((handleBatch call).exec s none).1
  | .purge args => some ((runTombstonePurgeOnce args).exec s none).1

/-- No purge removes a node that is counted. -/
def RefsEvent.Ok (s : Db) : RefsEvent → Prop
  | .purge args => s.Uncounted (args.purged s)
  | _ => True

instance (s : Db) (e : RefsEvent) : Decidable (e.Ok s) :=
  match e with
  | .purge args => inferInstanceAs (Decidable (s.Uncounted (args.purged s)))
  | .request _ | .restore _ | .batch _ => isTrue True.intro

section Histories

variable {be : Backend} {s s' : Db}

theorem whenOk_some {α : Type} {r : Db × Except ApiError α} (h : whenOk r = some s') : ∃ a, r = (s', .ok a) := by
  obtain ⟨s₁, e | a⟩ := r
  · cases h
  · cases h
    exact ⟨a, rfl⟩

theorem createFolder_sameContent (be : Backend) (call : FolderCall) (s : Db) :
    SameContent s ((createFolder be call).exec s none).1 := by
  have hsame : ∀ s, SameContent s s := fun s => refl s
  refine (resolveEffectiveUserId_readOnly call.principal).exec_bind (hsame s) fun owner _ => ?_
  cases truthy owner with
  | none => exact hsame s
  | some ownerUserId =>
    have hfolder : (insertSharedFolder call.folderId).Writes SameContent :=
      Proc.Writes.stmt fun _ _ => .of_same ⟨rfl, rfl⟩ rfl rfl
    have hroot : (insertNode call.root).Writes SameContent := insertNode_sameContent rfl
    have hgrant : (insertFolderGrant (call.ownerGrant ownerUserId)).Writes SameContent :=
      Proc.Writes.stmt fun _ _ => .of_same ⟨rfl, rfl⟩ rfl rfl
    have hbody : (createFolderBody be call ownerUserId).Writes SameContent :=
      hfolder.bind fun _ => (lockKey_writes _).bind fun _ => hroot.bind fun _ => hgrant.bind fun _ => True.intro
    exact state_inTransaction (callback_createFolderBody be call ownerUserId) (hbody.runBody s) fun _ =>
      .of_same ⟨rfl, rfl⟩ rfl rfl

/-- **What an event does**: a request or a restore changes neither versions nor counts, or stores one version. -/
theorem RefsEvent.step_cases {e : RefsEvent} (hs : e.step be s = some s') :
    (Accounted s s' ∧ (s.NodeKeys → s'.NodeKeys)) ∨
    (∃ call, e = .batch call ∧ s' = ((handleBatch call).exec s none).1) ∨
    ∃ args, e = .purge args ∧ s' = s.dropNodes (args.purged s) := by
  have hcall : ∀ {call a}, serve be call s = (s', .ok a) → Accounted s s' ∧ (s.NodeKeys → s'.NodeKeys) := by
    intro call a hserve
    refine ⟨serve_accounted hserve, fun hkeys => ?_⟩
    have hk := serve_keys be call hkeys
    rw [hserve] at hk
    exact hk
  cases e with
  | restore call =>
    obtain ⟨a, hexec⟩ := whenOk_some hs
    obtain ⟨call', hserve⟩ := restoreVersion_accounted hexec
    exact .inl (hcall hserve)
  | batch call =>
    cases hs
    exact .inr (.inl ⟨call, rfl, rfl⟩)
  | purge args =>
    cases hs
    exact .inr (.inr ⟨args, rfl, exec_runTombstonePurgeOnce args s⟩)
  | request req =>
    have hallowed : AllowsEdits SameContent := fun s devices folderGrants folderInvites =>
      .of_same ⟨rfl, rfl⟩ rfl rfl
    have hfolder : ∀ call : FolderCall, s' = ((createFolder be call).exec s none).1 →
        Accounted s s' ∧ (s.NodeKeys → s'.NodeKeys) := by
      intro call hs'
      rw [hs']
      exact ⟨.same (createFolder_sameContent be call s), fun hkeys => (founding_createFolder be call s).1.keys hkeys⟩
    rcases edit_request be s req with hedit | ⟨call, rfl⟩ | ⟨call, rfl⟩
    · rcases request_allowed hallowed be s req with hsame | ⟨call, rfl⟩ | ⟨call, rfl⟩
      · have hs' : s' = req.serve be s := by
          cases req with
          | submitOp call =>
            obtain ⟨a, hserve⟩ := whenOk_some hs
            rw [Request.serve, hserve]
          | _ => exact (Option.some.inj hs).symm
        rw [hs']
        refine .inl ⟨.same hsame, fun hkeys => ?_⟩
        rw [Db.NodeKeys, hedit.nodes]
        exact hkeys
      · cases hs
        exact .inl (hfolder call rfl)
      · obtain ⟨a, hserve⟩ := whenOk_some hs
        exact .inl (hcall hserve)
    · cases hs
      exact .inl (hfolder call rfl)
    · obtain ⟨a, hserve⟩ := whenOk_some hs
      exact .inl (hcall hserve)

/-- **One event** keeps the invariant. -/
theorem RefsInv.step (h : RefsInv s) {e : RefsEvent} (hok : e.Ok s) (hs : e.step be s = some s') : RefsInv s' := by
  rcases RefsEvent.step_cases hs with ⟨haccounted, hkeys⟩ | ⟨call, rfl, rfl⟩ | ⟨args, rfl, rfl⟩
  · cases haccounted with
    | same hsame => exact h.same hsame (hkeys h.nodeKeys)
    | stored row hrow hsame => exact (h.withVersion hrow).same hsame (hkeys h.nodeKeys)
  · exact h.batch ((handleBatch_direct call).exec s)
  · exact h.dropNodes hok

theorem RefsInv.start (devices : List DeviceRow) : RefsInv { devices } where
  nodeKeys := List.nodup_nil
  versionKeys := List.nodup_nil
  chunkKeys := List.nodup_nil
  current r hr := by cases hr
  present v hv := by cases hv
  refs r hr := by cases hr
  counts c hc := by cases hc

end Histories

/-- **Refcounts are right** in every state that requests, restores, batches of uploads and purges lead to
from an empty database, as long as no purge removes a node whose current version has chunks or that has a
conflict copy with chunks. -/
theorem refcounts_exact (be : Backend) (devices : List DeviceRow) (es : List RefsEvent)
    (hok : Run.Along (RefsEvent.step be) RefsEvent.Ok { devices } es) :
    (Run.run (RefsEvent.step be) { devices } es).RefsExact := by
  have hinv := Run.run_invariant (I := RefsInv) (fun _ _ _ h hok hs => h.step hok hs) (RefsInv.start devices) hok
  exact hinv.exact

/-! ### Runs -/

/-- An op on the folder `f`. -/
def refsOp (op : SubmitOpRequest) : RefsEvent :=
  .request (.submitOp { folderId := "f", principal := .device "d", op, newId := "w", now := 0, request := 0 })

/-- A file with the chunk `c`. -/
def countedEvents : List RefsEvent :=
  [.request (.createFolder { principal := .user "u", folderId := "f", rootNodeId := "root", grantId := "g" }),
    .batch { principal := .device "d", operation := "upload", objects := [{ oid := "c", size := 1 }] },
    refsOp (.create "n" "root" "x" .file),
    refsOp (.mutate "n" 1 (.newVersion "v" "h" 1 [{ chunkHash := "c", offset := 0, length := 1 }]))]

/-- The devices of a user. -/
def refsStart : Db := { devices := [{ deviceId := "d", userId := some "u" }] }

/-- The file's version is restored, a device that had not seen it leaves a conflict copy, and a tombstone
without a version is purged. -/
def restoredEvents : List RefsEvent :=
  countedEvents ++
    [.restore { folderId := "f", principal := .device "d", nodeId := "n", versionId := "v", basedOnSeq := 2,
                newVersionId := "v'", newId := "w", now := 0, request := 0 },
      refsOp (.mutate "n" 1 (.newVersion "k" "h" 1 [{ chunkHash := "c", offset := 0, length := 1 }])),
      refsOp (.create "m" "root" "y" .file), refsOp (.mutate "m" 5 .delete),
      .purge { now := 10, retentionMs := 5 }]

theorem refcounts_exact_restored : (Run.run (RefsEvent.step .pg) refsStart restoredEvents).RefsExact :=
  refcounts_exact .pg refsStart.devices restoredEvents (by decide +kernel)

/-- The file is deleted, and its tombstone purged. -/
def purgedEvents : List RefsEvent :=
  countedEvents ++ [refsOp (.mutate "n" 2 .delete), .purge { now := 10, retentionMs := 5 }]

/-- A chunk that is counted and that no version refers to is a leak. -/
theorem not_refsExact_of_leak {s : Db} {c : ChunkRow} (hchunks : s.chunks = [c]) (hversions : s.versions = [])
    (hcount : c.refcount ≠ 0) : ¬ s.RefsExact := by
  intro h
  refine hcount (h.collectable c (by rw [hchunks]; exact List.mem_singleton.mpr rfl) fun v hv => ?_).1
  rw [hversions] at hv
  cases hv

/-- **A purged file is still counted**, on either backend: its chunk keeps a refcount of 1 with no version left. -/
theorem refcount_leaks : ¬ (Run.run (RefsEvent.step .pg) refsStart purgedEvents).RefsExact ∧
    ¬ (Run.run (RefsEvent.step .sqlite) refsStart purgedEvents).RefsExact := by
  let counted : ChunkRow := { chunkHash := "c", sizeBytes := 1, refcount := 1, createdAt := 0 }
  have hcount : counted.refcount ≠ 0 := by decide
  have hpg : (Run.run (RefsEvent.step .pg) refsStart purgedEvents).chunks = [counted] ∧
      (Run.run (RefsEvent.step .pg) refsStart purgedEvents).versions = [] := by decide +kernel
  have hsqlite : (Run.run (RefsEvent.step .sqlite) refsStart purgedEvents).chunks = [counted] ∧
      (Run.run (RefsEvent.step .sqlite) refsStart purgedEvents).versions = [] := by decide +kernel
  exact ⟨not_refsExact_of_leak hpg.1 hpg.2 hcount, not_refsExact_of_leak hsqlite.1 hsqlite.2 hcount⟩

end Valv.Server
