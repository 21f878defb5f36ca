import Valv.Lib.Exec
import Valv.Server.OpLog

/-!
# What a call of `submitOp` does

A call that nobody interleaves with, on either database: the state it leaves and the answer
it gives.  Histories of whole calls build on this.

* `serve`: the call run alone.
* `Served`: for each answer, what became of the node and what the log gained.
* `serve_outcome`: every run of a call is one of these; a refused call leaves the nodes and the
  log as they were.
* `Db.Consistent`, `serve_consistent`: what every history of calls keeps.
-/

namespace Valv.Server

open Valv.Conc Valv.Table

/-- The call run alone: the database it leaves and its answer. -/
def serve (be : Backend) (call : SubmitCall) (s : Db) : Db × Except ApiError SubmitOpResponse :=
  (submitOp be call).exec s none

/-- The answer is that the op was applied. -/
def isApplied : Except ApiError SubmitOpResponse → Bool
  | .ok (.applied _ _) => true
  | _ => false

/-- The columns a mutation changes, next to `server_seq`. -/
def Mutation.applyRow (now : ℕ) : Mutation → NodeRow → NodeRow
  | .rename newName, r => { r with name := newName }
  | .move newParentId, r => { r with parentId := some newParentId }
  | .delete, r => { r with deletedAt := some now }
  | .newVersion versionId _ _ _, r => { r with currentVersionId := some versionId }

/-- The manifest of a new version. -/
def Mutation.manifest : Mutation → List ChunkRef
  | .newVersion _ _ _ manifest => manifest
  | _ => []

@[simp] theorem Mutation.applyRow_nodeId (m : Mutation) (now : ℕ) (r : NodeRow) :
    (m.applyRow now r).nodeId = r.nodeId := by
  cases m <;> rfl

/-- The row a create inserts. -/
def SubmitCall.createdRow (call : SubmitCall) (n parentId name : String) (type : NodeType) : NodeRow :=
  { nodeId := n, folderId := call.folderId, parentId := some parentId, name, type }

/-- The device of the call and its folder have their rows. -/
structure Db.Admits (s : Db) (call : SubmitCall) : Prop where
  folder : call.folderId ∈ s.sharedFolders
  device : ∀ deviceId, call.principal = .device deviceId → deviceId ∈ s.devices.map DeviceRow.deviceId

/-- The device of a principal that is one. -/
def Principal.deviceId? : Principal → Option String
  | .device deviceId => some deviceId
  | .user _ => none

instance (s : Db) (call : SubmitCall) : Decidable (s.Admits call) :=
  decidable_of_iff (call.folderId ∈ s.sharedFolders ∧
    ∀ deviceId ∈ call.principal.deviceId?, deviceId ∈ s.devices.map DeviceRow.deviceId)
    ⟨fun h => ⟨h.1, fun d hd => h.2 d (by rw [hd]; rfl)⟩,
     fun h => ⟨h.folder, fun d hd => h.device d (by
       cases hp : call.principal with
       | user userId => rw [hp] at hd; cases hd
       | device deviceId => rw [hp] at hd; cases hd; rfl)⟩⟩

/-- What no op changes: these tables, and which chunks have a row. -/
structure Fixed (s s' : Db) : Prop where
  sharedFolders : s'.sharedFolders = s.sharedFolders
  devices : s'.devices = s.devices
  folderGrants : s'.folderGrants = s.folderGrants
  chunks : s'.chunks.map ChunkRow.chunkHash = s.chunks.map ChunkRow.chunkHash
  now : s'.now = s.now

theorem Fixed.refl (s : Db) : Fixed s s := ⟨rfl, rfl, rfl, rfl, rfl⟩

theorem Db.Admits.fixed {s s' : Db} {call : SubmitCall} (h : s.Admits call) (hf : Fixed s s') :
    s'.Admits call :=
  ⟨hf.sharedFolders ▸ h.folder, fun d hd => hf.devices ▸ h.device d hd⟩

/-- `node_id` is a primary key. -/
def Db.NodeKeys (s : Db) : Prop := (s.nodes.map NodeRow.nodeId).Nodup

/-- The call leaves the nodes and the log as they were. -/
structure Refused (s s' : Db) : Prop where
  nodes : s'.nodes = s.nodes
  opLog : s'.opLog = s.opLog
  lastSeq : s.lastSeq ≤ s'.lastSeq
  fixed : Fixed s s'

/-- The call is committed: it appends one op to the log, and its node's row becomes `row`. -/
structure Commits (call : SubmitCall) (n deviceId : String) (payload : OpPayload)
    (b : Option ℕ) (row : NodeRow) (s s' : Db) : Prop where
  node : s'.node n = some { row with serverSeq := s.lastSeq + 1 }
  other : ∀ m, m ≠ n → s'.node m = s.node m
  opLog : s'.opLog = s.opLog ++ [opLogRow call n deviceId payload b s.now (s.lastSeq + 1)]
  lastSeq : s'.lastSeq = s.lastSeq + 1
  keys : s.NodeKeys → s'.NodeKeys
  fixed : Fixed s s'

/-- A new live name is free. -/
def NameFree (s : Db) (r r' : NodeRow) : Prop :=
  r'.liveName = r.liveName ∨ s.liveNameTaken r' = false

/-- What a call did, by its answer. -/
inductive Served (call : SubmitCall) (s s' : Db) : SubmitOpResponse → Prop
  | created (deviceId n parentId name : String) (type : NodeType)
      (hop : call.op = .create n parentId name type)
      (hnew : s.node n = none) (hparent : (s.node parentId).isSome)
      (hname : s.liveNameTaken (call.createdRow n parentId name type) = false)
      (h : Commits call n deviceId (.create n parentId name type) none
        (call.createdRow n parentId name type) s s') :
      Served call s s' (.applied (s.lastSeq + 1) n)
  | applied (deviceId n : String) (b : ℕ) (m : Mutation) (r : NodeRow)
      (hop : call.op = .mutate n b m) (hr : s.node n = some r) (hb : r.serverSeq = b)
      (hname : NameFree s r (m.applyRow call.now r))
      (hchunks : ∀ hash ∈ chunkHashes m.manifest, (s.chunk hash).isSome)
      (h : Commits call n deviceId (m.logged call.newId false) (some b) (m.applyRow call.now r) s s') :
      Served call s s' (.applied (s.lastSeq + 1) n)
  | conflictCopy (deviceId n : String) (b : ℕ) (versionId contentHash : String) (sizeBytes : ℕ)
      (manifest : List ChunkRef) (r : NodeRow)
      (hop : call.op = .mutate n b (.newVersion versionId contentHash sizeBytes manifest))
      (hr : s.node n = some r) (hb : r.serverSeq ≠ b)
      (hchunks : ∀ hash ∈ chunkHashes manifest, (s.chunk hash).isSome)
      (h : Commits call n deviceId (.newVersion call.newId contentHash sizeBytes manifest true)
        (some b) r s s') :
      Served call s s' (.conflictCopy (s.lastSeq + 1) n call.newId)
  | superseded (seq : ℕ) (h : Refused s s') : Served call s s' (.superseded seq)

/-! ### The statements of a body -/

section Statements

variable {be : Backend} {call : SubmitCall} {n deviceId : String} {s s' : Db}

@[simp] theorem runBody_lockKey (k : DbKey) : (lockKey be k).runBody s = (s, .ok ()) := by
  cases be <;> rfl

@[simp] theorem runBody_lockKeys (ks : List DbKey) : (lockKeys be ks).runBody s = (s, .ok ()) := by
  induction ks with
  | nil => rfl
  | cons k ks ih =>
    rw [lockKeys, Proc.runBody_bind_of_ok (runBody_lockKey k), ih]

/-- A rename, move or delete is one update, whatever it waits for first. -/
theorem runBody_updateNamed (f : NodeRow → NodeRow) :
    (updateNamed be n f).runBody s = (updateNodes n f).runBody s := by
  cases be with
  | sqlite => rfl
  | pg =>
    rw [updateNamed, loadNode, Proc.runBody_bind_of_ok (Proc.runBody_read _ s),
      Proc.runBody_bind_of_ok (runBody_lockKeys _)]

/-- The insertion of an op, alone. -/
theorem runBody_insertOpLog (payload : OpPayload) (b : Option ℕ)
    (h : s.opLogViolation call.folderId deviceId = none) :
    (insertOpLog be call n deviceId payload b).runBody s =
      (Db.appendOp (opLogRow call n deviceId payload b s.now (s.lastSeq + 1))
        (Sequence.bump DbKey s), .ok ()) := by
  cases be with
  | pg =>
    have h' : (Sequence.bump DbKey s).opLogViolation call.folderId deviceId = none := h
    rw [insertOpLog, Proc.runBody, Proc.runBody_stmt, h']
    rfl
  | sqlite =>
    rw [insertOpLog, Proc.runBody_stmt, h]

theorem opLogViolation_of_admits (ha : s.Admits call) (hp : call.principal = .device deviceId) :
    s.opLogViolation call.folderId deviceId = none := by
  rw [Db.opLogViolation, if_neg fun h => h ha.folder, if_neg fun h => h (ha.device _ hp)]

/-- The node's row takes the `server_seq`; no constraint is in the way. -/
theorem runBody_setServerSeq (folderId : String) :
    (setServerSeq folderId n).runBody s =
      let seq := maxSeq ((s.nodeOps n).filter fun e => e.folderId = folderId)
      ({ s with nodes := update NodeRow.nodeId n (fun r => { r with serverSeq := seq }) s.nodes },
        .ok seq) := by
  have hupdate (seq : ℕ) : (updateNodes n fun r => { r with serverSeq := seq }).runBody s =
      ({ s with nodes := update NodeRow.nodeId n (fun r => { r with serverSeq := seq }) s.nodes },
        .ok ()) := by
    rw [updateNodes, Proc.runBody_stmt]
    cases s.node n with
    | none => rfl
    | some r =>
      rw [Option.bind_some, nodeViolation_setServerSeq]
  rw [setServerSeq, latestSeqForNode, Proc.runBody_bind_of_ok (Proc.runBody_read _ s),
    Proc.runBody_bind_of_ok (hupdate _)]
  rfl

end Statements

/-! ### The version of an op -/

/-- The constraints on an inserted version. -/
def Db.versionViolation (s : Db) (r : VersionRow) : Option ApiError :=
  if (s.version r.versionId).isSome then some (.constraint .primaryKey)
  else if (s.node r.nodeId).isNone then some (.constraint .foreignKey)
  else if r.authorDeviceId ∉ s.devices.map DeviceRow.deviceId then some (.constraint .foreignKey)
  else none

/-- A chunk of the version has no row, or is referenced by the version already. -/
def Db.refsRejected (s : Db) (versionId : String) (hashes : List String) : Prop :=
  ∃ hash ∈ hashes, s.chunk hash = none ∨
    ∃ r ∈ s.versionChunks, r.versionId = versionId ∧ r.chunkHash = hash

instance (s : Db) (versionId : String) (hashes : List String) :
    Decidable (s.refsRejected versionId hashes) := inferInstanceAs (Decidable (∃ _ ∈ _, _))

/-- The manifest that a version replaces, whose chunks lose a reference; a conflict copy replaces none. -/
def Db.replacedManifest (s : Db) (row : VersionRow) : List ChunkRef :=
  if row.isConflictCopy then []
  else (((s.node row.nodeId).bind NodeRow.currentVersionId).bind s.version).elim [] VersionRow.manifest

/-- A statement on the chunks of the version is rejected: a chunk has no row or is referenced already, or the new
references or the replaced ones have more parameters than the engine binds. -/
def Db.chunksRejected (s : Db) (row : VersionRow) : Prop :=
  s.maxParams < 3 * (chunkHashes row.manifest).length ∨ s.refsRejected row.versionId (chunkHashes row.manifest) ∨
    s.maxParams < (chunkHashes (s.replacedManifest row)).length

/-- A version is stored: its row, its chunk references, and, unless it is a conflict copy, the
node's current version. -/
structure Stored (row : VersionRow) (s s' : Db) : Prop where
  fresh : s.version row.versionId = none
  present : ∀ hash ∈ chunkHashes row.manifest, (s.chunk hash).isSome
  nodes : s'.nodes = if row.isConflictCopy then s.nodes else
    update NodeRow.nodeId row.nodeId (fun r => { r with currentVersionId := some row.versionId }) s.nodes
  versions : s'.versions = s.versions ++ [row]
  versionChunks : s'.versionChunks = s.versionChunks ++ (chunkHashes row.manifest).map fun chunkHash =>
    { versionId := row.versionId, nodeId := row.nodeId, chunkHash }
  opLog : s'.opLog = s.opLog
  lastSeq : s'.lastSeq = s.lastSeq
  fixed : Fixed s s'

/-- The op goes on or fails, but what it did so far shows neither in the nodes nor in the log. -/
structure Unnoticed (s s' : Db) : Prop where
  nodes : s'.nodes = s.nodes
  opLog : s'.opLog = s.opLog
  lastSeq : s'.lastSeq = s.lastSeq
  fixed : Fixed s s'

/-- A version's row is left behind and the op fails: before the version's chunks are referenced, or, with too many
chunks to release, after it. -/
structure HalfStored (row : VersionRow) (s s' : Db) : Prop extends Unnoticed s s' where
  versions : s'.versions = s.versions ++ [row]
  versionChunks : s'.versionChunks = s.versionChunks ∨
    (∀ hash ∈ chunkHashes row.manifest, (s.chunk hash).isSome) ∧
      s'.versionChunks = s.versionChunks ++ (chunkHashes row.manifest).map fun chunkHash =>
        { versionId := row.versionId, nodeId := row.nodeId, chunkHash }

theorem Unnoticed.refl (s : Db) : Unnoticed s s := ⟨rfl, rfl, rfl, Fixed.refl s⟩

theorem Unnoticed.refused {s s' : Db} (h : Unnoticed s s') : Refused s s' where
  nodes := h.nodes
  opLog := h.opLog
  lastSeq := h.lastSeq.ge
  fixed := h.fixed

section Version

variable {be : Backend} {s s' : Db}

theorem map_chunkHash_refcounts (hashes : List String) (f : ℕ → ℕ) (cs : List ChunkRow) :
    (cs.map fun c => if c.chunkHash ∈ hashes then { c with refcount := f c.refcount } else c).map
      ChunkRow.chunkHash = cs.map ChunkRow.chunkHash := by
  rw [List.map_map]
  refine List.map_congr_left fun c _ => ?_
  dsimp only [Function.comp_apply]
  split <;> rfl

/-- The references of a version whose row is there: stored, or rejected for a chunk. -/
theorem runBody_referenceChunks {versionId nodeId : String} (hashes : List String)
    (hversion : (s.version versionId).isSome) (hnode : (s.node nodeId).isSome) :
    (¬ (s.maxParams < 3 * hashes.length ∨ s.refsRejected versionId hashes) ∧
      ∃ cs, (referenceChunks versionId nodeId hashes).runBody s =
        ({ s with versionChunks := s.versionChunks ++ hashes.map fun chunkHash =>
                    { versionId, nodeId, chunkHash },
                  chunks := cs }, .ok ()) ∧
      cs.map ChunkRow.chunkHash = s.chunks.map ChunkRow.chunkHash) ∨
    ((s.maxParams < 3 * hashes.length ∨ s.refsRejected versionId hashes) ∧
      ∃ e, (referenceChunks versionId nodeId hashes).runBody s = (s, .error e)) := by
  by_cases hnil : hashes = []
  · subst hnil
    refine .inl ⟨?_, s.chunks, ?_, rfl⟩
    · rintro (hlimit | ⟨hash, hmem, -⟩)
      · simp at hlimit
      · cases hmem
    · rw [referenceChunks, if_pos rfl, List.map_nil, List.append_nil]
      rfl
  rw [referenceChunks, if_neg hnil, Proc.runBody_bind, insertVersionChunks, Proc.runBody_stmt]
  rw [List.length_map]
  split_ifs with hlimit hkey hforeign
  · exact .inr ⟨.inl hlimit, _, rfl⟩
  · refine .inr ⟨.inr ?_, _, rfl⟩
    obtain ⟨c, hc, hany⟩ := List.any_eq_true.mp hkey
    obtain ⟨hash, hmem, rfl⟩ := List.mem_map.mp hc
    obtain ⟨r, hr, hsame⟩ := List.any_eq_true.mp hany
    simp only [Bool.and_eq_true, decide_eq_true_eq] at hsame
    exact ⟨hash, hmem, .inr ⟨r, hr, hsame⟩⟩
  · refine .inr ⟨.inr ?_, _, rfl⟩
    obtain ⟨c, hc, hany⟩ := List.any_eq_true.mp hforeign
    obtain ⟨hash, hmem, rfl⟩ := List.mem_map.mp hc
    have hv : (s.version versionId).isNone = false := Option.isNone_eq_false_iff.mpr hversion
    have hn : (s.node nodeId).isNone = false := Option.isNone_eq_false_iff.mpr hnode
    simp only [hv, hn, Bool.false_or] at hany
    exact ⟨hash, hmem, .inl (Option.isNone_iff_eq_none.mp hany)⟩
  · have hfits : ¬ s.maxParams < hashes.length := by omega
    refine .inl ⟨?_, _, ?_, map_chunkHash_refcounts hashes (· + 1) s.chunks⟩
    rotate_left
    · dsimp only
      rw [updateRefcounts, Proc.runBody_stmt]
      simp only [Db.overLimit, if_neg hfits]
    rintro (hover | ⟨hash, hmem, habsent | ⟨r, hr, hv, hh⟩⟩)
    · exact hlimit hover
    · refine hforeign (List.any_eq_true.mpr ⟨_, List.mem_map_of_mem hmem, ?_⟩)
      simp [habsent]
    · refine hkey (List.any_eq_true.mpr ⟨_, List.mem_map_of_mem hmem, ?_⟩)
      exact List.any_eq_true.mpr ⟨r, hr, by simp [hv, hh]⟩

/-- The replaced references go, or there are too many of them for one statement. -/
theorem runBody_releaseChunks (hashes : List String) :
    (¬ s.maxParams < hashes.length ∧
      ∃ cs, (releaseChunks hashes).runBody s = ({ s with chunks := cs }, .ok ()) ∧
        cs.map ChunkRow.chunkHash = s.chunks.map ChunkRow.chunkHash) ∨
    (s.maxParams < hashes.length ∧ ∃ e, (releaseChunks hashes).runBody s = (s, .error e)) := by
  by_cases hnil : hashes = []
  · subst hnil
    exact .inl ⟨by simp, s.chunks, rfl, rfl⟩
  rw [releaseChunks, if_neg hnil, updateRefcounts, Proc.runBody_stmt, Db.overLimit]
  by_cases hlimit : s.maxParams < hashes.length
  · rw [if_pos hlimit]
    exact .inr ⟨hlimit, _, rfl⟩
  · rw [if_neg hlimit]
    exact .inl ⟨hlimit, _, rfl, map_chunkHash_refcounts hashes (· - 1) s.chunks⟩

/-- A version with a row can become the current one. -/
theorem runBody_setCurrent {n versionId : String} (h : (s.version versionId).isSome) :
    (updateNodes n fun r => { r with currentVersionId := some versionId }).runBody s =
      ({ s with
          nodes := update NodeRow.nodeId n (fun r => { r with currentVersionId := some versionId })
            s.nodes }, .ok ()) := by
  rw [updateNodes, Proc.runBody_stmt]
  cases s.node n with
  | none => rfl
  | some r =>
    have hv : s.nodeViolation (some r) { r with currentVersionId := some versionId } = none := by
      obtain ⟨v, hv⟩ := Option.isSome_iff_exists.mp h
      simp [Db.nodeViolation, NodeRow.liveName, hv]
    rw [Option.bind_some, hv]

theorem runBody_insertVersionRow (row : VersionRow) :
    (insertVersionRow row).runBody s = match s.versionViolation row with
      | none => ({ s with versions := s.versions ++ [row] }, .ok ())
      | some e => (s, .error e) := by
  rw [insertVersionRow, Proc.runBody_stmt, Db.versionViolation]
  split_ifs <;> rfl

variable (be) in
/-- **Storing a version**, told from the database before: it is stored; or its row stays behind
and a statement on its chunks is rejected; or the row is. -/
theorem runBody_insertVersion (row : VersionRow) :
    (s.versionViolation row = none ∧ ¬ s.chunksRejected row ∧
      ∃ s', (insertVersion be row.nodeId row.authorDeviceId row.versionId row.contentHash row.sizeBytes
        row.manifest row.isConflictCopy).runBody s = (s', .ok ()) ∧ Stored row s s') ∨
    (s.versionViolation row = none ∧ s.chunksRejected row ∧
      ∃ s' e, (insertVersion be row.nodeId row.authorDeviceId row.versionId row.contentHash row.sizeBytes
        row.manifest row.isConflictCopy).runBody s = (s', .error e) ∧ HalfStored row s s') ∨
    (s.versionViolation row ≠ none ∧ ∃ e, (insertVersion be row.nodeId row.authorDeviceId row.versionId
        row.contentHash row.sizeBytes row.manifest row.isConflictCopy).runBody s = (s, .error e)) := by
  have hprev : (previousManifest row.nodeId row.isConflictCopy).runBody s = (s, .ok (s.replacedManifest row)) := by
    rw [previousManifest, Db.replacedManifest]
    split <;> rfl
  rw [insertVersion, Proc.runBody_bind_of_ok hprev, Proc.runBody_bind_of_ok (runBody_lockKey _)]
  cases hv : s.versionViolation row with
  | some e =>
    refine .inr (.inr ⟨nofun, e, ?_⟩)
    rw [Proc.runBody_bind, runBody_insertVersionRow, hv]
  | none =>
  have hrow : (insertVersionRow row).runBody s = ({ s with versions := s.versions ++ [row] }, .ok ()) := by
    rw [runBody_insertVersionRow, hv]
  rw [Proc.runBody_bind_of_ok hrow]
  have hfresh : s.version row.versionId = none := by
    rw [Db.versionViolation] at hv
    split_ifs at hv with hkey
    exact Option.not_isSome_iff_eq_none.mp hkey
  have hnode : (Db.node { s with versions := s.versions ++ [row] } row.nodeId).isSome := by
    rw [Db.versionViolation] at hv
    split_ifs at hv with hkey hnone
    exact Option.isSome_iff_ne_none.mpr fun h => hnone (Option.isNone_iff_eq_none.mpr h)
  have hstored : (Db.version { s with versions := s.versions ++ [row] } row.versionId).isSome := by
    rw [Db.version, lookup_append, lookup_cons, if_pos rfl]
    rw [Option.isSome_or, Option.isSome_some, Bool.or_true]
  rcases runBody_referenceChunks (chunkHashes row.manifest) hstored hnode with
    ⟨hok, cs, href, hcs⟩ | ⟨hrej, e, href⟩
  case inr =>
    rw [Proc.runBody_bind, href]
    have hrejected : s.chunksRejected row := hrej.imp id .inl
    have hquiet : Unnoticed s { s with versions := s.versions ++ [row] } :=
      ⟨rfl, rfl, rfl, ⟨rfl, rfl, rfl, rfl, rfl⟩⟩
    exact .inr (.inl ⟨rfl, hrejected, _, e, rfl, hquiet, rfl, .inl rfl⟩)
  have hpresent : ∀ hash ∈ chunkHashes row.manifest, (s.chunk hash).isSome := by
    intro hash hmem
    by_contra habsent
    exact hok (.inr ⟨hash, hmem, .inl (Option.not_isSome_iff_eq_none.mp habsent)⟩)
  rw [Proc.runBody_bind_of_ok href, replaceCurrent]
  split
  · next hconf =>
    have hnone : s.replacedManifest row = [] := by rw [Db.replacedManifest, if_pos hconf]
    have haccepted : ¬ s.chunksRejected row := by
      rw [Db.chunksRejected, hnone, ← or_assoc]
      rintro (hrej | hover)
      · exact hok hrej
      · simp [chunkHashes] at hover
    refine .inl ⟨rfl, haccepted, _, rfl, ⟨hfresh, hpresent, ?_, rfl, rfl, rfl, rfl, ⟨rfl, rfl, rfl, hcs, rfl⟩⟩⟩
    rw [if_pos hconf]
  · next hconf =>
    rcases runBody_releaseChunks (s := { s with
        versions := s.versions ++ [row],
        versionChunks := s.versionChunks ++ (chunkHashes row.manifest).map fun chunkHash =>
          { versionId := row.versionId, nodeId := row.nodeId, chunkHash },
        chunks := cs }) (chunkHashes (s.replacedManifest row)) with ⟨hfits, cs', hrel, hcs'⟩ | ⟨hover, e, hrel⟩
    case inr =>
      rw [Proc.runBody_bind, hrel]
      exact .inr (.inl ⟨rfl, .inr (.inr hover), _, e, rfl,
        ⟨rfl, rfl, rfl, ⟨rfl, rfl, rfl, hcs, rfl⟩⟩, rfl, .inr ⟨hpresent, rfl⟩⟩)
    rw [Proc.runBody_bind_of_ok hrel]
    have haccepted : ¬ s.chunksRejected row := by
      rw [Db.chunksRejected, ← or_assoc]
      exact not_or.mpr ⟨hok, hfits⟩
    refine .inl ⟨rfl, haccepted, _, runBody_setCurrent hstored, ⟨hfresh, hpresent, ?_, rfl, rfl, rfl, rfl,
      ⟨rfl, rfl, rfl, hcs'.trans hcs, rfl⟩⟩⟩
    rw [if_neg hconf]

variable (be) in
/-- A version that is not stored leaves at most its row behind. -/
theorem unnoticed_insertVersion (row : VersionRow) :
    (∃ s', (insertVersion be row.nodeId row.authorDeviceId row.versionId row.contentHash row.sizeBytes
        row.manifest row.isConflictCopy).runBody s = (s', .ok ()) ∧ Stored row s s') ∨
    ∃ s' e, (insertVersion be row.nodeId row.authorDeviceId row.versionId row.contentHash
        row.sizeBytes row.manifest row.isConflictCopy).runBody s = (s', .error e) ∧ Unnoticed s s' := by
  rcases runBody_insertVersion be (s := s) row with
    ⟨-, -, hok⟩ | ⟨-, -, s', e, hrun, hhalf⟩ | ⟨-, e, hrun⟩
  · exact .inl hok
  · exact .inr ⟨s', e, hrun, hhalf.toUnnoticed⟩
  · exact .inr ⟨s, e, hrun, Unnoticed.refl s⟩

end Version

/-! ### The bodies -/

section Bodies

variable {be : Backend} {call : SubmitCall} {n deviceId : String} {s : Db}

/-- What a row that violates nothing refers to. -/
theorem nodeViolation_none {old : Option NodeRow} {r : NodeRow} (h : s.nodeViolation old r = none) :
    (old.map NodeRow.parentId = some r.parentId ∨
      (r.parentId.any fun p => (s.node p).isNone) = false) ∧
    (old.map NodeRow.liveName = some r.liveName ∨ s.liveNameTaken r = false) := by
  rw [Db.nodeViolation] at h
  split at h
  · cases h
  split at h
  · cases h
  next hparent =>
  split at h
  · cases h
  split at h
  · cases h
  next hname =>
  constructor
  · by_cases hp : old.map NodeRow.parentId = some r.parentId
    · exact .inl hp
    · exact .inr (Bool.not_eq_true _ ▸ fun he => hparent ⟨hp, he⟩)
  · by_cases hl : old.map NodeRow.liveName = some r.liveName
    · exact .inl hl
    · exact .inr (Bool.not_eq_true _ ▸ fun he => hname ⟨hl, he⟩)

theorem nameFree_of_ok {r r' : NodeRow} (h : s.nodeViolation (some r) r' = none) : NameFree s r r' := by
  rcases (nodeViolation_none h).2 with hname | hname
  · exact .inl (Option.some.inj hname).symm
  · exact .inr hname

/-- The log after the insertion of an op of the call. -/
def Db.logged (v : Db) (call : SubmitCall) (n deviceId : String) (payload : OpPayload)
    (b : Option ℕ) : Db :=
  Db.appendOp (opLogRow call n deviceId payload b v.now (v.lastSeq + 1)) (Sequence.bump DbKey v)

/-- The node's latest op in the call's folder is the one that was just inserted. -/
theorem latest_logged {v : Db} (payload : OpPayload) (b : Option ℕ) (hd : v.SeqsDrawn) :
    maxSeq (((v.logged call n deviceId payload b).nodeOps n).filter fun e =>
      e.folderId = call.folderId) = v.lastSeq + 1 := by
  have happend := nodeOps_appendOp_self (s := Sequence.bump DbKey v)
    (e := opLogRow call n deviceId payload b v.now (v.lastSeq + 1))
  have hn : (opLogRow call n deviceId payload b v.now (v.lastSeq + 1)).nodeId = n := rfl
  rw [hn] at happend
  rw [Db.logged, happend, List.filter_append, List.filter_singleton, opLogRow, decide_eq_true rfl,
    cond_true, maxSeq_append_of_le]
  intro f hf
  have hmem : f ∈ v.opLog := (List.mem_filter.mp (List.mem_filter.mp hf).1).1
  have hle := hd.le f hmem
  dsimp only
  omega

variable (call deviceId) in
/-- The row's new `server_seq`, after a part that has shown in the node's row only and the
insertion into the log. -/
theorem commits_logged {v : Db} {row : NodeRow} (payload : OpPayload) (b : Option ℕ) (hd : s.SeqsDrawn)
    (hnode : v.node n = some row) (hother : ∀ m, m ≠ n → v.node m = s.node m)
    (hlog : v.opLog = s.opLog) (hlast : v.lastSeq = s.lastSeq) (hkeys : s.NodeKeys → v.NodeKeys)
    (hf : Fixed s v) :
    ∃ s', (setServerSeq call.folderId n).runBody (v.logged call n deviceId payload b) =
        (s', .ok (s.lastSeq + 1)) ∧
      Commits call n deviceId payload b row s s' := by
  have hdv : v.SeqsDrawn := ⟨fun e he => hlast ▸ hd.le e (hlog ▸ he),
    by rw [Db.opSeqs, hlog]; exact hd.nodup⟩
  rw [runBody_setServerSeq, latest_logged payload b hdv, hlast]
  refine ⟨_, rfl, ?_, fun m hm => ?_, ?_, ?_, fun hk => ?_, ?_⟩
  · have hid : ∀ r : NodeRow, { r with serverSeq := s.lastSeq + 1 }.nodeId = r.nodeId := fun _ => rfl
    have hrow : (v.logged call n deviceId payload b).node n = some row := hnode
    rw [node_update_self hid, hrow]
    rfl
  · rw [← hother m hm]
    exact lookup_update_ne hm fun _ h => h
  · show v.opLog ++ _ = _
    rw [hlog, hlast, hf.now]
  · show v.lastSeq + 1 = _
    rw [hlast]
  · have hmap : (update NodeRow.nodeId n (fun r => { r with serverSeq := s.lastSeq + 1 }) v.nodes).map
        NodeRow.nodeId = v.nodes.map NodeRow.nodeId := map_key_update fun _ h => h
    show (List.map NodeRow.nodeId _).Nodup
    exact hmap ▸ hkeys hk
  · exact ⟨hf.sharedFolders, hf.devices, hf.folderGrants, hf.chunks, hf.now⟩

/-- The end of every body: the op is in the log, the row takes its `server_seq`, and the answer
names it. -/
theorem runBody_finish {α : Type} {p : DbProc α} {a : α} {v w s' : Db} {seq : ℕ}
    (answer : α → ℕ → SubmitOpResponse) (hp : p.runBody v = (w, .ok a))
    (hset : (setServerSeq call.folderId n).runBody w = (s', .ok seq)) :
    (do
      let a ← p
      let serverSeq ← setServerSeq call.folderId n
      pure (answer a serverSeq) : DbProc SubmitOpResponse).runBody v = (s', .ok (answer a seq)) := by
  rw [Proc.runBody_bind_of_ok hp, Proc.runBody_bind_of_ok hset]
  rfl

variable (call) in
theorem applyRow_ok {r : NodeRow} {v : Db} {m : Mutation} (hr : s.node n = some r)
    (hv : v.nodes = update NodeRow.nodeId n (m.applyRow call.now) s.nodes) :
    v.node n = some (m.applyRow call.now r) ∧ (∀ k, k ≠ n → v.node k = s.node k) ∧
      (s.NodeKeys → v.NodeKeys) := by
  refine ⟨?_, ?_, fun hk => ?_⟩
  · rw [Db.node, hv, lookup_update_self fun r h => (m.applyRow_nodeId _ r).trans h]
    rw [Db.node] at hr
    rw [hr]
    rfl
  · intro k hk
    rw [Db.node, hv]
    exact lookup_update_ne hk fun r h => (m.applyRow_nodeId _ r).trans h
  · rw [Db.NodeKeys, hv, map_key_update fun r h => (m.applyRow_nodeId _ r).trans h]
    exact hk

/-- A rename, move or delete goes into the log as it is. -/
theorem runBody_insertOpAndNothing {m : Mutation} (b : ℕ) {v : Db}
    (ha : v.opLogViolation call.folderId deviceId = none)
    (hm : ∀ versionId contentHash sizeBytes manifest,
      m ≠ .newVersion versionId contentHash sizeBytes manifest) :
    (insertVersionAndOp be call n deviceId b m false).runBody v =
      (v.logged call n deviceId (m.logged call.newId false) (some b), .ok "") := by
  have hins : insertVersionAndOp be call n deviceId b m false =
      (insertOpLog be call n deviceId (m.logged call.newId false) (some b) >>= fun _ => pure "") := by
    cases m with
    | newVersion versionId contentHash sizeBytes manifest => exact absurd rfl (hm _ _ _ _)
    | _ => rfl
  rw [hins, Proc.runBody_bind_of_ok (runBody_insertOpLog _ _ ha)]
  rfl

variable (be) in
/-- Renaming, moving or deleting, logged: one update and one op. -/
theorem runBody_metadata {m : Mutation} {r : NodeRow} (b : ℕ) (hd : s.SeqsDrawn)
    (ha : s.opLogViolation call.folderId deviceId = none) (hr : s.node n = some r)
    (hm : ∀ versionId contentHash sizeBytes manifest,
      m ≠ .newVersion versionId contentHash sizeBytes manifest) :
    (∃ s', (do
        applyMetadataMutation be n call.now m
        let _ ← insertVersionAndOp be call n deviceId b m false
        let serverSeq ← setServerSeq call.folderId n
        pure (SubmitOpResponse.applied serverSeq n) : DbProc SubmitOpResponse).runBody s =
          (s', .ok (.applied (s.lastSeq + 1) n)) ∧ NameFree s r (m.applyRow call.now r) ∧
        Commits call n deviceId (m.logged call.newId false) (some b) (m.applyRow call.now r) s s') ∨
    ∃ e, (do
        applyMetadataMutation be n call.now m
        let _ ← insertVersionAndOp be call n deviceId b m false
        let serverSeq ← setServerSeq call.folderId n
        pure (SubmitOpResponse.applied serverSeq n) : DbProc SubmitOpResponse).runBody s =
          (s, .error e) := by
  have hmut : applyMetadataMutation be n call.now m = updateNamed be n (m.applyRow call.now) := by
    cases m with
    | newVersion versionId contentHash sizeBytes manifest => exact absurd rfl (hm _ _ _ _)
    | _ => rfl
  rw [hmut, Proc.runBody_bind, runBody_updateNamed, updateNodes, Proc.runBody_stmt, hr,
    Option.bind_some]
  cases hv : s.nodeViolation (some r) (m.applyRow call.now r) with
  | some e => exact .inr ⟨e, rfl⟩
  | none =>
    left
    have happ := applyRow_ok call (m := m) (v := { s with
      nodes := update NodeRow.nodeId n (m.applyRow call.now) s.nodes }) hr rfl
    obtain ⟨s', hset, hc⟩ := commits_logged call deviceId
      (m.logged call.newId false) (some b) hd happ.1 happ.2.1 rfl rfl happ.2.2 ⟨rfl, rfl, rfl, rfl, rfl⟩
    refine ⟨s', ?_, nameFree_of_ok hv, hc⟩
    exact runBody_finish (fun _ seq => .applied seq n) (runBody_insertOpAndNothing b ha hm) hset

variable (be) in
/-- A new version, logged: it is stored and there is one op more, or nothing shows. -/
theorem runBody_version (versionId contentHash : String) (sizeBytes : ℕ) (manifest : List ChunkRef)
    {r : NodeRow} (b : ℕ) (isConflictCopy : Bool) (answer : String → ℕ → SubmitOpResponse)
    (hd : s.SeqsDrawn) (ha : s.Admits call) (hp : call.principal = .device deviceId)
    (hr : s.node n = some r) :
    (∃ s', (do
        let versionId ← insertVersionAndOp be call n deviceId b
          (.newVersion versionId contentHash sizeBytes manifest) isConflictCopy
        let serverSeq ← setServerSeq call.folderId n
        pure (answer versionId serverSeq) : DbProc SubmitOpResponse).runBody s =
          (s', .ok (answer (if isConflictCopy then call.newId else versionId) (s.lastSeq + 1))) ∧
        Commits call n deviceId
          ((Mutation.newVersion versionId contentHash sizeBytes manifest).logged call.newId isConflictCopy)
          (some b) (if isConflictCopy then r else { r with currentVersionId := some versionId }) s s' ∧
        ∀ hash ∈ chunkHashes manifest, (s.chunk hash).isSome) ∨
    ∃ s' e, (do
        let versionId ← insertVersionAndOp be call n deviceId b
          (.newVersion versionId contentHash sizeBytes manifest) isConflictCopy
        let serverSeq ← setServerSeq call.folderId n
        pure (answer versionId serverSeq) : DbProc SubmitOpResponse).runBody s =
          (s', .error e) ∧ Unnoticed s s' := by
  rcases unnoticed_insertVersion be (s := s)
    { versionId := if isConflictCopy then call.newId else versionId, nodeId := n, manifest, contentHash,
      sizeBytes, authorDeviceId := deviceId, isConflictCopy } with ⟨v, hins, hst⟩ | ⟨v, e, hins, hun⟩
  · left
    have hlog : (insertVersionAndOp be call n deviceId b
        (.newVersion versionId contentHash sizeBytes manifest) isConflictCopy).runBody s =
        (v.logged call n deviceId ((Mutation.newVersion versionId contentHash sizeBytes manifest).logged
          call.newId isConflictCopy) (some b), .ok (if isConflictCopy then call.newId else versionId)) := by
      rw [insertVersionAndOp, Proc.runBody_bind_of_ok hins, Proc.runBody_bind_of_ok
        (runBody_insertOpLog _ _ (opLogViolation_of_admits (ha.fixed hst.fixed) hp))]
      rfl
    have hrow : v.node n = some (if isConflictCopy then r else
        { r with currentVersionId := some versionId }) ∧ (∀ m, m ≠ n → v.node m = s.node m) ∧
        (s.NodeKeys → v.NodeKeys) := by
      cases isConflictCopy with
      | true =>
        have hnodes : v.nodes = s.nodes := hst.nodes
        exact ⟨by rw [Db.node, hnodes]; exact hr, fun m _ => by rw [Db.node, hnodes]; rfl,
          fun hk => by rw [Db.NodeKeys, hnodes]; exact hk⟩
      | false =>
        have happ := applyRow_ok call (v := v)
          (m := .newVersion versionId contentHash sizeBytes manifest) hr hst.nodes
        exact happ
    obtain ⟨s', hset, hc⟩ := commits_logged call deviceId
      ((Mutation.newVersion versionId contentHash sizeBytes manifest).logged call.newId isConflictCopy)
      (some b) hd hrow.1 hrow.2.1 hst.opLog hst.lastSeq hrow.2.2 hst.fixed
    exact ⟨s', runBody_finish answer hlog hset, hc, hst.present⟩
  · right
    rw [insertVersionAndOp, Proc.runBody_bind, Proc.runBody_bind, hins]
    exact ⟨v, e, rfl, hun⟩

theorem checkCollision_readOnly (folderId n : String) (m : Mutation) :
    (checkCollision folderId n m).ReadOnly := by
  have hnext : (nextNameAndParent n m).ReadOnly := by
    cases m with
    | rename newName => exact (Proc.readOnly_read _).bind fun _ => True.intro
    | move newParentId => exact (Proc.readOnly_read _).bind fun _ => True.intro
    | _ => exact True.intro
  refine hnext.bind fun next => ?_
  dsimp only
  split
  · refine (Proc.readOnly_read _).bind fun collision => ?_
    split
    · exact True.intro
    · exact True.intro
  · exact True.intro

theorem previousParentId_readOnly (n : String) (m : Mutation) : (previousParentId n m).ReadOnly := by
  cases m with
  | move newParentId => exact (Proc.readOnly_read _).bind fun _ => True.intro
  | _ => exact True.intro

variable (be) in
/-- **An op on its node's current `server_seq`**, alone. -/
theorem runBody_applyOp {m : Mutation} {r : NodeRow} (b : ℕ) (hd : s.SeqsDrawn) (ha : s.Admits call)
    (hp : call.principal = .device deviceId) (hr : s.node n = some r) :
    (∃ s', (applyOp be call deviceId n b m).runBody s = (s', .ok (.applied (s.lastSeq + 1) n)) ∧
      NameFree s r (m.applyRow call.now r) ∧ (∀ hash ∈ chunkHashes m.manifest, (s.chunk hash).isSome) ∧
      Commits call n deviceId (m.logged call.newId false) (some b) (m.applyRow call.now r) s s') ∨
    ∃ s' e, (applyOp be call deviceId n b m).runBody s = (s', .error e) ∧ Unnoticed s s' := by
  rcases (checkCollision_readOnly call.folderId n m).runBody_cases s with ⟨u, hcol⟩ | ⟨e, hcol⟩
  case inr =>
    rw [applyOp, Proc.runBody_bind, hcol]
    exact .inr ⟨s, e, rfl, Unnoticed.refl s⟩
  rcases (previousParentId_readOnly n m).runBody_cases s with ⟨p, hprev⟩ | ⟨e, hprev⟩
  case inr =>
    rw [applyOp, Proc.runBody_bind_of_ok hcol, Proc.runBody_bind, hprev]
    exact .inr ⟨s, e, rfl, Unnoticed.refl s⟩
  rw [applyOp, Proc.runBody_bind_of_ok hcol, Proc.runBody_bind_of_ok hprev]
  by_cases hm : ∃ versionId contentHash sizeBytes manifest,
      m = .newVersion versionId contentHash sizeBytes manifest
  · obtain ⟨versionId, contentHash, sizeBytes, manifest, rfl⟩ := hm
    have hmut : (applyMetadataMutation be n call.now
        (.newVersion versionId contentHash sizeBytes manifest)).runBody s = (s, .ok ()) := rfl
    rw [Proc.runBody_bind_of_ok hmut]
    rcases runBody_version be versionId contentHash sizeBytes manifest b false (fun _ seq => .applied seq n) hd ha hp hr
      with ⟨s', hrun, hc, hpresent⟩ | hfail
    · exact .inl ⟨s', hrun, .inl rfl, hpresent, hc⟩
    · exact .inr hfail
  · have hm' : ∀ versionId contentHash sizeBytes manifest,
        m ≠ .newVersion versionId contentHash sizeBytes manifest :=
      fun versionId contentHash sizeBytes manifest h => hm ⟨_, _, _, _, h⟩
    have hnil : m.manifest = [] := by
      cases m with
      | newVersion versionId contentHash sizeBytes manifest => exact absurd rfl (hm' _ _ _ _)
      | _ => rfl
    rcases runBody_metadata be b hd (opLogViolation_of_admits ha hp) hr hm' with
      ⟨s', hrun, hname, hc⟩ | ⟨e, hrun⟩
    · exact .inl ⟨s', hrun, hname, by rw [hnil]; nofun, hc⟩
    · exact .inr ⟨s, e, hrun, Unnoticed.refl s⟩

variable (be) in
/-- **The callback for an op on a node**, alone. -/
theorem runBody_mutateBody {m : Mutation} (b : ℕ) (hd : s.SeqsDrawn) (ha : s.Admits call)
    (hp : call.principal = .device deviceId) (hop : call.op = .mutate n b m) :
    (∃ s' a, (mutateBody be call deviceId n b m).runBody s = (s', .ok a) ∧ Served call s s' a) ∨
    ∃ s' e, (mutateBody be call deviceId n b m).runBody s = (s', .error e) ∧ Unnoticed s s' := by
  rw [mutateBody, Proc.runBody_bind_of_ok (runBody_lockKey _), loadNode,
    Proc.runBody_bind_of_ok (Proc.runBody_read _ s)]
  cases hr : s.node n with
  | none => exact .inr ⟨s, _, rfl, Unnoticed.refl s⟩
  | some r =>
    dsimp only
    split
    · next hb =>
      rcases runBody_applyOp be (m := m) b hd ha hp hr with ⟨s', hrun, hname, hpresent, hc⟩ | hfail
      · exact .inl ⟨s', _, hrun, .applied deviceId n b m r hop hr hb hname hpresent hc⟩
      · exact .inr hfail
    · next hb =>
      cases m with
      | newVersion versionId contentHash sizeBytes manifest =>
        rcases runBody_version be versionId contentHash sizeBytes manifest b true
          (fun versionId seq => .conflictCopy seq n versionId) hd ha hp hr
          with ⟨s', hrun, hc, hpresent⟩ | hfail
        · exact .inl ⟨s', _, hrun, .conflictCopy deviceId n b versionId contentHash sizeBytes manifest r
            hop hr hb hpresent hc⟩
        · exact .inr hfail
      | _ => exact .inl ⟨s, _, rfl, .superseded r.serverSeq (Unnoticed.refl s).refused⟩

variable (be) in
/-- **The callback for a create**, alone. -/
theorem runBody_createBody {parentId name : String} {type : NodeType} (hd : s.SeqsDrawn)
    (ha : s.Admits call) (hp : call.principal = .device deviceId)
    (hop : call.op = .create n parentId name type) :
    (∃ s', (createBody be call deviceId n parentId name type).runBody s =
        (s', .ok (.applied (s.lastSeq + 1) n)) ∧ Served call s s' (.applied (s.lastSeq + 1) n)) ∨
    ∃ e, (createBody be call deviceId n parentId name type).runBody s = (s, .error e) := by
  rw [createBody, Proc.runBody_bind_of_ok (runBody_lockKey _),
    Proc.runBody_bind_of_ok (runBody_lockKey _), Proc.runBody_bind, insertNode, Proc.runBody_stmt]
  dsimp only
  by_cases hnew : (s.node n).isSome
  · rw [if_pos hnew]
    exact .inr ⟨_, rfl⟩
  rw [if_neg hnew]
  cases hv : s.nodeViolation none (call.createdRow n parentId name type) with
  | some e =>
    rw [SubmitCall.createdRow] at hv
    rw [hv]
    exact .inr ⟨e, rfl⟩
  | none =>
    left
    have hnone : s.node n = none := Option.not_isSome_iff_eq_none.mp hnew
    have hok := nodeViolation_none hv
    have hparent : (s.node parentId).isSome := by
      have hany := hok.1.resolve_left nofun
      simpa [SubmitCall.createdRow] using hany
    have hname := hok.2.resolve_left nofun
    have hrow : Db.node { s with nodes := s.nodes ++ [call.createdRow n parentId name type] } n =
        some (call.createdRow n parentId name type) := by
      rw [Db.node] at hnone
      rw [Db.node, lookup_append, hnone, lookup_cons, SubmitCall.createdRow, if_pos rfl]
      rfl
    have hother : ∀ m, m ≠ n →
        Db.node { s with nodes := s.nodes ++ [call.createdRow n parentId name type] } m = s.node m := by
      intro m hm
      rw [Db.node, lookup_append, lookup_cons, SubmitCall.createdRow, if_neg (Ne.symm hm), lookup_nil,
        Option.or_none]
      rfl
    have hkeys : s.NodeKeys →
        Db.NodeKeys { s with nodes := s.nodes ++ [call.createdRow n parentId name type] } := by
      intro hk
      rw [Db.NodeKeys, List.map_append, List.nodup_append]
      refine ⟨hk, by simp, fun a ha c hc => ?_⟩
      rw [List.map_singleton, List.mem_singleton, SubmitCall.createdRow] at hc
      obtain ⟨r, hr, rfl⟩ := List.mem_map.mp ha
      exact hc ▸ lookup_eq_none.mp hnone r hr
    rw [SubmitCall.createdRow] at hv
    rw [hv]
    obtain ⟨s', hset, hc⟩ := commits_logged call deviceId
      (.create n parentId name type) none hd hrow hother rfl rfl hkeys ⟨rfl, rfl, rfl, rfl, rfl⟩
    refine ⟨s', ?_, .created deviceId n parentId name type hop hnone hparent hname hc⟩
    exact runBody_finish (fun _ seq => .applied seq n)
      (runBody_insertOpLog _ _ (opLogViolation_of_admits ⟨ha.folder, ha.device⟩ hp)) hset

end Bodies

/-! ### Inside `inTransaction` -/

section Brackets

variable {n : String}

theorem Quiet.steady {α : Type} {p : DbProc α} (h : Quiet n p) : p.Steady := by
  induction p with
  | done a => exact True.intro
  | fail e => exact True.intro
  | act put next ih =>
    refine ⟨fun v s => ⟨?_, (h.1 v).bump s⟩, fun v => ih v (h.2.2 v)⟩
    show (put v s).lastSeq + 1 = s.lastSeq + 1
    rw [(h.1 v).lastSeq]
  | draw next _ => exact h.elim
  | ctl c next ih =>
    cases c with
    | lock k => exact ih h.2.2
    | _ => exact h.elim

theorem steady_lockKey (k : DbKey) : (lockKey .pg k).Steady := True.intro

theorem steady_insertOpLog {call : SubmitCall} {deviceId : String} {payload : OpPayload}
    {b : Option ℕ} : (insertOpLog .pg call n deviceId payload b).Steady :=
  fun _ => Proc.Steady.stmt fun _ _ => ⟨rfl, rfl⟩

theorem steady_setServerSeq {folderId : String} : (setServerSeq folderId n).Steady := by
  have hupdate (seq : ℕ) : (updateNodes n fun r => { r with serverSeq := seq }).Steady :=
    Proc.Steady.stmt fun _ _ => ⟨rfl, rfl⟩
  exact (Proc.Steady.read _).bind fun seq => (hupdate seq).bind fun _ => True.intro

theorem steady_insertVersionAndOp {call : SubmitCall} {deviceId : String} {b : ℕ} {m : Mutation}
    {isConflictCopy : Bool} : (insertVersionAndOp .pg call n deviceId b m isConflictCopy).Steady := by
  cases m with
  | newVersion versionId contentHash sizeBytes manifest =>
    have hversion := quiet_insertVersion .pg (n := n) deviceId
      (if isConflictCopy then call.newId else versionId) contentHash sizeBytes manifest isConflictCopy
    exact hversion.steady.bind fun _ => steady_insertOpLog.bind fun _ => True.intro
  | _ => exact steady_insertOpLog.bind fun _ => True.intro

theorem steady_mutateBody {call : SubmitCall} {deviceId : String} {b : ℕ} {m : Mutation} :
    (mutateBody .pg call deviceId n b m).Steady := by
  refine (steady_lockKey _).bind fun _ => (Proc.Steady.read _).bind fun row => ?_
  cases row with
  | none => exact True.intro
  | some r =>
    dsimp only
    split
    · exact (quiet_checkCollision (n := n) call.folderId m).steady.bind fun _ =>
        (quiet_previousParentId m).steady.bind fun _ =>
          (quiet_applyMetadataMutation call.now m).steady.bind fun _ =>
            steady_insertVersionAndOp.bind fun _ => steady_setServerSeq.bind fun _ => True.intro
    · cases m with
      | newVersion versionId contentHash sizeBytes manifest =>
        exact steady_insertVersionAndOp.bind fun _ => steady_setServerSeq.bind fun _ => True.intro
      | _ => exact True.intro

theorem steady_createBody {call : SubmitCall} {deviceId parentId name : String} {type : NodeType} :
    (createBody .pg call deviceId n parentId name type).Steady := by
  have hinsert : (insertNode { nodeId := n, folderId := call.folderId, parentId := some parentId,
                               name, type }).Steady := Proc.Steady.stmt fun _ _ => ⟨rfl, rfl⟩
  exact (steady_lockKey _).bind fun _ => (steady_lockKey _).bind fun _ => hinsert.bind fun _ =>
    steady_insertOpLog.bind fun _ => steady_setServerSeq.bind fun _ => True.intro

/-- What `inTransaction` needs of its callback. On Postgres its writes commute with drawing from the sequence, since
a draw is not rolled back; on SQLite it has no brackets of its own. -/
def Callback (be : Backend) {α : Type} (body : DbProc α) : Prop :=
  match be with
  | .pg => body.Steady
  | .sqlite => body.Unbracketed

namespace Callback

variable {be : Backend} {α β : Type}

theorem pure (a : α) : Callback be (Pure.pure a : DbProc α) := by
  cases be <;> exact True.intro

theorem bind {p : DbProc α} {f : α → DbProc β} (hp : Callback be p) (hf : ∀ a, Callback be (f a)) :
    Callback be (p >>= f) := by
  cases be with
  | pg => exact Proc.Steady.bind hp hf
  | sqlite => exact Proc.Unbracketed.bind hp hf

/-- A statement that has nothing to do with the sequence. -/
theorem stmt {check : Db → Option ApiError} {write : Db → Db → Db}
    (h : ∀ v s, (write v s).lastSeq = s.lastSeq ∧
      write v (Sequence.bump DbKey s) = Sequence.bump DbKey (write v s)) :
    Callback be (Proc.stmt check write : DbProc Unit) := by
  cases be with
  | pg => exact Proc.Steady.stmt fun v s => ⟨congrArg (· + 1) (h v s).1, (h v s).2⟩
  | sqlite => exact Proc.Unbracketed.stmt check write

theorem readOnly {p : DbProc α} (hp : p.ReadOnly) : Callback be p := by
  cases be with
  | pg => exact hp.steady
  | sqlite => exact hp.unbracketed

theorem lockKey (k : DbKey) : Callback be (Server.lockKey be k) := by
  cases be with
  | pg => exact steady_lockKey k
  | sqlite => exact True.intro

end Callback

theorem bump_iterate (k : ℕ) (s : Db) :
    (Sequence.bump DbKey)^[k] s = { s with lastSeq := s.lastSeq + k } := by
  induction k generalizing s with
  | zero => rfl
  | succ k ih =>
    rw [Function.iterate_succ_apply, ih]
    show ({ s with lastSeq := s.lastSeq + 1 + k } : Db) = _
    rw [Nat.add_assoc, Nat.add_comm 1 k]

/-- A transaction that was rolled back shows at most in the sequence. -/
theorem refused_bump (k : ℕ) (s : Db) : Refused s ((Sequence.bump DbKey)^[k] s) := by
  rw [bump_iterate]
  exact ⟨rfl, rfl, Nat.le_add_right _ _, ⟨rfl, rfl, rfl, rfl, rfl⟩⟩

/-- **A callback run alone** answers what it answers without the brackets, or is refused. -/
theorem exec_inTransaction {be : Backend} {α : Type} {body : DbProc α} (hb : Callback be body)
    (s : Db) :
    (∃ s' a, body.runBody s = (s', .ok a) ∧ (inTransaction be n body).exec s none = (s', .ok a)) ∨
    ∃ s' s'' e, body.runBody s = (s', .error e) ∧
      (inTransaction be n body).exec s none = (s'', .error e) ∧ (s'' = s' ∨ Refused s s'') := by
  cases be with
  | pg =>
    rcases Proc.exec_transaction hb s with hok | ⟨s', e, k, hrun, hexec⟩
    · exact .inl hok
    · exact .inr ⟨s', _, e, hrun, hexec, .inr (refused_bump k s)⟩
  | sqlite =>
    have hexec : (inTransaction .sqlite n body).exec s none = body.runBody s :=
      (Proc.exec_eq_runBody (Proc.Unbracketed.unprotected hb _) s).trans
        (Proc.runBody_unprotected _ body s)
    rcases hrun : body.runBody s with ⟨s', e | a⟩
    · exact .inr ⟨s', s', e, rfl, hexec.trans hrun, .inl rfl⟩
    · exact .inl ⟨s', a, rfl, hexec.trans hrun⟩

/-- What a callback run alone leaves: what its body leaves, or the database as it was but for the
sequence. -/
theorem state_inTransaction {be : Backend} {α : Type} {body : DbProc α} {P : Db → Prop}
    (hb : Callback be body) {s : Db} (hbody : P (body.runBody s).1)
    (hseq : ∀ k, P { s with lastSeq := s.lastSeq + k }) : P ((inTransaction be n body).exec s none).1 := by
  cases be with
  | pg =>
    rcases Proc.exec_transaction hb s with ⟨s', a, hrun, hexec⟩ | ⟨s', e, k, -, hexec⟩
    · rw [hrun] at hbody
      rw [inTransaction, hexec]
      exact hbody
    · rw [inTransaction, hexec, bump_iterate]
      exact hseq k
  | sqlite =>
    have hun : (inTransaction .sqlite n body).Unbracketed := Proc.Unbracketed.unprotected hb _
    rw [Proc.exec_eq_runBody hun, inTransaction, Proc.runBody_unprotected]
    exact hbody

/-- The handler behind a callback starts where the callback has failed. -/
theorem exec_inTransaction_attempt {be : Backend} {α : Type} {body : DbProc α} {h : ApiError → DbProc α}
    (hb : Callback be body) (hh : ∀ e, (h e).Unbracketed) {s s' : Db} {r : Except ApiError α}
    (hexec : (inTransaction be n body).exec s none = (s', r)) :
    ((inTransaction be n body).attempt h).exec s none = match r with
      | .ok a => (s', .ok a)
      | .error e => (h e).runBody s' := by
  cases be with
  | pg =>
    have hexec' : (Proc.transaction body).exec s none = (s', r) := hexec
    show ((Proc.transaction body).attempt h).exec s none = _
    rw [Proc.exec_transaction_attempt hb, hexec']
    cases r with
    | ok a => rfl
    | error e => exact Proc.exec_eq_runBody (hh e) s'
  | sqlite =>
    have hun : (inTransaction .sqlite n body).Unbracketed := Proc.Unbracketed.unprotected hb _
    rw [Proc.exec_eq_runBody hun] at hexec
    rw [Proc.exec_eq_runBody (hun.attempt hh), Proc.runBody_attempt, hexec]
    cases r <;> rfl

/-- A handler that only reads shows in the answer only. -/
theorem state_inTransaction_attempt {be : Backend} {α : Type} {body : DbProc α} {h : ApiError → DbProc α}
    (hb : Callback be body) (hh : ∀ e, (h e).ReadOnly) (s : Db) :
    (((inTransaction be n body).attempt h).exec s none).1 = ((inTransaction be n body).exec s none).1 := by
  rcases hexec : (inTransaction be n body).exec s none with ⟨s', e | a⟩
  · rw [exec_inTransaction_attempt hb (fun e => (hh e).unbracketed) hexec]
    exact (hh e).runBody s'
  · rw [exec_inTransaction_attempt hb (fun e => (hh e).unbracketed) hexec]

end Brackets

theorem callback_mutateBody (be : Backend) (call : SubmitCall) (deviceId n : String) (b : ℕ)
    (m : Mutation) : Callback be (mutateBody be call deviceId n b m) := by
  cases be with
  | pg => exact steady_mutateBody
  | sqlite => exact direct_mutateBody.unbracketed

theorem callback_createBody (be : Backend) (call : SubmitCall) (deviceId n parentId name : String)
    (type : NodeType) : Callback be (createBody be call deviceId n parentId name type) := by
  cases be with
  | pg => exact steady_createBody
  | sqlite => exact direct_createBody.unbracketed

/-! ### The call -/

section Serve

variable {be : Backend} {call : SubmitCall} {s : Db}

theorem Refused.refl (s : Db) : Refused s s := (Unnoticed.refl s).refused

/-- A check that only reads, in front of a call run alone. -/
theorem exec_check {α β : Type} {p : DbProc α} {f : α → DbProc β} (hp : p.ReadOnly) (s : Db) :
    (∃ a, (p >>= f).exec s none = (f a).exec s none) ∨ ∃ e, (p >>= f).exec s none = (s, .error e) := by
  rw [Proc.exec_bind p f hp.unbracketed]
  rcases hp.runBody_cases s with ⟨a, h⟩ | ⟨e, h⟩
  · exact .inl ⟨a, by rw [h]⟩
  · exact .inr ⟨e, by rw [h]⟩

/-- What a call can do, alone. -/
def Outcome (call : SubmitCall) (s : Db) : Db × Except ApiError SubmitOpResponse → Prop
  | (s', .ok a) => Served call s s' a
  | (s', .error _) => Refused s s'

/-- A create answers what its callback answers; an error of it is looked into, and nothing is
written any more. -/
theorem exec_createNode (be : Backend) (call : SubmitCall) (deviceId n parentId name : String)
    (type : NodeType) (s : Db) :
    (∃ s' a, (inTransaction be n (createBody be call deviceId n parentId name type)).exec s none = (s', .ok a) ∧
      (createNode be call deviceId n parentId name type).exec s none = (s', .ok a)) ∨
    ∃ s' e r, (inTransaction be n (createBody be call deviceId n parentId name type)).exec s none =
        (s', .error e) ∧
      (createNode be call deviceId n parentId name type).exec s none = (s', r) ∧
      ((∃ e', r = .error e') ∨ ∃ seq, r = .ok (.superseded seq)) := by
  have hcallback := callback_createBody be call deviceId n parentId name type
  rcases hexec : (inTransaction be n (createBody be call deviceId n parentId name type)).exec s none with
    ⟨s', e | a⟩
  · refine .inr ⟨s', e, ?_⟩
    rw [createNode, exec_inTransaction_attempt hcallback ?_ hexec]
    · dsimp only
      rw [Proc.runBody_bind_of_ok (Proc.runBody_read _ s')]
      cases s'.winner call.folderId parentId name with
      | none => exact ⟨_, rfl, rfl, .inl ⟨_, rfl⟩⟩
      | some winner => exact ⟨_, rfl, rfl, .inr ⟨winner.serverSeq, rfl⟩⟩
    · refine fun e => (Proc.readOnly_read _).unbracketed.bind fun winner => ?_
      cases winner <;> exact True.intro
  · refine .inl ⟨s', a, rfl, ?_⟩
    rw [createNode, exec_inTransaction_attempt hcallback ?_ hexec]
    refine fun e => (Proc.readOnly_read _).unbracketed.bind fun winner => ?_
    cases winner <;> exact True.intro

theorem outcome_createNode {deviceId n parentId name : String} {type : NodeType} (hd : s.SeqsDrawn)
    (ha : s.Admits call) (hp : call.principal = .device deviceId)
    (hop : call.op = .create n parentId name type) :
    Outcome call s ((createNode be call deviceId n parentId name type).exec s none) := by
  have hcallback := callback_createBody be call deviceId n parentId name type
  have hbody := runBody_createBody be hd ha hp hop
  have hbracket := exec_inTransaction (n := n) hcallback s
  rcases exec_createNode be call deviceId n parentId name type s with
    ⟨s', a, htx, hexec⟩ | ⟨s', e, r, htx, hexec, hr⟩
  · rw [hexec]
    rw [htx] at hbracket
    rcases hbracket with ⟨s₁, a₁, hrun, he⟩ | ⟨s₁, s₂, e₁, -, he, -⟩
    · cases he
      rcases hbody with ⟨v, hv, hserved⟩ | ⟨e, hv⟩
      · cases hrun.symm.trans hv
        exact hserved
      · cases hrun.symm.trans hv
    · cases he
  · rw [hexec]
    rw [htx] at hbracket
    rcases hbracket with ⟨s₁, a₁, -, he⟩ | ⟨s₁, s₂, e₁, hrun, he, hs⟩
    · cases he
    · cases he
      have hrefused : Refused s s' := by
        rcases hbody with ⟨v, hv, -⟩ | ⟨e', hv⟩
        · cases hrun.symm.trans hv
        · cases hrun.symm.trans hv
          exact hs.elim (fun h => h ▸ Refused.refl s) id
      rcases hr with ⟨e', rfl⟩ | ⟨seq, rfl⟩
      · exact hrefused
      · exact .superseded seq hrefused

/-- **A call, run alone on either database**: its answer tells what it did, and an error that
it did nothing to the nodes and the log. -/
theorem serve_outcome (be : Backend) (hd : s.SeqsDrawn) (ha : s.Admits call) :
    Outcome call s (serve be call s) := by
  rw [serve, submitOp]
  cases hp : call.principal with
  | user userId => exact Refused.refl s
  | device deviceId =>
    cases hop : call.op with
    | create n parentId name type =>
      dsimp only
      rcases exec_check (f := fun _ => createNode be call deviceId n parentId name type)
        (requireWrite_readOnly parentId (.device deviceId)) s with ⟨u, h⟩ | ⟨e, h⟩
      · rw [h]
        exact outcome_createNode hd ha hp hop
      · rw [h]
        exact Refused.refl s
    | mutate n b m =>
      dsimp only
      rcases exec_check (f := fun _ => checkMoveTarget call.folderId m >>= fun _ =>
        inTransaction be n (mutateBody be call deviceId n b m))
        (requireWrite_readOnly n (.device deviceId)) s with ⟨u, h⟩ | ⟨e, h⟩
      case inr =>
        rw [h]
        exact Refused.refl s
      rw [h]
      rcases exec_check (f := fun _ => inTransaction be n (mutateBody be call deviceId n b m))
        (checkMoveTarget_readOnly call.folderId m) s with ⟨u, h⟩ | ⟨e, h⟩
      case inr =>
        rw [h]
        exact Refused.refl s
      rw [h]
      have hbody := runBody_mutateBody be b hd ha hp hop
      rcases exec_inTransaction (n := n) (callback_mutateBody be call deviceId n b m) s with
        ⟨s', a, hrun, hexec⟩ | ⟨s', s'', e, hrun, hexec, hs⟩
      · rw [hexec]
        rcases hbody with ⟨v, c, hv, hserved⟩ | ⟨v, e, hv, -⟩
        · rw [hrun] at hv
          cases hv
          exact hserved
        · rw [hrun] at hv
          cases hv
      · rw [hexec]
        rcases hbody with ⟨v, c, hv, -⟩ | ⟨v, e', hv, hun⟩
        · rw [hrun] at hv
          cases hv
        rw [hrun] at hv
        cases hv
        exact hs.elim (fun h => h ▸ hun.refused) id

end Serve

/-! ### Histories of calls -/

section History

variable {call : SubmitCall} {s s' : Db}

/-- What every history of calls keeps, from a database where it holds. -/
structure Db.Consistent (s : Db) : Prop where
  drawn : s.SeqsDrawn
  keys : s.NodeKeys
  rows : ∀ n r, s.node n = some r → r.serverSeq ≤ s.lastSeq
  ops : ∀ e ∈ s.opLog, ∃ r, s.node e.nodeId = some r ∧ e.serverSeq ≤ r.serverSeq

theorem Db.Consistent.mem_rows (h : s.Consistent) {r : NodeRow} (hr : r ∈ s.nodes) :
    r.serverSeq ≤ s.lastSeq :=
  h.rows r.nodeId r (lookup_of_mem h.keys hr)

theorem Refused.node (h : Refused s s') (n : String) : s'.node n = s.node n := by
  rw [Db.node, h.nodes, Db.node]

theorem Refused.consistent (h : Refused s s') (hc : s.Consistent) : s'.Consistent where
  drawn := ⟨fun e he => (hc.drawn.le e (h.opLog ▸ he)).trans h.lastSeq,
    by rw [Db.opSeqs, h.opLog]; exact hc.drawn.nodup⟩
  keys := by rw [Db.NodeKeys, h.nodes]; exact hc.keys
  rows n r hr := (hc.rows n r (h.node n ▸ hr)).trans h.lastSeq
  ops e he := by
    obtain ⟨r, hr, hle⟩ := hc.ops e (h.opLog ▸ he)
    exact ⟨r, (h.node _).trans hr, hle⟩

section Commits

variable {n deviceId : String} {payload : OpPayload} {b : Option ℕ} {row : NodeRow}

theorem Commits.mem_opLog (h : Commits call n deviceId payload b row s s') {e : OpLogRow} :
    e ∈ s'.opLog ↔ e ∈ s.opLog ∨ e = opLogRow call n deviceId payload b s.now (s.lastSeq + 1) := by
  rw [h.opLog, List.mem_append, List.mem_singleton]

theorem Commits.seqsDrawn (h : Commits call n deviceId payload b row s s') (hd : s.SeqsDrawn) :
    s'.SeqsDrawn where
  le e he := by
    rw [h.lastSeq]
    rcases h.mem_opLog.mp he with he | rfl
    · exact (hd.le e he).trans (Nat.le_succ _)
    · exact le_rfl
  nodup := by
    rw [Db.opSeqs, h.opLog, List.map_append, List.nodup_append]
    refine ⟨hd.nodup, by simp, fun a ha c hc => ?_⟩
    obtain ⟨e, he, rfl⟩ := List.mem_map.mp ha
    have hle := hd.le e he
    have hseq : c = s.lastSeq + 1 := by simpa [opLogRow] using hc
    omega

theorem Commits.consistent (h : Commits call n deviceId payload b row s s') (hc : s.Consistent) :
    s'.Consistent where
  drawn := h.seqsDrawn hc.drawn
  keys := h.keys hc.keys
  rows m r hr := by
    rw [h.lastSeq]
    by_cases hm : m = n
    · subst hm
      rw [h.node] at hr
      cases hr
      exact le_rfl
    · rw [h.other m hm] at hr
      exact (hc.rows m r hr).trans (Nat.le_succ _)
  ops e he := by
    rcases h.mem_opLog.mp he with he | rfl
    · by_cases hm : e.nodeId = n
      · rw [hm]
        exact ⟨_, h.node, (hc.drawn.le e he).trans (Nat.le_succ _)⟩
      · obtain ⟨r, hr, hle⟩ := hc.ops e he
        exact ⟨r, (h.other _ hm).trans hr, hle⟩
    · exact ⟨_, h.node, le_rfl⟩

end Commits

/-- Every answer but `superseded` comes with an op of the call's node, logged above all others. -/
theorem Served.cases_log {a : SubmitOpResponse} (h : Served call s s' a) :
    Refused s s' ∨ ∃ deviceId payload row,
      Commits call call.op.nodeId deviceId payload call.op.basedOnSeq row s s' := by
  cases h with
  | created deviceId n parentId name type hop hnew hparent hname h =>
    rw [hop]
    exact .inr ⟨deviceId, _, _, h⟩
  | applied deviceId n b m r hop hr hb hname hchunks h =>
    rw [hop]
    exact .inr ⟨deviceId, _, _, h⟩
  | conflictCopy deviceId n b versionId contentHash sizeBytes manifest r hop hr hb hchunks h =>
    rw [hop]
    exact .inr ⟨deviceId, _, _, h⟩
  | superseded seq h => exact .inl h

/-- A call appends one op of its node or leaves nodes and log alone. -/
theorem serve_log (be : Backend) (hd : s.SeqsDrawn) (ha : s.Admits call) :
    Refused s (serve be call s).1 ∨ ∃ deviceId payload row,
      Commits call call.op.nodeId deviceId payload call.op.basedOnSeq row s (serve be call s).1 := by
  have h := serve_outcome be hd ha
  rcases hs : serve be call s with ⟨s', e | a⟩
  · rw [hs] at h
    exact .inl h
  · rw [hs] at h
    exact Served.cases_log h

theorem serve_fixed (be : Backend) (hd : s.SeqsDrawn) (ha : s.Admits call) :
    Fixed s (serve be call s).1 := by
  rcases serve_log be hd ha with h | ⟨deviceId, payload, row, h⟩
  · exact h.fixed
  · exact h.fixed

/-- **One call** keeps the database consistent. -/
theorem serve_consistent (be : Backend) (hc : s.Consistent) (ha : s.Admits call) :
    (serve be call s).1.Consistent := by
  rcases serve_log be hc.drawn ha with h | ⟨deviceId, payload, row, h⟩
  · exact h.consistent hc
  · exact h.consistent hc

theorem serve_lastSeq (be : Backend) (hd : s.SeqsDrawn) (ha : s.Admits call) :
    s.lastSeq ≤ (serve be call s).1.lastSeq := by
  rcases serve_log be hd ha with h | ⟨deviceId, payload, row, h⟩
  · exact h.lastSeq
  · rw [h.lastSeq]
    exact Nat.le_succ _

end History

theorem raceDb_consistent : raceDb.Consistent where
  drawn := raceDb_seqsValid.drawn
  keys := by
    rw [Db.NodeKeys]
    decide
  rows n r hr := by
    have hall : ∀ r ∈ raceDb.nodes, r.serverSeq = 0 := by decide
    exact (hall r (mem_of_lookup hr)).le
  ops := nofun

end Valv.Server
