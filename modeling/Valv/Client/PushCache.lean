import Valv.Client.Pull

/-!
# The push cache

Size and time that `push_local` and the watcher record for a node, so that a file that still has them is not
read again.

* `Mirror.caches`, `Mirror.currentContent`: what is recorded, and the content of the current version.
* `Mirror.Sound`: what is recorded for a node describes its current version.
* `sound_updatePushedCache`, `sound_upsertNode_new`: the statements that write the rows.
* `Mirror.PageTells`, `Mirror.ResyncTells`: the pages and the snapshots that leave a mirror sound.
* `sound_applyPage`, `sound_applyTreeSnapshot`: that they do.
-/

namespace Valv.Client

open Valv.Table Valv.Server

/-- This size and this time are recorded for the node. -/
def Mirror.caches (m : Mirror) (nodeId : String) (sizeBytes mtimeNanos : ℕ) : Bool :=
  (m.getNode nodeId).any fun r => r.pushedSizeBytes = some sizeBytes && r.pushedMtimeNanos = some mtimeNanos

/-- The content hash of the node's current version, looked up as `process_existing_file` does. -/
def Mirror.currentContent (m : Mirror) (nodeId : String) : Option String :=
  ((m.getNode nodeId).bind fun r => m.getVersion (r.currentVersionId.getD "")).map LocalVersion.contentHash

/-- The node ids are keys. -/
def Mirror.Keyed (m : Mirror) : Prop := (m.nodes.map LocalNode.nodeId).Nodup

/-- Nothing is recorded for the node. -/
def Mirror.Unrecorded (m : Mirror) (nodeId : String) : Prop :=
  ∀ sizeBytes mtimeNanos, ¬m.caches nodeId sizeBytes mtimeNanos

section Sound

variable (content : ℕ → ℕ → List ChunkRef) (contentHash : List ChunkRef → String)

/-- The size and the time recorded for the node are those of its current version.  What they tell of a file is its
chunks, as long as files of one size and one time do not differ. -/
def Mirror.Told (m : Mirror) (nodeId : String) : Prop :=
  ∀ sizeBytes mtimeNanos, m.caches nodeId sizeBytes mtimeNanos →
    m.currentContent nodeId = some (contentHash (content sizeBytes mtimeNanos))

/-- The invariant of the mirror between two steps of the daemon: one row for a node, and no pair of size and time
that does not describe the node's current version. -/
structure Mirror.Sound (m : Mirror) : Prop where
  keyed : m.Keyed
  told (nodeId : String) : m.Told content contentHash nodeId

end Sound

/-! ### Statements -/

/-- The columns that the push cache is about. -/
def LocalNode.pushColumns (r : LocalNode) : Option String × Option ℕ × Option ℕ :=
  (r.currentVersionId, r.pushedSizeBytes, r.pushedMtimeNanos)

/-- The node's row has these columns as before. -/
def RowKept (nodeId : String) (m m' : Mirror) : Prop :=
  (m'.getNode nodeId).map LocalNode.pushColumns = (m.getNode nodeId).map LocalNode.pushColumns

/-- Every version there is stays, with its content hash. -/
def VersionsKept (m m' : Mirror) : Prop :=
  ∀ versionId v, m.getVersion versionId = some v →
    ∃ v', m'.getVersion versionId = some v' ∧ v'.contentHash = v.contentHash

/-- The id names no other content: a version row that is there already under this id has this content hash. -/
def Mirror.Agrees (m : Mirror) (versionId contentHash : String) : Prop :=
  ∀ old, m.getVersion versionId = some old → old.contentHash = contentHash

section Statements

variable {content : ℕ → ℕ → List ChunkRef} {contentHash : List ChunkRef → String} {m m' m'' : Mirror}
  {nodeId k : String} {sizeBytes mtimeNanos : ℕ}

theorem caches_iff : m.caches nodeId sizeBytes mtimeNanos ↔ ∃ r, m.getNode nodeId = some r ∧
    r.pushedSizeBytes = some sizeBytes ∧ r.pushedMtimeNanos = some mtimeNanos := by
  simp [Mirror.caches, Option.any_eq_true]

theorem VersionsKept.of_versions (h : m'.versions = m.versions) : VersionsKept m m' := by
  intro versionId v hv
  refine ⟨v, ?_, rfl⟩
  rw [Mirror.getVersion, h]
  exact hv

theorem VersionsKept.trans (h : VersionsKept m m') (h' : VersionsKept m' m'') : VersionsKept m m'' := by
  intro versionId v hv
  obtain ⟨v', hv', hhash⟩ := h versionId v hv
  obtain ⟨v'', hv'', hhash'⟩ := h' versionId v' hv'
  exact ⟨v'', hv'', hhash'.trans hhash⟩

theorem caches_of_rowKept (hrow : RowKept nodeId m m') (h : m'.caches nodeId sizeBytes mtimeNanos) :
    m.caches nodeId sizeBytes mtimeNanos := by
  obtain ⟨r', hr', hsize, htime⟩ := caches_iff.mp h
  rw [RowKept, hr'] at hrow
  obtain ⟨r, hr, hcolumns⟩ := Option.map_eq_some_iff.mp hrow.symm
  have hpair := (Prod.mk.inj hcolumns).2
  exact caches_iff.mpr ⟨r, hr, (Prod.mk.inj hpair).1.trans hsize, (Prod.mk.inj hpair).2.trans htime⟩

theorem currentContent_of_kept {hash : String} (hrow : RowKept nodeId m m') (hversions : VersionsKept m m')
    (h : m.currentContent nodeId = some hash) : m'.currentContent nodeId = some hash := by
  obtain ⟨v, hv, hhash⟩ := Option.map_eq_some_iff.mp h
  obtain ⟨r, hr, hversion⟩ := Option.bind_eq_some_iff.mp hv
  rw [RowKept, hr] at hrow
  obtain ⟨r', hr', hcolumns⟩ := Option.map_eq_some_iff.mp hrow
  obtain ⟨v', hv', hhash'⟩ := hversions _ _ hversion
  rw [Mirror.currentContent, hr', Option.bind_some, (Prod.mk.inj hcolumns).1, hv', Option.map_some, hhash', hhash]

theorem Mirror.Told.kept (h : m.Told content contentHash nodeId) (hrow : RowKept nodeId m m')
    (hversions : VersionsKept m m') : m'.Told content contentHash nodeId :=
  fun a b hc => currentContent_of_kept hrow hversions (h a b (caches_of_rowKept hrow hc))

/-- A change that no row of the push cache shows. -/
theorem Mirror.Sound.kept (h : m.Sound content contentHash) (hkeyed : m'.Keyed) (hrows : ∀ n, RowKept n m m')
    (hversions : VersionsKept m m') : m'.Sound content contentHash :=
  ⟨hkeyed, fun n => (h.told n).kept (hrows n) hversions⟩

theorem Mirror.Sound.of_tables (h : m.Sound content contentHash) (hnodes : m'.nodes = m.nodes)
    (hversions : m'.versions = m.versions) : m'.Sound content contentHash := by
  have hrows : ∀ n, RowKept n m m' := fun n => by rw [RowKept, Mirror.getNode, Mirror.getNode, hnodes]
  have hkeyed : m'.Keyed := by
    rw [Mirror.Keyed, hnodes]
    exact h.keyed
  exact h.kept hkeyed hrows (.of_versions hversions)

theorem rowKept_of_getNode (h : m'.getNode nodeId = m.getNode nodeId) : RowKept nodeId m m' := by rw [RowKept, h]

theorem rowKept_updateNode {f : LocalNode → LocalNode} (hid : ∀ r, (f r).nodeId = r.nodeId)
    (hcolumns : ∀ r, (f r).pushColumns = r.pushColumns) (n : String) : RowKept n m (m.updateNode nodeId f) := by
  by_cases hn : n = nodeId
  · subst hn
    rw [RowKept, getNode_updateNode_self hid, Option.map_map]
    exact Option.map_congr fun r _ => hcolumns r
  · exact rowKept_of_getNode (getNode_updateNode_ne hid hn)

/-- An update of columns that the push cache is not about. -/
theorem sound_updateNode (h : m.Sound content contentHash) {f : LocalNode → LocalNode}
    (hid : ∀ r, (f r).nodeId = r.nodeId) (hcolumns : ∀ r, (f r).pushColumns = r.pushColumns) :
    (m.updateNode nodeId f).Sound content contentHash :=
  h.kept (nodup_updateNode hid h.keyed) (rowKept_updateNode hid hcolumns) (.of_versions rfl)

theorem getVersion_upsertVersion_self (v : LocalVersion) : (m.upsertVersion v).getVersion v.versionId =
    some (((m.getVersion v.versionId).map fun old =>
      { v with contentMaterialized := old.contentMaterialized }).getD v) :=
  lookup_upsert_self fun _ _ => rfl

theorem getVersion_upsertVersion_ne (v : LocalVersion) (hk : k ≠ v.versionId) :
    (m.upsertVersion v).getVersion k = m.getVersion k :=
  lookup_upsert_ne hk fun _ _ => rfl

/-- The content hash under the id of a version that was written. -/
theorem contentHash_upsertVersion (v : LocalVersion) :
    ((m.upsertVersion v).getVersion v.versionId).map LocalVersion.contentHash = some v.contentHash := by
  rw [getVersion_upsertVersion_self]
  cases m.getVersion v.versionId <;> rfl

theorem versionsKept_upsertVersion {v : LocalVersion} (h : m.Agrees v.versionId v.contentHash) :
    VersionsKept m (m.upsertVersion v) := by
  intro versionId old hold
  by_cases hid : versionId = v.versionId
  · subst hid
    obtain ⟨v', hv', hhash⟩ := Option.map_eq_some_iff.mp (contentHash_upsertVersion (m := m) v)
    exact ⟨v', hv', hhash.trans (h old hold).symm⟩
  · exact ⟨old, (getVersion_upsertVersion_ne v hid).trans hold, rfl⟩

theorem sound_upsertVersion (h : m.Sound content contentHash) {v : LocalVersion}
    (hv : m.Agrees v.versionId v.contentHash) : (m.upsertVersion v).Sound content contentHash :=
  h.kept h.keyed (fun _ => rowKept_of_getNode rfl) (versionsKept_upsertVersion hv)

theorem getNode_recordVersion_self {versionId : String} {serverSeq : ℕ} :
    (m.recordVersion nodeId versionId serverSeq false).getNode nodeId =
      (m.getNode nodeId).map fun r => { r with currentVersionId := some versionId, serverSeq } :=
  getNode_updateNode_self fun _ => rfl

/-- A version that is recorded as applied is the current one. -/
theorem currentContent_recordVersion {v : LocalVersion} {serverSeq : ℕ} (h : (m.getNode nodeId).isSome) :
    ((m.upsertVersion v).recordVersion nodeId v.versionId serverSeq false).currentContent nodeId = some v.contentHash := by
  obtain ⟨r, hr⟩ := Option.isSome_iff_exists.mp h
  have hnode : ((m.upsertVersion v).recordVersion nodeId v.versionId serverSeq false).getNode nodeId =
      some { r with currentVersionId := some v.versionId, serverSeq } := by
    rw [getNode_recordVersion_self, getNode_upsertVersion, hr]
    rfl
  rw [Mirror.currentContent, hnode]
  exact contentHash_upsertVersion v

/-- The other nodes, when a version is recorded. -/
theorem told_recordVersion_ne (h : m.Sound content contentHash) {v : LocalVersion} {serverSeq : ℕ}
    {isConflictCopy : Bool} (hv : m.Agrees v.versionId v.contentHash) (hk : k ≠ nodeId) :
    ((m.upsertVersion v).recordVersion nodeId v.versionId serverSeq isConflictCopy).Told content contentHash k := by
  have hversion := sound_upsertVersion h hv
  have hrow : RowKept k (m.upsertVersion v) ((m.upsertVersion v).recordVersion nodeId v.versionId serverSeq isConflictCopy) :=
    rowKept_of_getNode (getNode_recordVersion_ne hk)
  refine (hversion.told k).kept hrow (.of_versions ?_)
  rw [Mirror.recordVersion]
  split <;> rfl

/-- A version of a node that nothing is recorded for. -/
theorem sound_recordVersion_unrecorded (h : m.Sound content contentHash) {v : LocalVersion} {serverSeq : ℕ}
    (hv : m.Agrees v.versionId v.contentHash) (hnone : m.Unrecorded nodeId) :
    ((m.upsertVersion v).recordVersion nodeId v.versionId serverSeq false).Sound content contentHash := by
  refine ⟨nodup_recordVersion h.keyed, fun k => ?_⟩
  by_cases hk : k = nodeId
  · subst hk
    intro a b hc
    obtain ⟨r', hr', hsize, htime⟩ := caches_iff.mp hc
    rw [getNode_recordVersion_self, getNode_upsertVersion] at hr'
    obtain ⟨r, hr, rfl⟩ := Option.map_eq_some_iff.mp hr'
    exact absurd (caches_iff.mpr ⟨r, hr, hsize, htime⟩) (hnone a b)
  · exact told_recordVersion_ne h hv hk

/-- A conflict copy leaves the current version. -/
theorem rowKept_recordVersion_copy (versionId : String) (serverSeq : ℕ) (n : String) :
    RowKept n m (m.recordVersion nodeId versionId serverSeq true) :=
  rowKept_updateNode (f := fun r => { r with serverSeq }) (fun _ => rfl) (fun _ => rfl) n

theorem sound_recordVersion_copy (h : m.Sound content contentHash) {v : LocalVersion} {serverSeq : ℕ}
    (hv : m.Agrees v.versionId v.contentHash) :
    ((m.upsertVersion v).recordVersion nodeId v.versionId serverSeq true).Sound content contentHash :=
  sound_updateNode (sound_upsertVersion h hv) (fun _ => rfl) fun _ => rfl

theorem getNode_updatePushedCache : (m.updatePushedCache nodeId sizeBytes mtimeNanos).getNode nodeId =
    (m.getNode nodeId).map fun r =>
      { r with pushedSizeBytes := some sizeBytes, pushedMtimeNanos := some mtimeNanos } :=
  lookup_update_self fun _ hr => hr

/-- **What is recorded** describes the current version, when the current version has the content that is told. -/
theorem sound_updatePushedCache (hkeyed : m.Keyed) (hothers : ∀ k ≠ nodeId, m.Told content contentHash k)
    (hcurrent : (m.getNode nodeId).isSome → m.currentContent nodeId = some (contentHash (content sizeBytes mtimeNanos))) :
    (m.updatePushedCache nodeId sizeBytes mtimeNanos).Sound content contentHash := by
  refine ⟨nodup_updateNode (fun _ => rfl) hkeyed, fun k => ?_⟩
  by_cases hk : k = nodeId
  · subst hk
    intro a b hc
    obtain ⟨r', hr', hsize, htime⟩ := caches_iff.mp hc
    rw [getNode_updatePushedCache] at hr'
    obtain ⟨r, hr, rfl⟩ := Option.map_eq_some_iff.mp hr'
    cases hsize
    cases htime
    have hsame : (m.updatePushedCache k sizeBytes mtimeNanos).currentContent k = m.currentContent k := by
      rw [Mirror.currentContent, Mirror.currentContent, getNode_updatePushedCache, hr]
      rfl
    rw [hsame]
    exact hcurrent (by rw [hr]; rfl)
  · have hrow : RowKept k m (m.updatePushedCache nodeId sizeBytes mtimeNanos) :=
      rowKept_of_getNode (getNode_updateNode_ne (fun _ => rfl) hk)
    exact (hothers k hk).kept hrow (.of_versions rfl)

/-- A version that is recorded as applied, with size and time of the file it came from. -/
theorem sound_pushed (h : m.Sound content contentHash) {v : LocalVersion} {serverSeq : ℕ}
    (hv : m.Agrees v.versionId v.contentHash) (hhash : v.contentHash = contentHash (content sizeBytes mtimeNanos)) :
    (((m.upsertVersion v).recordVersion nodeId v.versionId serverSeq false).updatePushedCache nodeId sizeBytes
      mtimeNanos).Sound content contentHash := by
  refine sound_updatePushedCache (nodup_recordVersion h.keyed) (fun k hk => told_recordVersion_ne h hv hk) fun hthere => ?_
  rw [getNode_recordVersion_self, Option.isSome_map] at hthere
  rw [← hhash]
  exact currentContent_recordVersion hthere

theorem unrecorded_of_none (h : m.getNode nodeId = none) : m.Unrecorded nodeId := by
  intro a b hc
  obtain ⟨r, hr, -⟩ := caches_iff.mp hc
  rw [h] at hr
  cases hr

/-- A row without a pair writes none: the row that is there keeps its push cache. -/
theorem caches_upsertNode {r : LocalNode} (hr : r.pushedSizeBytes = none)
    (h : (m.upsertNode r).caches nodeId sizeBytes mtimeNanos) : m.caches nodeId sizeBytes mtimeNanos := by
  by_cases hn : nodeId = r.nodeId
  · subst hn
    obtain ⟨r', hr', hsize, htime⟩ := caches_iff.mp h
    rw [getNode_upsertNode_self] at hr'
    cases hold : m.getNode r.nodeId with
    | none =>
      rw [hold] at hr'
      cases hr'
      have hsome : r.pushedSizeBytes = some sizeBytes := hsize
      exact absurd (hr.symm.trans hsome) nofun
    | some old =>
      rw [hold] at hr'
      cases hr'
      exact caches_iff.mpr ⟨old, hold, hsize, htime⟩
  · exact caches_of_rowKept (rowKept_of_getNode (getNode_upsertNode_ne r hn)) h

/-- A new row, over none or over one without a pair. -/
theorem sound_upsertNode_new (h : m.Sound content contentHash) {r : LocalNode} (hr : r.pushedSizeBytes = none)
    (hnone : m.Unrecorded r.nodeId) : (m.upsertNode r).Sound content contentHash := by
  refine ⟨nodup_upsertNode r h.keyed, fun k => ?_⟩
  by_cases hk : k = r.nodeId
  · subst hk
    exact fun a b hc => absurd (caches_upsertNode hr hc) (hnone a b)
  · exact (h.told k).kept (rowKept_of_getNode (getNode_upsertNode_ne r hk)) (.of_versions rfl)

/-- The row of a node is written again, with the current version that it has. -/
theorem sound_upsertNode_again (h : m.Sound content contentHash) {r old : LocalNode}
    (hold : m.getNode r.nodeId = some old) (hversion : r.currentVersionId = old.currentVersionId) :
    (m.upsertNode r).Sound content contentHash := by
  have hrows : ∀ k, RowKept k m (m.upsertNode r) := by
    intro k
    by_cases hk : k = r.nodeId
    · subst hk
      rw [RowKept, getNode_upsertNode_self, hold]
      show some (r.currentVersionId, old.pushedSizeBytes, old.pushedMtimeNanos) = some old.pushColumns
      rw [hversion]
      rfl
    · exact rowKept_of_getNode (getNode_upsertNode_ne r hk)
  exact h.kept (nodup_upsertNode r h.keyed) hrows (.of_versions rfl)

end Statements

/-! ### Pages -/

/-- The version that an op brings: its id and its content hash. -/
def versionSaid (op : OpLogEntry) : Option (String × String) :=
  match op.payload with
  | .newVersion versionId contentHash _ _ _ => some (versionId, contentHash)
  | _ => none

/-- What an op says of the content of its node: a create writes a row without a current version, and a conflict copy
leaves the current version as it is. -/
def contentSaid (op : OpLogEntry) : Option (Option String) :=
  match op.payload with
  | .create _ _ _ _ => some none
  | .newVersion _ contentHash _ _ false => some (some contentHash)
  | _ => none

/-- What the ops say last of the content of the node. -/
def lastSaid (nodeId : String) : List OpLogEntry → Option (Option String)
  | [] => none
  | op :: ops => (lastSaid nodeId ops).or (if op.nodeId = nodeId then contentSaid op else none)

/-- One version id stands for one content. What the ops say of an id agrees with the mirror's row and with what the
other ops say of it. -/
def Mirror.IdsAgree (m : Mirror) (ops : List OpLogEntry) : Prop :=
  ∀ op ∈ ops, ∀ v ∈ versionSaid op, m.Agrees v.1 v.2 ∧ ∀ op' ∈ ops, ∀ v' ∈ versionSaid op', v'.1 = v.1 → v'.2 = v.2

/-- A page after which the pairs of size and time still describe the current versions.  A page that ends below the
cursor is not applied.  Any other one is applied to its end, comes in the order of the log, names its versions by ids
of their own, and says nothing of the content of a node with a pair, or last of all what the pair tells: so does the
echo of an upload. -/
structure Mirror.PageTells (content : ℕ → ℕ → List ChunkRef) (contentHash : List ChunkRef → String) (m : Mirror)
    (now : ℕ) (ops : List OpLogEntry) : Prop where
  ascending : ops.Pairwise fun a b => a.serverSeq < b.serverSeq
  applied : (m.applyOps now ops).2.isOk = true
  ids : m.IdsAgree ops
  told (nodeId : String) (sizeBytes mtimeNanos : ℕ) (h : m.caches nodeId sizeBytes mtimeNanos) :
    ∀ said ∈ lastSaid nodeId ops, said = some (contentHash (content sizeBytes mtimeNanos))

section Pages

variable {content : ℕ → ℕ → List ChunkRef} {contentHash : List ChunkRef → String} {m m' : Mirror} {now : ℕ}
  {nodeId hash : String} {op : OpLogEntry} {ops : List OpLogEntry} {pulled : List PulledNode}

theorem lastSaid_of_some {said : Option String} (h : lastSaid nodeId ops = some said) :
    lastSaid nodeId (op :: ops) = some said := by rw [lastSaid, h, Option.some_or]

theorem lastSaid_of_none (h : lastSaid nodeId ops = none) :
    lastSaid nodeId (op :: ops) = if op.nodeId = nodeId then contentSaid op else none := by
  rw [lastSaid, h, Option.none_or]

/-- The rows under an id, after a version with an id of its own. -/
theorem getVersion_upsertVersion {v old : LocalVersion} {k : String} (h : (m.upsertVersion v).getVersion k = some old) :
    m.getVersion k = some old ∨ k = v.versionId ∧ old.contentHash = v.contentHash := by
  by_cases hk : k = v.versionId
  · subst hk
    have hhash := contentHash_upsertVersion (m := m) v
    rw [h] at hhash
    exact .inr ⟨rfl, Option.some.inj hhash⟩
  · rw [getVersion_upsertVersion_ne v hk] at h
    exact .inl h

/-- **One op**: what it does to the rows that the push cache is about. -/
structure OpShows (m m' : Mirror) (op : OpLogEntry) : Prop where
  /-- A row under a version id was there, or the op brings it. -/
  versions (k : String) (v : LocalVersion) (h : m'.getVersion k = some v) :
    m.getVersion k = some v ∨ versionSaid op = some (k, v.contentHash)
  kept (h : ∀ v ∈ versionSaid op, m.Agrees v.1 v.2) : VersionsKept m m'
  /-- A pair in the node's row was there before. -/
  pairs (sizeBytes mtimeNanos : ℕ) (h : m'.caches op.nodeId sizeBytes mtimeNanos) :
    m.caches op.nodeId sizeBytes mtimeNanos
  silent (h : contentSaid op = none) : RowKept op.nodeId m m'
  /-- The op is passed over, or the row has its sequence and its content. -/
  said : m' = m ∧ m.stale op = true ∨ (∀ r ∈ m'.getNode op.nodeId, r.serverSeq = op.serverSeq) ∧
    ∀ hash, contentSaid op = some (some hash) → m'.currentContent op.nodeId = some hash

theorem serverSeq_updateNode {f : LocalNode → LocalNode} (hid : ∀ r, (f r).nodeId = r.nodeId) {seq : ℕ}
    (hseq : ∀ r, (f r).serverSeq = seq) : ∀ r ∈ (m.updateNode nodeId f).getNode nodeId, r.serverSeq = seq := by
  intro r hr
  rw [getNode_updateNode_self hid] at hr
  obtain ⟨old, -, rfl⟩ := Option.map_eq_some_iff.mp hr
  exact hseq old

/-- An op that sets a name, a parent or a mark. -/
theorem opShows_updateNode {f : LocalNode → LocalNode} (hid : ∀ r, (f r).nodeId = r.nodeId)
    (hcolumns : ∀ r, (f r).pushColumns = r.pushColumns) (hseq : ∀ r, (f r).serverSeq = op.serverSeq)
    (hcontent : contentSaid op = none) : OpShows m (m.updateNode op.nodeId f) op where
  versions _ _ h := .inl h
  kept _ := .of_versions rfl
  pairs _ _ h := caches_of_rowKept (rowKept_updateNode hid hcolumns _) h
  silent _ := rowKept_updateNode hid hcolumns _
  said := .inr ⟨serverSeq_updateNode hid hseq, fun hash h => by rw [hcontent] at h; cases h⟩

/-- A create writes over the row that is there, and leaves its push cache. -/
theorem opShows_create {r : LocalNode} (hid : r.nodeId = op.nodeId) (hsize : r.pushedSizeBytes = none)
    (hseq : r.serverSeq = op.serverSeq) (hcontent : contentSaid op = some none) :
    OpShows m (m.upsertNode r) op where
  versions _ _ h := .inl h
  kept _ := .of_versions rfl
  pairs _ _ h := caches_upsertNode hsize h
  silent h := by
    rw [hcontent] at h
    cases h
  said := by
    refine .inr ⟨fun r' hr' => ?_, fun hash h => ?_⟩
    · rw [← hid, getNode_upsertNode_self] at hr'
      cases hold : m.getNode r.nodeId <;> rw [hold] at hr' <;> cases hr' <;> exact hseq
    · rw [hcontent] at h
      cases h

/-- A new version writes its row and, unless it is a conflict copy, the node's current version. -/
theorem opShows_version {v : LocalVersion} {isConflictCopy : Bool} (hthere : (m.getNode op.nodeId).isSome)
    (hversion : versionSaid op = some (v.versionId, v.contentHash))
    (hcontent : contentSaid op = if isConflictCopy then none else some (some v.contentHash)) :
    OpShows m ((m.upsertVersion v).recordVersion op.nodeId v.versionId op.serverSeq isConflictCopy) op := by
  have htables : ((m.upsertVersion v).recordVersion op.nodeId v.versionId op.serverSeq isConflictCopy).versions =
      (m.upsertVersion v).versions := by
    rw [Mirror.recordVersion]
    split <;> rfl
  refine ⟨fun k old h => ?_, fun h => ?_, fun a b h => ?_, fun h => ?_, .inr ⟨?_, fun hash h => ?_⟩⟩
  · rw [Mirror.getVersion, htables] at h
    cases getVersion_upsertVersion h with
    | inl hold => exact .inl hold
    | inr hnew =>
      right
      rw [hversion, hnew.1, hnew.2]
  · have hagrees : m.Agrees v.versionId v.contentHash := h _ hversion
    exact (versionsKept_upsertVersion hagrees).trans (.of_versions htables)
  · cases isConflictCopy with
    | true =>
      have hbefore : (m.upsertVersion v).caches op.nodeId a b :=
        caches_of_rowKept (rowKept_recordVersion_copy v.versionId op.serverSeq op.nodeId) h
      exact hbefore
    | false =>
      obtain ⟨r', hr', ha, hb⟩ := caches_iff.mp h
      rw [getNode_recordVersion_self] at hr'
      obtain ⟨r, hr, rfl⟩ := Option.map_eq_some_iff.mp hr'
      exact caches_iff.mpr ⟨r, hr, ha, hb⟩
  · cases isConflictCopy with
    | true =>
      exact rowKept_recordVersion_copy (m := m.upsertVersion v) v.versionId op.serverSeq op.nodeId
    | false =>
      rw [hcontent] at h
      cases h
  · rw [Mirror.recordVersion]
    split
    · exact serverSeq_updateNode (f := fun r => { r with serverSeq := op.serverSeq }) (fun _ => rfl) fun _ => rfl
    · exact serverSeq_updateNode
        (f := fun r => { r with currentVersionId := some v.versionId, serverSeq := op.serverSeq }) (fun _ => rfl) fun _ => rfl
  · cases isConflictCopy with
    | true =>
      rw [hcontent] at h
      cases h
    | false =>
      rw [hcontent] at h
      cases h
      exact currentContent_recordVersion hthere

theorem opShows_applyOpLogEntry (h : m.applyOpLogEntry now op = .ok m') : OpShows m m' op := by
  rw [Mirror.applyOpLogEntry] at h
  split at h
  · next hstale =>
    cases h
    exact ⟨fun _ _ h => .inl h, fun _ => .of_versions rfl, fun _ _ h => h, fun _ => rfl, .inl ⟨rfl, hstale⟩⟩
  rw [Mirror.applyPayload] at h
  cases hop : op.payload with
  | create _ parentId name nodeType =>
    rw [hop] at h
    dsimp only at h
    rw [Mirror.applyCreate] at h
    split at h
    · cases h
    · cases h
      exact opShows_create rfl rfl rfl (by rw [contentSaid, hop])
  | rename newName =>
    rw [hop] at h
    cases h
    exact opShows_updateNode (fun _ => rfl) (fun _ => rfl) (fun _ => rfl) (by rw [contentSaid, hop])
  | move newParentId =>
    rw [hop] at h
    cases h
    exact opShows_updateNode (fun _ => rfl) (fun _ => rfl) (fun _ => rfl) (by rw [contentSaid, hop])
  | delete =>
    rw [hop] at h
    cases h
    exact opShows_updateNode (fun _ => rfl) (fun _ => rfl) (fun _ => rfl) (by rw [contentSaid, hop])
  | newVersion versionId contentHash sizeBytes manifest isConflictCopy =>
    rw [hop] at h
    dsimp only at h
    rw [Mirror.applyNewVersion] at h
    split at h
    · cases h
    · next node hnode =>
      cases h
      have hsaid : contentSaid op = if isConflictCopy then none else some (some contentHash) := by
        cases isConflictCopy <;> rw [contentSaid, hop] <;> rfl
      exact opShows_version (v := { versionId, nodeId := op.nodeId, folderId := node.folderId, contentHash, sizeBytes, manifest })
        (by rw [hnode]; rfl) (by rw [versionSaid, hop]) hsaid

theorem exists_of_applyOps_cons (h : m.applyOps now (op :: ops) = (m', .ok pulled)) :
    ∃ m₁ rest, m.applyOpLogEntry now op = .ok m₁ ∧ m₁.applyOps now ops = (m', .ok rest) := by
  rw [Mirror.applyOps] at h
  cases hone : m.applyOpLogEntry now op with
  | error e =>
    rw [hone] at h
    cases h
  | ok m₁ =>
    rw [hone] at h
    dsimp only at h
    split at h
    · cases h
    · split at h
      · next hrest =>
        cases h
        exact ⟨m₁, _, rfl, hrest⟩
      · cases h

theorem Mirror.IdsAgree.tail (h : m.IdsAgree (op :: ops)) (hop : m.applyOpLogEntry now op = .ok m') :
    m'.IdsAgree ops := by
  intro op' hop' v hv
  obtain ⟨hagrees, hpage⟩ := h op' (List.mem_cons_of_mem _ hop') v hv
  refine ⟨fun old hold => ?_, fun op'' hop'' => hpage op'' (List.mem_cons_of_mem _ hop'')⟩
  cases (opShows_applyOpLogEntry hop).versions v.1 old hold with
  | inl hthere => exact hagrees old hthere
  | inr hsaid => exact hpage op List.mem_cons_self _ hsaid rfl

theorem versionsKept_op (h : m.IdsAgree (op :: ops)) (hop : m.applyOpLogEntry now op = .ok m') : VersionsKept m m' :=
  (opShows_applyOpLogEntry hop).kept fun v hv => (h op List.mem_cons_self v hv).1

/-- An op of another node, or one that says nothing of the content. -/
theorem currentContent_op (h : m.IdsAgree (op :: ops)) (hop : m.applyOpLogEntry now op = .ok m')
    (hsaid : (if op.nodeId = nodeId then contentSaid op else none) = none) (hcontent : m.currentContent nodeId = some hash) :
    m'.currentContent nodeId = some hash := by
  have hkept := versionsKept_op h hop
  by_cases hn : op.nodeId = nodeId
  · subst hn
    rw [if_pos rfl] at hsaid
    exact currentContent_of_kept ((opShows_applyOpLogEntry hop).silent hsaid) hkept hcontent
  · exact currentContent_of_kept (rowKept_of_getNode (getNode_applyOpLogEntry_ne hop (Ne.symm hn))) hkept hcontent

/-- Ops that say nothing of the node's content. -/
theorem currentContent_silent (hids : m.IdsAgree ops) (hok : m.applyOps now ops = (m', .ok pulled))
    (hsaid : lastSaid nodeId ops = none) (hcontent : m.currentContent nodeId = some hash) :
    m'.currentContent nodeId = some hash := by
  induction ops generalizing m pulled with
  | nil =>
    cases hok
    exact hcontent
  | cons op ops ih =>
    obtain ⟨m₁, rest, hop, hrest⟩ := exists_of_applyOps_cons hok
    have hnone := Option.or_eq_none_iff.mp hsaid
    exact ih (hids.tail hop) hrest hnone.1 (currentContent_op hids hop hnone.2 hcontent)

/-- The node's row is behind all of these ops, so that each of them is applied to it. -/
def Mirror.Behind (m : Mirror) (nodeId : String) (ops : List OpLogEntry) : Prop :=
  ∀ r ∈ m.getNode nodeId, ∀ op ∈ ops, r.serverSeq < op.serverSeq

theorem not_stale_of_behind (h : m.Behind op.nodeId (op :: ops)) : m.stale op = false := by
  rw [Mirror.stale]
  cases hr : m.getNode op.nodeId with
  | none => simp
  | some r =>
    have hlt := h r hr op List.mem_cons_self
    simp [hlt]

theorem Mirror.Behind.tail (h : m.Behind nodeId (op :: ops)) (hasc : (op :: ops).Pairwise fun a b => a.serverSeq < b.serverSeq)
    (hop : m.applyOpLogEntry now op = .ok m') : m'.Behind nodeId ops := by
  obtain ⟨hfirst, -⟩ := List.pairwise_cons.mp hasc
  intro r hr op' hop'
  by_cases hn : op.nodeId = nodeId
  · subst hn
    cases (opShows_applyOpLogEntry hop).said with
    | inl hstale =>
      rw [not_stale_of_behind h] at hstale
      exact absurd hstale.2 Bool.false_ne_true
    | inr hsaid =>
      rw [hsaid.1 r hr]
      exact hfirst op' hop'
  · rw [getNode_applyOpLogEntry_ne hop (Ne.symm hn)] at hr
    exact h r hr op' (List.mem_cons_of_mem _ hop')

/-- What is said last stands at the end, when no op is passed over. -/
theorem currentContent_behind (hids : m.IdsAgree ops) (hasc : ops.Pairwise fun a b => a.serverSeq < b.serverSeq)
    (hbehind : m.Behind nodeId ops) (hok : m.applyOps now ops = (m', .ok pulled))
    (hsaid : lastSaid nodeId ops = some (some hash)) : m'.currentContent nodeId = some hash := by
  induction ops generalizing m pulled with
  | nil => cases hsaid
  | cons op ops ih =>
    obtain ⟨m₁, rest, hop, hrest⟩ := exists_of_applyOps_cons hok
    cases hlast : lastSaid nodeId ops with
    | some said =>
      rw [lastSaid_of_some hlast] at hsaid
      rw [hsaid] at hlast
      exact ih (hids.tail hop) (List.pairwise_cons.mp hasc).2 (hbehind.tail hasc hop) hrest hlast
    | none =>
      rw [lastSaid_of_none hlast] at hsaid
      split at hsaid
      · next hn =>
        subst hn
        cases (opShows_applyOpLogEntry hop).said with
        | inl hstale =>
          rw [not_stale_of_behind hbehind] at hstale
          exact absurd hstale.2 Bool.false_ne_true
        | inr hshown => exact currentContent_silent (hids.tail hop) hrest hlast (hshown.2 hash hsaid)
      · cases hsaid

/-- **The content behind a page**: what it was, when the page says nothing else of it last.  A page may pass a create and
a version of the node itself, as the echo of an upload does; the row has no current version in between. -/
theorem currentContent_applyOps (hids : m.IdsAgree ops) (hasc : ops.Pairwise fun a b => a.serverSeq < b.serverSeq)
    (hok : m.applyOps now ops = (m', .ok pulled)) (hsaid : ∀ said ∈ lastSaid nodeId ops, said = some hash)
    (hcontent : m.currentContent nodeId = some hash) : m'.currentContent nodeId = some hash := by
  induction ops generalizing m pulled with
  | nil =>
    cases hok
    exact hcontent
  | cons op ops ih =>
    obtain ⟨m₁, rest, hop, hrest⟩ := exists_of_applyOps_cons hok
    have hids₁ := hids.tail hop
    obtain ⟨hfirst, hasc₁⟩ := List.pairwise_cons.mp hasc
    have hsaid₁ : ∀ said ∈ lastSaid nodeId ops, said = some hash := fun said h => hsaid said (lastSaid_of_some h)
    by_cases hsilent : (if op.nodeId = nodeId then contentSaid op else none) = none
    · exact ih hids₁ hasc₁ hrest hsaid₁ (currentContent_op hids hop hsilent hcontent)
    · split at hsilent
      · next hn =>
        subst hn
        cases (opShows_applyOpLogEntry hop).said with
        | inl hstale =>
          rw [← hstale.1] at hcontent
          exact ih hids₁ hasc₁ hrest hsaid₁ hcontent
        | inr hshown =>
          cases hlast : lastSaid op.nodeId ops with
          | some said =>
            have hbehind : m₁.Behind op.nodeId ops := fun r hr op' hop' => by
              rw [hshown.1 r hr]
              exact hfirst op' hop'
            rw [hsaid₁ said hlast] at hlast
            exact currentContent_behind hids₁ hasc₁ hbehind hrest hlast
          | none =>
            rw [lastSaid_of_none hlast, if_pos rfl] at hsaid
            obtain ⟨said, hop'⟩ := Option.ne_none_iff_exists'.mp hsilent
            rw [hsaid said hop'] at hop'
            exact currentContent_silent hids₁ hrest hlast (hshown.2 hash hop')
      · exact absurd rfl hsilent

theorem caches_applyOps {n : String} {a b : ℕ} (hok : m.applyOps now ops = (m', .ok pulled)) (h : m'.caches n a b) :
    m.caches n a b := by
  induction ops generalizing m pulled with
  | nil =>
    cases hok
    exact h
  | cons op ops ih =>
    obtain ⟨m₁, rest, hop, hrest⟩ := exists_of_applyOps_cons hok
    have hone := ih hrest
    by_cases hn : op.nodeId = n
    · subst hn
      exact (opShows_applyOpLogEntry hop).pairs a b hone
    · exact caches_of_rowKept (rowKept_of_getNode (getNode_applyOpLogEntry_ne hop (Ne.symm hn))) hone

theorem keyed_applyOps (hok : m.applyOps now ops = (m', .ok pulled)) (h : m.Keyed) : m'.Keyed := by
  induction ops generalizing m pulled with
  | nil =>
    cases hok
    exact h
  | cons op ops ih =>
    obtain ⟨m₁, rest, hop, hrest⟩ := exists_of_applyOps_cons hok
    exact ih hrest (nodup_applyOpLogEntry h hop)

/-- **A page.** -/
theorem sound_applyPage (h : m.Sound content contentHash) {folderId : String} {delta : DeltaPullResponse}
    (hpage : delta.upToSeq < m.getCursor folderId ∨ m.PageTells content contentHash now delta.ops) :
    (m.applyPage now folderId delta).1.Sound content contentHash := by
  rw [Mirror.applyPage]
  split
  · exact h
  · next hcursor =>
    have htells := hpage.resolve_left hcursor
    have happlied := htells.applied
    cases hok : m.applyOps now delta.ops with
    | mk m' res =>
      cases res with
      | error e =>
        rw [hok] at happlied
        cases happlied
      | ok pulled =>
        have hsound : m'.Sound content contentHash := by
          refine ⟨keyed_applyOps hok h.keyed, fun n a b hc => ?_⟩
          have hbefore := caches_applyOps hok hc
          exact currentContent_applyOps htells.ids htells.ascending hok (htells.told n a b hbefore)
            (h.told n a b hbefore)
        exact hsound.of_tables rfl rfl

end Pages

/-! ### Snapshots -/

/-- A snapshot after which the pairs still describe the current versions: a pair in another folder's row stays, so the
snapshot has no row of that node, and its version is none of the folder that is written anew. -/
def Mirror.ResyncTells (m : Mirror) (folderId : String) (resp : FolderTreeResponse) : Prop :=
  ∀ r ∈ m.nodes, r.folderId ≠ folderId → r.pushedSizeBytes ≠ none →
    r.nodeId ∉ resp.nodes.map NodeSnapshot.nodeId ∧
    ∀ v ∈ m.versions, v.versionId = r.currentVersionId.getD "" → v.folderId ≠ folderId

section Snapshots

variable {content : ℕ → ℕ → List ChunkRef} {contentHash : List ChunkRef → String} {m m' : Mirror} {folderId : String}

theorem caches_insertSnapshotNodes (nodes : List NodeSnapshot) {n : String} {a b : ℕ}
    (h : (nodes.foldl (Mirror.insertSnapshotNode folderId) m).caches n a b) : m.caches n a b := by
  induction nodes generalizing m with
  | nil => exact h
  | cons node nodes ih => exact caches_upsertNode rfl (ih h)

/-- The rows of a snapshot are those it writes, and the versions stay. -/
theorem insertSnapshotNodes_ne (folderId : String) {nodes : List NodeSnapshot} {n : String}
    (hn : n ∉ nodes.map NodeSnapshot.nodeId) :
    (nodes.foldl (Mirror.insertSnapshotNode folderId) m).getNode n = m.getNode n ∧
      (nodes.foldl (Mirror.insertSnapshotNode folderId) m).versions = m.versions := by
  induction nodes generalizing m with
  | nil => exact ⟨rfl, rfl⟩
  | cons node nodes ih =>
    rw [List.map_cons, List.mem_cons, not_or] at hn
    obtain ⟨hrow, hversions⟩ := ih (m := m.insertSnapshotNode folderId node) hn.2
    exact ⟨hrow.trans (getNode_upsertNode_ne _ hn.1), hversions⟩

/-- **A snapshot.** -/
theorem sound_applyTreeSnapshot (h : m.Sound content contentHash) {resp : FolderTreeResponse}
    (htells : m.ResyncTells folderId resp) : (m.applyTreeSnapshot folderId resp).Sound content contentHash := by
  refine ⟨nodup_applyTreeSnapshot h.keyed, fun n a b hc => ?_⟩
  let dropped : Mirror := { m with
    versions := m.versions.filter fun r => r.folderId ≠ folderId
    nodes := m.nodes.filter fun r => r.folderId ≠ folderId }
  have hdropped : dropped.caches n a b := caches_insertSnapshotNodes resp.nodes hc
  obtain ⟨r, hr, hsize, htime⟩ := caches_iff.mp hdropped
  obtain ⟨hmem, hfolder⟩ := List.mem_filter.mp (mem_of_lookup hr)
  have hid : r.nodeId = n := lookup_key hr
  have hthere : m.getNode n = some r := by
    rw [← hid]
    exact lookup_of_mem h.keyed hmem
  have hpair : r.pushedSizeBytes ≠ none := by
    rw [hsize]
    exact Option.some_ne_none a
  obtain ⟨hnode, hversion⟩ := htells r hmem (of_decide_eq_true hfolder) hpair
  obtain ⟨hrow, hversions⟩ := insertSnapshotNodes_ne (m := dropped) folderId (hid ▸ hnode)
  have hcontent := h.told n a b (caches_iff.mpr ⟨r, hthere, hsize, htime⟩)
  rw [Mirror.currentContent, hthere] at hcontent
  have hkept : lookup LocalVersion.versionId (r.currentVersionId.getD "") dropped.versions =
      m.getVersion (r.currentVersionId.getD "") :=
    lookup_filter fun v hv hvid => decide_eq_true (hversion v hv hvid)
  have hrow' : (m.applyTreeSnapshot folderId resp).getNode n = some r := hrow.trans hr
  have hversion' : (m.applyTreeSnapshot folderId resp).getVersion (r.currentVersionId.getD "") =
      m.getVersion (r.currentVersionId.getD "") := by
    rw [← hkept, ← hversions]
    rfl
  rw [Mirror.currentContent, hrow', Option.bind_some, hversion']
  exact hcontent

end Snapshots

end Valv.Client
